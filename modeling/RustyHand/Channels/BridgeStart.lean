import RustyHand.Channels.Targets
import RustyHand.Lib.Table

/-!
# The start of the channel bridge

`start_channel_bridge_with_config` of `rusty-hand-api/src/channel_bridge.rs`, as far as it fills the
router.  One default agent is set, that of the first adapter that has one configured; the names of
the agents are told to the router only if there are bindings.

* `startRouter`: the router that the bridge starts with;
* `Running`: the agents that run when the bridge starts;
* `Deployment`: a configuration whose agents run when the bridge starts;
* `Reached`: a message gets to what is configured for it;
* `Configured`: the configuration is one that the start can carry out for the message;
* `reached_iff_configured`.
-/

namespace RustyHand
namespace Bridge

/-! ### The start -/

/-- `TelegramConfig`, `DiscordConfig` or `SlackConfig`. -/
structure ChannelConfig where
  /-- Are its tokens set in the environment? -/
  tokens : Bool
  defaultAgent : Option String := none

/-- `ChannelsConfig`. -/
structure ChannelsConfig where
  telegram : Option ChannelConfig := none
  discord : Option ChannelConfig := none
  slack : Option ChannelConfig := none

/-- The adapters to start, each with the default agent of its channel. -/
def ChannelsConfig.adapters (channels : ChannelsConfig) : List (ChannelType × Option String) :=
  [(.telegram, channels.telegram), (.discord, channels.discord), (.slack, channels.slack)].filterMap
    fun (channel, config) =>
      (config.filter ChannelConfig.tokens).map fun config => (channel, config.defaultAgent)

/-- The default agent of the first adapter that has one configured. -/
def ChannelsConfig.firstDefault (channels : ChannelsConfig) : Option String :=
  channels.adapters.findSome? Prod.snd

/-- `resolve_default_agent`. -/
def resolveDefaultAgent (h : Handle) (name : String) (router : AgentRouter) : AgentRouter :=
  match h.findAgentByName name with
  | .ok (some agentId) => router.setDefault agentId
  | _ =>
    match h.spawnAgentByName name with
    | .ok agentId => router.setDefault agentId
    | .error _ => router

/-- The router that the bridge starts with, the registry listing some agents. -/
def startRouter (h : Handle) (agents : List (String × AgentId)) (channels : ChannelsConfig)
    (bindings : List AgentBinding) (broadcastRoutes : List (String × List String)) : AgentRouter :=
  let router : AgentRouter :=
    match channels.firstDefault with
    | some name => resolveDefaultAgent h name {}
    | none => {}
  let router :=
    if bindings.isEmpty then router
    else { router with agentNameCache := agents }.loadBindings bindings
  { router with broadcastRoutes }

/-! ### Configured and reached -/

/-- The agents that run when the bridge starts, by name: no two have one name or id. -/
structure Running where
  agents : List (String × AgentId)
  names : Table.UniqueKeys Prod.fst agents
  ids : Table.UniqueKeys Prod.snd agents

namespace Running

variable {r : Running} {name name' : String} {agentId : AgentId}

/-- The agent of a name. -/
def idOf (r : Running) (name : String) : Option AgentId := r.agents.lookup name

/-- The handle while these agents run.  An agent that the bridge spawns runs already. -/
def handle (r : Running) (h : Handle) : Handle :=
  { h with
    listAgents := .ok (r.agents.map Prod.swap)
    findAgentByName := fun name => .ok (r.idOf name)
    spawnAgentByName := fun _ => .error "" }

theorem mem_of_idOf (hid : r.idOf name = some agentId) : (name, agentId) ∈ r.agents := by
  obtain ⟨before, after, hagents, -⟩ := List.lookup_eq_some_iff.1 hid
  simp [hagents]

theorem exists_idOf (hname : name ∈ r.agents.map Prod.fst) :
    ∃ agentId, r.idOf name = some agentId := by
  obtain ⟨agent, hagent, rfl⟩ := List.mem_map.1 hname
  exact Option.isSome_iff_exists.1 (List.lookup_isSome_iff.2 ⟨agent, hagent, by simp⟩)

theorem idOf_inj (hid : r.idOf name = some agentId) (hid' : r.idOf name' = some agentId) :
    name = name' :=
  congrArg Prod.fst (r.ids.eq (mem_of_idOf hid) (mem_of_idOf hid') rfl)

end Running

/-- A configuration that names agents that run when the bridge starts. -/
structure Deployment extends Running where
  channels : ChannelsConfig
  bindings : List AgentBinding := []
  broadcastRoutes : List (String × List String) := []
  defaultsRun : ∀ channel name, (channel, some name) ∈ channels.adapters →
    name ∈ agents.map Prod.fst
  bindingsRun : ∀ binding ∈ bindings, binding.agent ∈ agents.map Prod.fst
  broadcastsRun : ∀ route ∈ broadcastRoutes, ∀ name ∈ route.2, name ∈ agents.map Prod.fst

namespace Deployment

open Running (exists_idOf idOf_inj)

variable (d : Deployment) (h h' : Handle) (m : ChannelMessage)
  (userDefaults : List (String × AgentId)) (fallback : Option AgentId)

/-- The router of the bridge, when some users have chosen an agent and a fallback may have been
taken where there was no default. -/
def router : AgentRouter :=
  let started := startRouter (d.handle h) d.agents d.channels d.bindings d.broadcastRoutes
  { started with
    userDefaults := userDefaults
    defaultAgent := started.defaultAgent.or fallback }

/-- The message goes to every agent of its peer's broadcast once, and if nothing concerns it, to the
default agent of its own channel. -/
def Reached : Prop :=
  let router := d.router h userDefaults fallback
  (∀ names ∈ d.broadcastRoutes.lookup m.sender.platformId, ∀ name ∈ names,
    ∀ agentId ∈ d.idOf name, (textTargets h' router m).count agentId = 1) ∧
  (Unrouted router m → ∀ name, (m.channel, some name) ∈ d.channels.adapters →
    ∀ agentId ∈ d.idOf name, textTargets h' router m = [agentId])

/-- There are bindings, and no agent twice, where the peer has a broadcast; and if nothing concerns
the message, the default agent of its channel is that of the first channel that has one. -/
def Configured : Prop :=
  (∀ names ∈ d.broadcastRoutes.lookup m.sender.platformId, names ≠ [] →
    d.bindings ≠ [] ∧ names.Nodup) ∧
  (Unrouted (d.router h userDefaults fallback) m →
    ∀ name, (m.channel, some name) ∈ d.channels.adapters → d.channels.firstDefault = some name)

variable {d h h' m userDefaults fallback} {name name' : String} {agentId : AgentId}

/-! ### The router that is started -/

theorem broadcastRoutes_router :
    (d.router h userDefaults fallback).broadcastRoutes = d.broadcastRoutes := rfl

/-- The names are known only where there are bindings. -/
theorem agentNameCache_router : (d.router h userDefaults fallback).agentNameCache =
    if d.bindings = [] then [] else d.agents := by
  have hdefault : ∀ (h : Handle) (name : String),
      (resolveDefaultAgent h name {}).agentNameCache = [] := by
    intro h name
    unfold resolveDefaultAgent
    repeat' split
    all_goals rfl
  unfold router startRouter
  cases hbindings : d.bindings with
  | nil =>
    cases d.channels.firstDefault with
    | some name => exact hdefault _ name
    | none => rfl
  | cons binding bindings => rfl

theorem exists_of_firstDefault (hfirst : d.channels.firstDefault = some name) :
    ∃ agentId, d.idOf name = some agentId := by
  obtain ⟨⟨channel, default⟩, hmem, rfl⟩ := List.exists_of_findSome?_eq_some hfirst
  exact exists_idOf (d.defaultsRun channel name hmem)

/-- The default agent is that of the first adapter that has one, and only without such the
fallback. -/
theorem defaultAgent_router : (d.router h userDefaults fallback).defaultAgent =
    (d.channels.firstDefault.bind d.idOf).or fallback := by
  have hbound : ∀ (router : AgentRouter) (bindings : List AgentBinding),
      (if bindings.isEmpty then router
        else { router with agentNameCache := d.agents }.loadBindings bindings).defaultAgent =
      router.defaultAgent := by
    intro router bindings
    split <;> rfl
  simp only [router, startRouter, hbound]
  cases hfirst : d.channels.firstDefault with
  | none => rfl
  | some name =>
    obtain ⟨agentId, hid⟩ := exists_of_firstDefault hfirst
    simp [resolveDefaultAgent, Running.handle, hid, AgentRouter.setDefault]

/-! ### Broadcasts -/

theorem textTargets_of_route {names : List String}
    (hroute : d.broadcastRoutes.lookup m.sender.platformId = some names) (hnames : names ≠ []) :
    textTargets h' (d.router h userDefaults fallback) m =
      if d.bindings = [] then [] else names.filterMap d.idOf := by
  have hbroadcast : isBroadcast (d.router h userDefaults fallback) m = true := by
    simp [isBroadcast, AgentRouter.hasBroadcast, AgentRouter.resolveBroadcast,
      broadcastRoutes_router, hroute, hnames]
  rw [textTargets, if_pos hbroadcast, broadcastTargets, AgentRouter.resolveBroadcast,
    broadcastRoutes_router, hroute, agentNameCache_router]
  by_cases hbindings : d.bindings = []
  · simp [hbindings, List.filterMap_map]
  · simp only [Option.getD_some, List.filterMap_map, if_neg hbindings, Function.comp_def,
      List.map_filterMap, Option.map_map, Option.map_id_fun']
    rfl

theorem count_filterMap_idOf (hid : d.idOf name = some agentId) (names : List String) :
    (names.filterMap d.idOf).count agentId = names.count name := by
  rw [List.count_filterMap]
  refine List.countP_congr fun other _ => ?_
  rw [beq_iff_eq, beq_iff_eq]
  constructor
  · intro hother
    exact idOf_inj hother hid
  · rintro rfl
    exact hid

/-- Every agent of a broadcast is reached once. -/
theorem count_textTargets_iff {names : List String}
    (hroute : names ∈ d.broadcastRoutes.lookup m.sender.platformId) :
    (∀ name ∈ names, ∀ agentId ∈ d.idOf name,
      (textTargets h' (d.router h userDefaults fallback) m).count agentId = 1) ↔
      (names ≠ [] → d.bindings ≠ [] ∧ names.Nodup) := by
  obtain ⟨before, after, hroutes, -⟩ := List.lookup_eq_some_iff.1 hroute
  have hrun : ∀ name ∈ names, ∃ agentId, d.idOf name = some agentId := fun name hname =>
    exists_idOf (d.broadcastsRun (m.sender.platformId, names) (by simp [hroutes]) name hname)
  constructor
  · intro honce hnames
    rw [textTargets_of_route hroute hnames] at honce
    have hbindings : d.bindings ≠ [] := by
      intro hnil
      obtain ⟨name, hname⟩ := List.exists_mem_of_ne_nil names hnames
      obtain ⟨agentId, hid⟩ := hrun name hname
      have := honce name hname agentId hid
      rw [if_pos hnil] at this
      cases this
    refine ⟨hbindings, List.nodup_iff_count_eq_one.2 fun name hname => ?_⟩
    obtain ⟨agentId, hid⟩ := hrun name hname
    have := honce name hname agentId hid
    rwa [if_neg hbindings, count_filterMap_idOf hid] at this
  · intro hconfigured name hname agentId hid
    have hnames : names ≠ [] := List.ne_nil_of_mem hname
    obtain ⟨hbindings, hnodup⟩ := hconfigured hnames
    rw [textTargets_of_route hroute hnames, if_neg hbindings, count_filterMap_idOf hid]
    exact List.nodup_iff_count_eq_one.1 hnodup name hname

/-! ### Defaults -/

theorem textTargets_of_unrouted (hunrouted : Unrouted (d.router h userDefaults fallback) m)
    (hfirst : d.channels.firstDefault = some name) (hid : d.idOf name = some agentId) :
    textTargets h' (d.router h userDefaults fallback) m = [agentId] := by
  obtain ⟨hbroadcast, hown, huser, hplatform⟩ := hunrouted
  have hrouted : routed (d.router h userDefaults fallback) m = some agentId := by
    simp [routed, AgentRouter.resolve_eq, hown, AgentRouter.sharedRoute, huser, hplatform,
      defaultAgent_router, hfirst, hid]
  rw [textTargets, if_neg hbroadcast, hrouted]

theorem exists_firstDefault {channel : ChannelType}
    (hadapter : (channel, some name) ∈ d.channels.adapters) :
    ∃ name', d.channels.firstDefault = some name' :=
  Option.isSome_iff_exists.1 (List.findSome?_isSome_iff.2 ⟨_, hadapter, rfl⟩)

/-- A message gets to what is configured for it, if and only if the start can carry out what is
configured. -/
theorem reached_iff_configured :
    d.Reached h h' m userDefaults fallback ↔ d.Configured h m userDefaults fallback := by
  refine and_congr (forall₂_congr fun names hroute => count_textTargets_iff hroute)
    (forall_congr' fun hunrouted => forall₂_congr fun name hadapter => ?_)
  obtain ⟨name', hfirst⟩ := exists_firstDefault hadapter
  obtain ⟨agentId', hid'⟩ := exists_of_firstDefault hfirst
  constructor
  · intro hreached
    obtain ⟨agentId, hid⟩ := exists_idOf (d.defaultsRun m.channel name hadapter)
    have hsame := hreached agentId hid
    rw [textTargets_of_unrouted hunrouted hfirst hid'] at hsame
    rw [hfirst, idOf_inj hid' (List.singleton_inj.1 hsame ▸ hid)]
  · intro hname agentId hid
    exact textTargets_of_unrouted hunrouted hname hid

/-- Telegram and Discord with a default agent each. -/
def twoDefaults : Deployment where
  channels :=
    { telegram := some { tokens := true, defaultAgent := some "alpha" }
      discord := some { tokens := true, defaultAgent := some "beta" } }
  agents := [("alpha", 1), ("beta", 2)]
  names := by simp [Table.UniqueKeys]
  ids := by simp [Table.UniqueKeys]
  defaultsRun := by
    intro channel name hmem
    simp [ChannelsConfig.adapters] at hmem
    rcases hmem with ⟨-, rfl⟩ | ⟨-, rfl⟩ <;> decide
  bindingsRun := by simp
  broadcastsRun := by simp

/-- A message on Discord goes to the default agent of Telegram. -/
theorem twoDefaults_not_reached :
    ¬ ∀ (d : Deployment) (h h' : Handle) (m : ChannelMessage)
      (userDefaults : List (String × AgentId)) (fallback : Option AgentId),
      d.Reached h h' m userDefaults fallback := by
  intro hall
  have hdefault := (hall twoDefaults guarded guarded
    { channel := .discord, platformMessageId := "1", content := .text "hi", isGroup := false
      sender := { platformId := "7", displayName := "Ann" } } [] none).2
    ⟨by decide, by decide, by decide, by decide⟩ "beta" (by decide) 2 rfl
  exact absurd hdefault (by decide)

end Deployment

end Bridge
end RustyHand
