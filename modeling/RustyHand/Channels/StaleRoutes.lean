import RustyHand.Channels.BridgeStart
import RustyHand.Lib.Runs

/-!
# Routes to agents that are gone

The router keeps ids: of the agents that the names of bindings and broadcasts stood for when the
bridge was started, of the default agent, and of the agents that senders have chosen.  Agents are
killed, and restarted under new ids, in `rusty-hand-kernel/src/kernel.rs`, which knows no router.

* `Live`, `LiveEvent`: the registry and the router, and what happens to them;
* `Fresh`: every text goes to a registered agent, provided that one of the name, or for the cached
  fallback any agent, is registered;
* `KeepsFresh`: no agent is restarted that has a route, and no agent comes in the place of one that
  is gone;
* `fresh_iff_keepsFresh`: all states of a run are fresh if and only if all its events keep them so.
-/

namespace RustyHand
namespace Bridge

/-! ### The registry -/

namespace Running

variable {r : Running} {agent : String × AgentId} {agentId : AgentId}

/-- `AgentRegistry::register`: a name, or an id, that is taken is refused. -/
def register (r : Running) (agent : String × AgentId) : Running :=
  if hfree : agent.1 ∉ r.agents.map Prod.fst ∧ agent.2 ∉ r.agents.map Prod.snd then
    { agents := r.agents ++ [agent]
      names := by
        rw [← Table.upsert_of_not_mem hfree.1]
        exact r.names.upsert
      ids := by
        rw [← Table.upsert_of_not_mem hfree.2]
        exact r.ids.upsert }
  else r

/-- `AgentRegistry::remove`. -/
def remove (r : Running) (agentId : AgentId) : Running where
  agents := Table.erase Prod.snd agentId r.agents
  names := r.names.sublist (List.filter_sublist.map Prod.fst)
  ids := r.ids.erase

/-- Is the agent registered? -/
def Has (r : Running) (agentId : AgentId) : Prop := agentId ∈ r.agents.map Prod.snd

/-- Is an agent of the name registered? -/
def HasName (r : Running) (name : String) : Prop := name ∈ r.agents.map Prod.fst

instance (r : Running) (agentId : AgentId) : Decidable (r.Has agentId) :=
  inferInstanceAs (Decidable (_ ∈ _))

instance (r : Running) (name : String) : Decidable (r.HasName name) :=
  inferInstanceAs (Decidable (_ ∈ _))

theorem agents_register (hname : ¬ r.HasName agent.1) (hid : ¬ r.Has agent.2) :
    (r.register agent).agents = r.agents ++ [agent] := by
  have hfree : agent.1 ∉ r.agents.map Prod.fst ∧ agent.2 ∉ r.agents.map Prod.snd := ⟨hname, hid⟩
  rw [register, dif_pos hfree]

theorem mem_of_mem_register {other : String × AgentId}
    (hother : other ∈ (r.register agent).agents) :
    other ∈ r.agents ∨ other = agent := by
  unfold register at hother
  split at hother
  · simpa using hother
  · exact Or.inl hother

theorem has_register {other : AgentId} (hname : ¬ r.HasName agent.1) (hid : ¬ r.Has agent.2) :
    (r.register agent).Has other ↔ r.Has other ∨ other = agent.2 := by
  simp [Has, agents_register hname hid, or_comm]

theorem hasName_register {other : String} (hname : ¬ r.HasName agent.1) (hid : ¬ r.Has agent.2) :
    (r.register agent).HasName other ↔ r.HasName other ∨ other = agent.1 := by
  simp [HasName, agents_register hname hid, or_comm]

theorem mem_remove : agent ∈ (r.remove agentId).agents ↔ agent ∈ r.agents ∧ agent.2 ≠ agentId :=
  Table.mem_erase

theorem has_remove {other : AgentId} : (r.remove agentId).Has other ↔
    r.Has other ∧ other ≠ agentId := by
  simp only [Has, List.mem_map, mem_remove]
  constructor
  · rintro ⟨agent, ⟨hagent, hne⟩, rfl⟩
    exact ⟨⟨agent, hagent, rfl⟩, hne⟩
  · rintro ⟨⟨agent, hagent, rfl⟩, hne⟩
    exact ⟨agent, ⟨hagent, hne⟩, rfl⟩

theorem hasName_remove {name other : String} (hagent : (name, agentId) ∈ r.agents) :
    (r.remove agentId).HasName other ↔ r.HasName other ∧ other ≠ name := by
  simp only [HasName, List.mem_map, mem_remove]
  constructor
  · rintro ⟨agent, ⟨hmem, hne⟩, rfl⟩
    refine ⟨⟨agent, hmem, rfl⟩, fun hname => hne ?_⟩
    rw [r.names.eq hmem hagent hname]
  · rintro ⟨⟨agent, hmem, rfl⟩, hne⟩
    refine ⟨agent, ⟨hmem, fun hid => hne ?_⟩, rfl⟩
    rw [r.ids.eq hmem hagent hid]

theorem snd_mem_of_lookup {name : String} {entries : List (String × AgentId)}
    (hlookup : entries.lookup name = some agentId) : agentId ∈ entries.map Prod.snd := by
  obtain ⟨before, after, rfl, -⟩ := List.lookup_eq_some_iff.1 hlookup
  simp

/-- The fallback that is found is registered. -/
theorem has_of_fallback {h : Handle}
    (hfallback : (resolveFallbackAgent (r.handle h)).2.toOption = some agentId) :
    r.Has agentId := by
  unfold resolveFallbackAgent at hfallback
  cases hfirst : (r.handle h).listAgents.toOption.bind firstByName with
  | none =>
    rw [hfirst] at hfallback
    cases hfallback
  | some agent =>
    rw [hfirst] at hfallback
    obtain rfl : agent.1 = agentId := Option.some.inj hfallback
    have hmem : agent ∈ r.agents.map Prod.swap := by
      have hhead : firstByName (r.agents.map Prod.swap) = some agent := hfirst
      exact List.mem_mergeSort.1 (List.mem_of_head? hhead)
    obtain ⟨other, hother, rfl⟩ := List.mem_map.1 hmem
    exact List.mem_map_of_mem hother

end Running

/-! ### Runs -/

/-- The registry and the router, while the bridge runs. -/
structure Live where
  registry : Running
  /-- All agents that there have been.  An id is not used twice. -/
  issued : List (String × AgentId)
  router : AgentRouter
  /-- Is the default agent a fallback? -/
  cachedFallback : Bool := false

/-- What happens while the bridge runs.  An agent that a message spawns is spawned before it, and a
restart that is over the limit of the agent is a kill. -/
inductive LiveEvent
  | spawn (name : String) (agentId : AgentId)
  | kill (agentId : AgentId)
  | restart (agentId newId : AgentId)
  | message (h : Handle) (adapter : Adapter) (m : ChannelMessage) (limiter : RateLimiter) (now : ℕ)

namespace Live

/-- The state when the bridge has been started. -/
def started (r : Running) (h : Handle) (channels : ChannelsConfig) (bindings : List AgentBinding)
    (broadcastRoutes : List (String × List String)) : Live where
  registry := r
  issued := r.agents
  router := startRouter (r.handle h) r.agents channels bindings broadcastRoutes

/-- The name under which an agent is registered. -/
def nameOf (s : Live) (agentId : AgentId) : Option String :=
  (Table.lookup Prod.snd agentId s.registry.agents).map Prod.fst

/-- One event. -/
def step (s : Live) : LiveEvent → Live
  | .spawn name agentId =>
    if s.registry.HasName name ∨ agentId ∈ s.issued.map Prod.snd then s
    else { s with
      registry := s.registry.register (name, agentId)
      issued := s.issued ++ [(name, agentId)] }
  | .kill agentId => { s with registry := s.registry.remove agentId }
  | .restart agentId newId =>
    match s.nameOf agentId with
    | some name =>
      if newId ∈ s.issued.map Prod.snd then s
      else { s with
        registry := (s.registry.remove agentId).register (name, newId)
        issued := s.issued ++ [(name, newId)] }
    | none => s
  | .message h adapter m limiter now =>
    let router := routerAfter s.router
      (dispatchMessage (s.registry.handle h) s.router adapter m limiter now)
    { s with
      router := router
      cachedFallback := s.cachedFallback || router.defaultAgent ≠ s.router.defaultAgent }

/-- Is a text that goes to the agent to reach one that is registered?  It is if one of its name is,
and for the cached fallback if any agent is. -/
def Owed (s : Live) (m : ChannelMessage) (agentId : AgentId) : Prop :=
  (∃ name, (name, agentId) ∈ s.issued ∧ s.registry.HasName name) ∨
    s.cachedFallback = true ∧ Unrouted s.router m ∧ s.registry.agents ≠ []

/-- Every text goes to registered agents, as far as it is to. -/
def Fresh (s : Live) : Prop :=
  ∀ h m, ∀ agentId ∈ textTargets (s.registry.handle h) s.router m, s.Owed m agentId →
    s.registry.Has agentId

/-- What keeps the routes fresh: no agent is restarted that some text goes to, the cached fallback
is not killed while other agents are registered, and no agent is spawned under the name of one that
is gone and that some text goes to, nor any agent where the cached fallback is gone. -/
def KeepsFresh (s : Live) : LiveEvent → Prop
  | .spawn name agentId =>
    ¬ s.registry.HasName name → agentId ∉ s.issued.map Prod.snd →
      ∀ m, ∀ gone ∈ routerTargets s.router m, ¬ s.registry.Has gone →
        (name, gone) ∉ s.issued ∧ ¬ (s.cachedFallback = true ∧ Unrouted s.router m)
  | .kill agentId =>
    s.registry.Has agentId → ∀ m, agentId ∈ routerTargets s.router m →
      s.cachedFallback = true → Unrouted s.router m →
        ∀ agent ∈ s.registry.agents, agent.2 = agentId
  | .restart agentId newId =>
    s.registry.Has agentId → newId ∉ s.issued.map Prod.snd →
      ∀ m, agentId ∉ routerTargets s.router m
  | .message .. => True

/-- Ids are issued once, to registered agents among others, and the router has no other ids. -/
structure Issued (s : Live) : Prop where
  unique : Table.UniqueKeys Prod.snd s.issued
  registered : ∀ agent ∈ s.registry.agents, agent ∈ s.issued
  routes : ∀ m, ∀ agentId ∈ routerTargets s.router m, agentId ∈ s.issued.map Prod.snd

variable {s : Live} {m : ChannelMessage} {agentId newId : AgentId} {name : String}

/-- The fallback of a text is fresh by itself. -/
theorem fresh_iff : s.Fresh ↔ ∀ m, ∀ agentId ∈ routerTargets s.router m, s.Owed m agentId →
    s.registry.Has agentId := by
  constructor
  · intro hfresh m agentId hagent howed
    exact hfresh guarded m agentId (mem_textTargets.2 (Or.inl hagent)) howed
  · intro hfresh h m agentId hagent howed
    rcases mem_textTargets.1 hagent with hagent | ⟨-, -, hfallback⟩
    · exact hfresh m agentId hagent howed
    · exact Running.has_of_fallback hfallback

/-! ### The start -/

/-- Where a text goes, the router has an id. -/
theorem mem_ids_of_mem_routerTargets {router : AgentRouter}
    (hagent : agentId ∈ routerTargets router m) :
    agentId ∈ router.agentNameCache.map Prod.snd ∨ agentId ∈ router.directRoutes.map Prod.snd ∨
      agentId ∈ router.userDefaults.map Prod.snd ∨ router.defaultAgent = some agentId := by
  by_cases hbroadcast : isBroadcast router m
  · left
    rw [routerTargets, if_pos hbroadcast, broadcastTargets, AgentRouter.resolveBroadcast] at hagent
    simp only [List.filterMap_map, List.mem_map, List.mem_filterMap] at hagent
    obtain ⟨target, ⟨name, -, hname⟩, rfl⟩ := hagent
    obtain ⟨id, hid, rfl⟩ := Option.map_eq_some_iff.1 hname
    exact Running.snd_mem_of_lookup hid
  · rw [mem_routerTargets_of_not_broadcast hbroadcast, routed, AgentRouter.resolve_eq,
      AgentRouter.ownRoute_eq, AgentRouter.sharedRoute_eq] at hagent
    simp only [Option.or_eq_some_iff, Option.bind_eq_some_iff] at hagent
    rcases hagent with (hbinding | ⟨-, hdirect⟩) |
      ⟨-, ⟨key, -, huser⟩ | ⟨-, hplatform | ⟨-, hdefault⟩⟩⟩
    · obtain ⟨binding, -, hbinding⟩ := List.exists_of_findSome?_eq_some hbinding
      split at hbinding
      · exact Or.inl (Running.snd_mem_of_lookup hbinding)
      · cases hbinding
    · obtain ⟨before, after, hroutes, -⟩ := List.lookup_eq_some_iff.1 hdirect
      exact Or.inr (Or.inl (by simp [hroutes]))
    · exact Or.inr (Or.inr (Or.inl (Running.snd_mem_of_lookup huser)))
    · exact Or.inr (Or.inr (Or.inl (Running.snd_mem_of_lookup hplatform)))
    · exact Or.inr (Or.inr (Or.inr hdefault))

/-- The ids that a router has are those of registered agents. -/
structure Knows (r : Running) (router : AgentRouter) : Prop where
  cache : ∀ id ∈ router.agentNameCache.map Prod.snd, r.Has id
  direct : ∀ id ∈ router.directRoutes.map Prod.snd, r.Has id
  users : ∀ id ∈ router.userDefaults.map Prod.snd, r.Has id
  default : ∀ id, router.defaultAgent = some id → r.Has id

theorem Knows.has {r : Running} {router : AgentRouter} (h : Knows r router)
    (hagent : agentId ∈ routerTargets router m) : r.Has agentId := by
  rcases mem_ids_of_mem_routerTargets hagent with hcache | hdirect | huser | hdefault
  · exact h.cache agentId hcache
  · exact h.direct agentId hdirect
  · exact h.users agentId huser
  · exact h.default agentId hdefault

theorem knows_startRouter (r : Running) (h : Handle) (channels : ChannelsConfig)
    (bindings : List AgentBinding) (broadcastRoutes : List (String × List String)) :
    Knows r (startRouter (r.handle h) r.agents channels bindings broadcastRoutes) := by
  have hempty : Knows r {} := ⟨by simp, by simp, by simp, by simp⟩
  have hdefault : ∀ name, Knows r (resolveDefaultAgent (r.handle h) name {}) := by
    intro name
    unfold resolveDefaultAgent
    cases hid : r.idOf name with
    | none => simpa [Running.handle, hid] using hempty
    | some id =>
      have hset : Knows r (({} : AgentRouter).setDefault id) := by
        refine ⟨by simp [AgentRouter.setDefault], by simp [AgentRouter.setDefault],
          by simp [AgentRouter.setDefault], fun other hother => ?_⟩
        rw [← Option.some.inj hother]
        exact Running.snd_mem_of_lookup hid
      simpa [Running.handle, hid] using hset
  have hbound : ∀ router, Knows r router → Knows r (if bindings.isEmpty then router
      else { router with agentNameCache := r.agents }.loadBindings bindings) := by
    intro router hknows
    split
    · exact hknows
    · exact ⟨fun _ hid => hid, hknows.direct, hknows.users, hknows.default⟩
  unfold startRouter
  cases channels.firstDefault with
  | none =>
    have hstarted := hbound _ hempty
    exact ⟨hstarted.cache, hstarted.direct, hstarted.users, hstarted.default⟩
  | some name =>
    have hstarted := hbound _ (hdefault name)
    exact ⟨hstarted.cache, hstarted.direct, hstarted.users, hstarted.default⟩

theorem issued_started (r : Running) (h : Handle) (channels : ChannelsConfig)
    (bindings : List AgentBinding) (broadcastRoutes : List (String × List String)) :
    (started r h channels bindings broadcastRoutes).Issued where
  unique := r.ids
  registered _ hagent := hagent
  routes _ _ hagent := (knows_startRouter r h channels bindings broadcastRoutes).has hagent

theorem fresh_started (r : Running) (h : Handle) (channels : ChannelsConfig)
    (bindings : List AgentBinding) (broadcastRoutes : List (String × List String)) :
    (started r h channels bindings broadcastRoutes).Fresh :=
  fresh_iff.2 fun _ _ hagent _ =>
    (knows_startRouter r h channels bindings broadcastRoutes).has hagent

/-! ### One event -/

theorem Issued.not_has (h : s.Issued) (hfresh : agentId ∉ s.issued.map Prod.snd) :
    ¬ s.registry.Has agentId := by
  intro hhas
  obtain ⟨agent, hagent, rfl⟩ := List.mem_map.1 hhas
  exact hfresh (List.mem_map_of_mem (h.registered agent hagent))

theorem Issued.issue (h : s.Issued) {agent : String × AgentId}
    (hfresh : agent.2 ∉ s.issued.map Prod.snd) :
    Table.UniqueKeys Prod.snd (s.issued ++ [agent]) := by
  rw [← Table.upsert_of_not_mem hfresh]
  exact h.unique.upsert

/-- A registered id and a registered name that have been issued together are one agent's. -/
theorem Issued.agent_eq (h : s.Issued) {agent : String × AgentId} (hhas : s.registry.Has agentId)
    (hagent : agent ∈ s.registry.agents) (hissued : (agent.1, agentId) ∈ s.issued) :
    agentId = agent.2 := by
  obtain ⟨other, hother, rfl⟩ := List.mem_map.1 hhas
  have hsame : other = (agent.1, other.2) := h.unique.eq (h.registered other hother) hissued rfl
  have hname := congrArg Prod.fst hsame
  rw [s.registry.names.eq hother hagent hname]

theorem fresh_spawn_iff (h : s.Issued) (hfresh : s.Fresh) (hname : ¬ s.registry.HasName name)
    (hid : agentId ∉ s.issued.map Prod.snd) :
    Fresh { s with
      registry := s.registry.register (name, agentId)
      issued := s.issued ++ [(name, agentId)] } ↔
    ∀ m, ∀ gone ∈ routerTargets s.router m, ¬ s.registry.Has gone →
      (name, gone) ∉ s.issued ∧ ¬ (s.cachedFallback = true ∧ Unrouted s.router m) := by
  have hnew : ¬ s.registry.Has agentId := h.not_has hid
  have hhas : ∀ other, (s.registry.register (name, agentId)).Has other ↔
      s.registry.Has other ∨ other = agentId := fun other => Running.has_register hname hnew
  have hnames : ∀ other, (s.registry.register (name, agentId)).HasName other ↔
      s.registry.HasName other ∨ other = name := fun other => Running.hasName_register hname hnew
  rw [fresh_iff] at hfresh ⊢
  constructor
  · intro hspawned m gone hgone hnot
    -- the new agent is none that the router knows of
    have hgoneIssued : gone ∈ s.issued.map Prod.snd := h.routes m gone hgone
    have hdead : ¬ (s.registry.register (name, agentId)).Has gone := by
      rw [hhas]
      rintro (hhas' | rfl)
      · exact hnot hhas'
      · exact hid hgoneIssued
    refine ⟨fun hissued => hdead (hspawned m gone hgone (Or.inl ⟨name, ?_, ?_⟩)),
      fun hcached => hdead (hspawned m gone hgone (Or.inr ⟨hcached.1, hcached.2, ?_⟩))⟩
    · exact List.mem_append_left _ hissued
    · exact (hnames name).2 (Or.inr rfl)
    · obtain ⟨agent, hagent, -⟩ := List.mem_map.1 ((hnames name).2 (Or.inr rfl))
      exact List.ne_nil_of_mem hagent
  · intro hkeeps m old hold howed
    rw [hhas]
    by_contra hnot
    rw [not_or] at hnot
    obtain ⟨hnotNamed, hnotCached⟩ := hkeeps m old hold hnot.1
    rcases howed with ⟨other, hissued, hother⟩ | ⟨hcached, hunrouted, -⟩
    · rcases List.mem_append.1 hissued with hbefore | hnow
      · rcases (hnames other).1 hother with hregistered | hname'
        · exact hnot.1 (hfresh m old hold (Or.inl ⟨other, hbefore, hregistered⟩))
        · exact hnotNamed (hname' ▸ hbefore)
      · exact hnot.2 (congrArg Prod.snd (List.mem_singleton.1 hnow))
    · exact hnotCached ⟨hcached, hunrouted⟩

theorem fresh_kill_iff (h : s.Issued) (hfresh : s.Fresh) :
    Fresh { s with registry := s.registry.remove agentId } ↔
      (s.registry.Has agentId → ∀ m, agentId ∈ routerTargets s.router m →
        s.cachedFallback = true → Unrouted s.router m →
          ∀ agent ∈ s.registry.agents, agent.2 = agentId) := by
  rw [fresh_iff] at hfresh ⊢
  constructor
  · intro hkilled _ m hagent hcached hunrouted agent hmem
    by_contra hne
    have hleft : (s.registry.remove agentId).agents ≠ [] :=
      List.ne_nil_of_mem (Running.mem_remove.2 ⟨hmem, hne⟩)
    have := hkilled m agentId hagent (Or.inr ⟨hcached, hunrouted, hleft⟩)
    exact (Running.has_remove.1 this).2 rfl
  · intro hkeeps m old hold howed
    change (s.registry.remove agentId).Has old
    rw [Running.has_remove]
    rcases howed with ⟨name, hissued, hname⟩ | ⟨hcached, hunrouted, hleft⟩
    · obtain ⟨agent, hleft, rfl⟩ := List.mem_map.1 hname
      obtain ⟨hagent, hne⟩ := Running.mem_remove.1 hleft
      have hhas : s.registry.Has old :=
        hfresh m old hold (Or.inl ⟨agent.1, hissued, List.mem_map_of_mem hagent⟩)
      refine ⟨hhas, fun hkilled => hne ?_⟩
      rw [← hkilled, h.agent_eq hhas hagent hissued]
    · obtain ⟨agent, hagent⟩ := List.exists_mem_of_ne_nil _ hleft
      obtain ⟨hother, hne⟩ := Running.mem_remove.1 hagent
      have hhas : s.registry.Has old :=
        hfresh m old hold (Or.inr ⟨hcached, hunrouted, List.ne_nil_of_mem hother⟩)
      refine ⟨hhas, fun hkilled => hne ?_⟩
      rw [hkilled] at hhas hold
      exact hkeeps hhas m hold hcached hunrouted agent hother

theorem fresh_restart_iff (h : s.Issued) (hfresh : s.Fresh) (hagent : (name, agentId) ∈
    s.registry.agents) (hid : newId ∉ s.issued.map Prod.snd) :
    Fresh { s with
      registry := (s.registry.remove agentId).register (name, newId)
      issued := s.issued ++ [(name, newId)] } ↔ ∀ m, agentId ∉ routerTargets s.router m := by
  have hfree : ¬ (s.registry.remove agentId).HasName name := fun hname =>
    ((Running.hasName_remove hagent).1 hname).2 rfl
  have hnew : ¬ (s.registry.remove agentId).Has newId := fun hhas =>
    h.not_has hid (Running.has_remove.1 hhas).1
  have hhas : ∀ other, ((s.registry.remove agentId).register (name, newId)).Has other ↔
      s.registry.Has other ∧ other ≠ agentId ∨ other = newId := fun other => by
    rw [Running.has_register hfree hnew, Running.has_remove]
  have hnames : ∀ other, ((s.registry.remove agentId).register (name, newId)).HasName other ↔
      s.registry.HasName other ∧ other ≠ name ∨ other = name := fun other => by
    rw [Running.hasName_register hfree hnew, Running.hasName_remove hagent]
  have hissued : (name, agentId) ∈ s.issued := h.registered _ hagent
  rw [fresh_iff] at hfresh ⊢
  constructor
  · intro hrestarted m hold
    -- the name is registered again, the old id is not
    have hlive := (hhas agentId).1 (hrestarted m agentId hold
      (Or.inl ⟨name, List.mem_append_left _ hissued, (hnames name).2 (Or.inr rfl)⟩))
    rcases hlive with ⟨-, hne⟩ | hsame
    · exact hne rfl
    · exact hid (hsame ▸ List.mem_map_of_mem hissued)
  · intro hkeeps m old hold howed
    have hne : old ≠ agentId := fun hsame => hkeeps m (hsame ▸ hold)
    have hnamed : s.registry.HasName name := List.mem_map_of_mem hagent
    refine (hhas old).2 ?_
    rcases howed with ⟨other, hissued', hother⟩ | ⟨hcached, hunrouted, -⟩
    · rcases List.mem_append.1 hissued' with hbefore | hnow
      · left
        refine ⟨hfresh m old hold (Or.inl ⟨other, hbefore, ?_⟩), hne⟩
        rcases (hnames other).1 hother with ⟨hregistered, -⟩ | hname
        · exact hregistered
        · exact hname ▸ hnamed
      · exact Or.inr (congrArg Prod.snd (List.mem_singleton.1 hnow))
    · exact Or.inl ⟨hfresh m old hold (Or.inr ⟨hcached, hunrouted, List.ne_nil_of_mem hagent⟩),
        hne⟩

/-- An agent that a sender has chosen is registered. -/
theorem has_of_selects {h : Handle} {agentName : String}
    (hselects : Selects (s.registry.handle h) agentName agentId) : s.registry.Has agentId := by
  rcases hselects with hfind | ⟨-, hspawn⟩
  · exact Running.snd_mem_of_lookup (Except.ok.inj hfind)
  · cases hspawn

/-- The router behind a message leads to registered agents, and where it has led before. -/
theorem mem_routerTargets_change {h : Handle} {router : AgentRouter} {m' : ChannelMessage}
    (hchange : RouterChange (s.registry.handle h) s.router m router)
    (hagent : agentId ∈ routerTargets router m') :
    s.registry.Has agentId ∨ agentId ∈ routerTargets s.router m' := by
  cases hchange with
  | same => exact Or.inr hagent
  | selected hselects =>
    rcases mem_routerTargets_setUserDefault hagent with rfl | hagent
    · exact Or.inl (has_of_selects hselects)
    · exact Or.inr hagent
  | fallback _ _ hfallback =>
    rcases mem_routerTargets_setDefault hagent with rfl | hagent
    · exact Or.inl (Running.has_of_fallback (by rw [hfallback]; rfl))
    · exact Or.inr hagent

/-- A text that the cached fallback gets behind a message, it has got before, or it is the fallback
that the message has found. -/
theorem cached_of_change {h : Handle} {router : AgentRouter} {m' : ChannelMessage}
    (hchange : RouterChange (s.registry.handle h) s.router m router)
    (hagent : agentId ∈ routerTargets router m') (hunrouted : Unrouted router m')
    (hcached : (s.cachedFallback || decide (router.defaultAgent ≠ s.router.defaultAgent)) = true) :
    s.registry.Has agentId ∨ s.cachedFallback = true ∧ Unrouted s.router m' := by
  cases hchange with
  | same => exact Or.inr ⟨by simpa using hcached, hunrouted⟩
  | selected hselects =>
    exact Or.inr ⟨by simpa [AgentRouter.setUserDefault] using hcached, hunrouted.of_setUserDefault⟩
  | fallback _ _ hfallback =>
    rw [mem_routerTargets_of_not_broadcast hunrouted.1, routed_of_unrouted hunrouted] at hagent
    rw [← Option.some.inj hagent]
    exact Or.inl (Running.has_of_fallback (by rw [hfallback]; rfl))

theorem fresh_message (hfresh : s.Fresh) (h : Handle) (adapter : Adapter) (limiter : RateLimiter)
    (now : ℕ) : (s.step (.message h adapter m limiter now)).Fresh := by
  have hchange := @routerAfter_dispatchMessage (s.registry.handle h) s.router adapter m limiter now
  rw [fresh_iff] at hfresh ⊢
  simp only [step]
  generalize routerAfter s.router (dispatchMessage (s.registry.handle h) s.router adapter m limiter
    now) = router at hchange
  intro m' old hold howed
  rcases mem_routerTargets_change hchange hold with hhas | hbefore
  · exact hhas
  · rcases howed with hnamed | ⟨hcached, hunrouted, hregistered⟩
    · exact hfresh m' old hbefore (Or.inl hnamed)
    · rcases cached_of_change hchange hold hunrouted hcached with hhas | ⟨hcached, hunrouted⟩
      · exact hhas
      · exact hfresh m' old hbefore (Or.inr ⟨hcached, hunrouted, hregistered⟩)

theorem exists_of_nameOf (hname : s.nameOf agentId = some name) :
    (name, agentId) ∈ s.registry.agents := by
  obtain ⟨agent, hagent, rfl⟩ := Option.map_eq_some_iff.1 hname
  obtain ⟨hmem, rfl⟩ := Table.mem_of_lookup hagent
  exact hmem

theorem not_has_of_nameOf (hname : s.nameOf agentId = none) : ¬ s.registry.Has agentId :=
  Table.lookup_eq_none_iff.1 (Option.map_eq_none_iff.1 hname)

/-- An agent registered under a new id is issued. -/
theorem Issued.register (h : s.Issued) {registry : Running} {agent : String × AgentId}
    (hid : agent.2 ∉ s.issued.map Prod.snd)
    (hregistry : ∀ other ∈ registry.agents, other ∈ s.registry.agents) :
    Issued { s with registry := registry.register agent, issued := s.issued ++ [agent] } where
  unique := h.issue hid
  registered other hother := by
    rcases Running.mem_of_mem_register hother with hbefore | rfl
    · exact List.mem_append_left _ (h.registered other (hregistry other hbefore))
    · exact List.mem_append_right _ (List.mem_singleton.2 rfl)
  routes m agentId hagent := by
    rw [List.map_append]
    exact List.mem_append_left _ (h.routes m agentId hagent)

theorem Issued.step (h : s.Issued) (e : LiveEvent) : (s.step e).Issued := by
  cases e with
  | spawn name agentId =>
    simp only [Live.step]
    split
    · exact h
    · rename_i hfree
      exact h.register (not_or.1 hfree).2 fun _ hother => hother
  | kill agentId =>
    exact ⟨h.unique, fun other hother => h.registered other (Running.mem_remove.1 hother).1,
      h.routes⟩
  | restart agentId newId =>
    simp only [Live.step]
    split
    · split
      · exact h
      · rename_i hid
        exact h.register hid fun _ hother => (Running.mem_remove.1 hother).1
    · exact h
  | message k adapter m limiter now =>
    refine ⟨h.unique, h.registered, fun m' old hold => ?_⟩
    rcases mem_routerTargets_change
      (@routerAfter_dispatchMessage (s.registry.handle k) s.router adapter m limiter now) hold with
      hhas | hbefore
    · obtain ⟨agent, hagent, rfl⟩ := List.mem_map.1 hhas
      exact List.mem_map_of_mem (h.registered agent hagent)
    · exact h.routes m' old hbefore

theorem fresh_step_iff (h : s.Issued) (hfresh : s.Fresh) (e : LiveEvent) :
    (s.step e).Fresh ↔ s.KeepsFresh e := by
  cases e with
  | spawn name agentId =>
    simp only [Live.step, KeepsFresh]
    split
    · rename_i htaken
      refine iff_of_true hfresh fun hname hid => ?_
      exact absurd htaken (not_or.2 ⟨hname, hid⟩)
    · rename_i hfree
      obtain ⟨hname, hid⟩ := not_or.1 hfree
      rw [fresh_spawn_iff h hfresh hname hid]
      exact ⟨fun hkeeps _ _ => hkeeps, fun hkeeps => hkeeps hname hid⟩
  | kill agentId => exact fresh_kill_iff h hfresh
  | restart agentId newId =>
    simp only [Live.step, KeepsFresh]
    cases hname : s.nameOf agentId with
    | none => exact iff_of_true hfresh fun hhas => absurd hhas (not_has_of_nameOf hname)
    | some name =>
      have hagent := exists_of_nameOf hname
      dsimp only
      split
      · rename_i hid
        exact iff_of_true hfresh fun _ hfree => absurd hid hfree
      · rename_i hid
        rw [fresh_restart_iff h hfresh hagent hid]
        exact ⟨fun hkeeps _ _ => hkeeps, fun hkeeps => hkeeps (List.mem_map_of_mem hagent) hid⟩
  | message k adapter m limiter now =>
    exact iff_of_true (fresh_message hfresh k adapter limiter now) trivial

/-- No route of the bridge ever is stale, if and only if every event of its run keeps the routes
fresh. -/
theorem fresh_iff_keepsFresh (r : Running) (h : Handle) (channels : ChannelsConfig)
    (bindings : List AgentBinding) (broadcastRoutes : List (String × List String))
    (events : List LiveEvent) :
    (∀ k, (Runs.run step (started r h channels bindings broadcastRoutes) (events.take k)).Fresh) ↔
      Runs.Along step KeepsFresh (started r h channels bindings broadcastRoutes) events :=
  Runs.forall_take_iff_along (I := fun s => s.Issued ∧ s.Fresh)
    ⟨issued_started r h channels bindings broadcastRoutes,
      fresh_started r h channels bindings broadcastRoutes⟩
    (fun _ hs => hs.2)
    (fun _ e hs hkeeps => ⟨hs.1.step e, (fresh_step_iff hs.1 hs.2 e).2 hkeeps⟩)
    (fun _ e hs hfresh => (fresh_step_iff hs.1 hs.2 e).1 hfresh)

/-- The default agent is restarted, and messages go to the id that it had before. -/
theorem not_fresh_restart : ¬ ∀ (r : Running) (h : Handle) (channels : ChannelsConfig)
    (bindings : List AgentBinding) (broadcastRoutes : List (String × List String))
    (events : List LiveEvent) (k : ℕ),
    (Runs.run step (started r h channels bindings broadcastRoutes) (events.take k)).Fresh := by
  intro hall
  have hfresh := hall ⟨[("assistant", 0)], by simp [Table.UniqueKeys], by simp [Table.UniqueKeys]⟩
    guarded { telegram := some { tokens := true, defaultAgent := some "assistant" } } [] []
    [.restart 0 1] 1 guarded
    { channel := .telegram, platformMessageId := "1", content := .text "hi", isGroup := false
      sender := { platformId := "7", displayName := "Ann" } } 0 (by decide)
    (Or.inl ⟨"assistant", by decide, by decide⟩)
  exact absurd hfresh (by decide)

end Live

end Bridge
end RustyHand
