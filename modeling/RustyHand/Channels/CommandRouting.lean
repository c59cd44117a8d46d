import RustyHand.Channels.Targets

/-!
# The commands of a chat, and its texts

`handle_command` looks the agent of `/new`, `/compact`, `/model`, `/stop`, `/usage` and `/think` up
as if the sender were on the CLI, and `/agent` sets the sender's default; a text goes to a broadcast
first, then to what its own channel has, and to the defaults last.

* `Follows`: the next text goes to the agents that the command is about;
* `Agrees`: what is in the router, and in front of the defaults, does not come between them;
* `follows_iff_agrees`.
-/

namespace RustyHand
namespace Bridge

variable (h : Handle) (router : AgentRouter) (m : ChannelMessage)

/-- The commands on the agent that the chat talks to. -/
def currentAgentCommands : List String := ["new", "compact", "model", "stop", "usage", "think"]

/-- A sender gives a command, and then sends the text `m` on the same channel, which is handled with
the answers `h'`. -/
def Follows (h' : Handle) (name : String) (args : List String) : Prop :=
  let events := (handleCommand h router m.sender name args).1
  (name ∈ currentAgentCommands → ∀ agentId,
    (∃ op, .onAgent agentId op ∈ calls events) ↔
      agentId ∈ textTargets h' (routerAfter router events) m) ∧
  (name = "agent" → ∀ agentName ∈ args.head?, ∀ agentId, Selects h agentName agentId →
    ∀ other, other ∈ textTargets h' (routerAfter router events) m ↔ other = agentId)

/-- The agents that the names of a broadcast route stand for. -/
def Named (agentId : AgentId) : Prop :=
  ∃ names, router.broadcastRoutes.lookup m.sender.platformId = some names ∧
    ∃ name ∈ names, router.agentNameCache.lookup name = some agentId

/-- What the CLI has in front of the defaults is what the channel has, or it has nothing and the
default is the same.  For a channel that has nothing, it is the default, and without one the
fallback. -/
def SameRoute (h' : Handle) : Prop :=
  let cli := router.ownRoute .cli m.sender.platformId
  let own := router.ownRoute m.channel m.sender.platformId
  let shared := router.sharedRoute m.sender.platformId m.sender.rustyHandUser
  match own, shared with
  | some agentId, _ => cli = some agentId ∨ cli = none ∧ shared = some agentId
  | none, some agentId => cli = none ∨ cli = some agentId
  | none, none => cli = (resolveFallbackAgent h').2.toOption

/-- A broadcast goes to the agent of the CLI's routes and the defaults alone. -/
def BroadcastsCurrent : Prop :=
  let cli := router.ownRoute .cli m.sender.platformId
  let shared := router.sharedRoute m.sender.platformId m.sender.rustyHandUser
  ∀ agentId, Named router m agentId ↔ cli = some agentId ∨ cli = none ∧ shared = some agentId

/-- Nothing that goes before the default of the sender's id leads to another agent. -/
def Unshadowed (agentId : AgentId) : Prop :=
  (∀ other, router.ownRoute m.channel m.sender.platformId = some other → other = agentId) ∧
    (router.ownRoute m.channel m.sender.platformId = none →
      ∀ key ∈ m.sender.rustyHandUser, key ≠ m.sender.platformId →
        ∀ other, router.userDefaults.lookup key = some other → other = agentId)

/-- What the router has does not come between the command and the text. -/
def Agrees (h' : Handle) (name : String) (args : List String) : Prop :=
  (name ∈ currentAgentCommands →
    if isBroadcast router m then BroadcastsCurrent router m else SameRoute router m h') ∧
  (name = "agent" → ∀ agentName ∈ args.head?, ∀ agentId, Selects h agentName agentId →
    if isBroadcast router m then ∀ other, Named router m other ↔ other = agentId
    else Unshadowed router m agentId)

variable {h router m} {h' : Handle} {agentId agent : AgentId} {name : String} {args : List String}

theorem mem_broadcastTargets :
    agentId ∈ (broadcastTargets router m).map Prod.snd ↔ Named router m agentId := by
  unfold broadcastTargets Named AgentRouter.resolveBroadcast
  cases router.broadcastRoutes.lookup m.sender.platformId with
  | none => simp
  | some names => simp

/-! ### The current agent -/

/-- The commands on the current agent are calls on what the router has for the CLI. -/
theorem exists_onCurrentAgent (hname : name ∈ currentAgentCommands) :
    ∃ op, handleCommand h router m.sender name args = onCurrentAgent h router m.sender op := by
  simp only [currentAgentCommands, List.mem_cons, List.not_mem_nil, or_false] at hname
  rcases hname with rfl | rfl | rfl | rfl | rfl | rfl <;> exact ⟨_, rfl⟩

theorem onAgent_mem_calls {op : AgentOp} :
    (∃ op', .onAgent agentId op' ∈ calls (onCurrentAgent h router m.sender op).1) ↔
      currentAgent router m = some agentId := by
  unfold onCurrentAgent currentAgent
  cases router.resolve .cli m.sender.platformId m.sender.rustyHandUser with
  | none => simp
  | some aid => simp [eq_comm]

theorem routerAfter_onCurrentAgent {op : AgentOp} :
    routerAfter router (onCurrentAgent h router m.sender op).1 = router := by
  unfold onCurrentAgent
  split <;> rfl

theorem mem_textTargets_of_not_broadcast (hbroadcast : ¬ isBroadcast router m) :
    agentId ∈ textTargets h' router m ↔
      (routed router m).or (resolveFallbackAgent h').2.toOption = some agentId := by
  unfold textTargets
  rw [if_neg hbroadcast]
  cases routed router m with
  | some agent => simp [eq_comm]
  | none => simp [Option.mem_toList]

theorem mem_textTargets_of_broadcast (hbroadcast : isBroadcast router m) :
    agentId ∈ textTargets h' router m ↔ Named router m agentId := by
  unfold textTargets
  rw [if_pos hbroadcast, mem_broadcastTargets]

/-- Both go through the same defaults. -/
theorem or_eq_or_iff {cli own shared fallback : Option AgentId} :
    cli.or shared = (own.or shared).or fallback ↔
      match own, shared with
      | some agentId, _ => cli = some agentId ∨ cli = none ∧ shared = some agentId
      | none, some agentId => cli = none ∨ cli = some agentId
      | none, none => cli = fallback := by
  cases own with
  | some agent => simp [Option.or_eq_some_iff]
  | none =>
    cases shared with
    | some agent => cases cli <;> simp
    | none => simp

theorem sameRoute_iff (hbroadcast : ¬ isBroadcast router m) :
    (∀ agentId, currentAgent router m = some agentId ↔ agentId ∈ textTargets h' router m) ↔
      SameRoute router m h' := by
  simp only [mem_textTargets_of_not_broadcast hbroadcast, ← Option.ext_iff, currentAgent,
    AgentRouter.resolve_eq, routed]
  exact or_eq_or_iff

theorem broadcastsCurrent_iff (hbroadcast : isBroadcast router m) :
    (∀ agentId, currentAgent router m = some agentId ↔ agentId ∈ textTargets h' router m) ↔
      BroadcastsCurrent router m := by
  refine forall_congr' fun agentId => ?_
  rw [mem_textTargets_of_broadcast hbroadcast, currentAgent, AgentRouter.resolve_eq,
    Option.or_eq_some_iff]
  exact Iff.comm

/-! ### The selected agent -/

/-- Success is reported with the default of the sender's id set, and nothing else in the router. -/
theorem routerAfter_selectAgent {agentName : String} (hselects : Selects h agentName agentId) :
    routerAfter router (selectAgent h m.sender agentName).1 =
      router.setUserDefault m.sender.platformId agentId := by
  unfold selectAgent
  rcases hselects with hfind | ⟨hfind, hspawn⟩
  · rw [hfind]
    rfl
  · rw [hfind, hspawn]
    rfl

theorem named_setUserDefault (key : String) :
    Named (router.setUserDefault key agentId) m agent ↔ Named router m agent := Iff.rfl

theorem unshadowed_iff (hbroadcast : ¬ isBroadcast router m) :
    (∀ other, other ∈ textTargets h' (router.setUserDefault m.sender.platformId agentId) m ↔
        other = agentId) ↔ Unshadowed router m agentId := by
  have hset : ¬ isBroadcast (router.setUserDefault m.sender.platformId agentId) m := hbroadcast
  simp only [mem_textTargets_of_not_broadcast hset, routed, AgentRouter.resolve_eq,
    AgentRouter.ownRoute_setUserDefault, AgentRouter.sharedRoute,
    AgentRouter.lookup_setUserDefault, Unshadowed]
  generalize router.ownRoute m.channel m.sender.platformId = own
  cases own with
  | some agent => simp [eq_comm]
  | none =>
    cases m.sender.rustyHandUser with
    | none => simp [eq_comm]
    | some key =>
      by_cases hkey : key = m.sender.platformId
      · simp [hkey, eq_comm]
      · cases hdefault : router.userDefaults.lookup key with
        | none => simp [hkey, hdefault, eq_comm]
        | some agent => simp [hkey, hdefault, eq_comm]

/-! ### Both -/

theorem follows_current_iff (hname : name ∈ currentAgentCommands) :
    (∀ agentId, (∃ op, .onAgent agentId op ∈ calls (handleCommand h router m.sender name args).1) ↔
        agentId ∈ textTargets h' (routerAfter router
          (handleCommand h router m.sender name args).1) m) ↔
      if isBroadcast router m then BroadcastsCurrent router m else SameRoute router m h' := by
  obtain ⟨op, hop⟩ : ∃ op, handleCommand h router m.sender name args =
      onCurrentAgent h router m.sender op := exists_onCurrentAgent hname
  simp only [hop, onAgent_mem_calls, routerAfter_onCurrentAgent]
  by_cases hbroadcast : isBroadcast router m
  · rw [if_pos hbroadcast]
    exact broadcastsCurrent_iff hbroadcast
  · rw [if_neg hbroadcast]
    exact sameRoute_iff hbroadcast

theorem follows_selected_iff {agentName : String} (hargs : agentName ∈ args.head?)
    (hselects : Selects h agentName agentId) :
    (∀ other, other ∈ textTargets h' (routerAfter router
          (handleCommand h router m.sender "agent" args).1) m ↔ other = agentId) ↔
      if isBroadcast router m then ∀ other, Named router m other ↔ other = agentId
      else Unshadowed router m agentId := by
  cases args with
  | nil => cases hargs
  | cons first rest =>
    obtain rfl : first = agentName := Option.some.inj hargs
    have hafter : routerAfter router (handleCommand h router m.sender "agent" (first :: rest)).1 =
        router.setUserDefault m.sender.platformId agentId := routerAfter_selectAgent hselects
    rw [hafter]
    by_cases hbroadcast : isBroadcast router m
    · have hset : isBroadcast (router.setUserDefault m.sender.platformId agentId) m := hbroadcast
      rw [if_pos hbroadcast]
      refine forall_congr' fun other => ?_
      rw [mem_textTargets_of_broadcast hset, named_setUserDefault]
    · rw [if_neg hbroadcast]
      exact unshadowed_iff hbroadcast

/-- The next text goes to the agents that a command is about, if and only if nothing that the router
has for the CLI, the channel or the sender comes between them. -/
theorem follows_iff_agrees : Follows h router m h' name args ↔ Agrees h router m h' name args := by
  refine and_congr (imp_congr_right fun hname => follows_current_iff hname)
    (imp_congr_right fun hname => ?_)
  subst hname
  exact forall₂_congr fun agentName hargs => forall₂_congr fun agentId hselects =>
    follows_selected_iff hargs hselects

/-- A chat on Telegram, bound to an agent of its own. -/
def boundChat : AgentRouter where
  defaultAgent := some 0
  bindings := [{ agent := "helper", matchRule := { channel := some "telegram" } }]
  agentNameCache := [("helper", 1)]

/-- The `/new` of a chat that is bound to an agent resets the session of the default agent. -/
theorem boundChat_not_follows :
    ¬ ∀ (h h' : Handle) (router : AgentRouter) (m : ChannelMessage) (name : String)
      (args : List String), Follows h router m h' name args := by
  intro hall
  have hnew := (hall guarded guarded boundChat
    { channel := .telegram, platformMessageId := "1", content := .text "hi", isGroup := false
      sender := { platformId := "7", displayName := "Ann" } } "new" []).1 (by decide) 0
  exact absurd (hnew.1 ⟨.resetSession, List.mem_singleton.2 rfl⟩) (by decide)

end Bridge
end RustyHand
