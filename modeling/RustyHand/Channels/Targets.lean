import RustyHand.Channels.Mediation

/-!
# Where a text goes

The agents to which a dispatch takes a text that is no command, and what a dispatch leaves in the
router.

* `textTargets`, `mem_textTargets_iff`: the agents, as they are called;
* `Aside`: what a dispatch does before a text goes anywhere, and instead of it;
* `routerAfter`, `routerAfter_dispatchMessage`: the router behind the events of a dispatch.
-/

namespace RustyHand
namespace Bridge

variable (h : Handle) (router : AgentRouter) (adapter : Adapter) (m : ChannelMessage)

/-- The agents of a text: those of a broadcast, the one of the router, or the fallback. -/
def textTargets : List AgentId :=
  if isBroadcast router m then (broadcastTargets router m).map Prod.snd
  else
    match routed router m with
    | some agentId => [agentId]
    | none => (resolveFallbackAgent h).2.toOption.toList

/-- The agents of a text that the router knows. -/
def routerTargets : List AgentId :=
  if isBroadcast router m then (broadcastTargets router m).map Prod.snd
  else (routed router m).toList

/-- Nothing concerns a message: no broadcast, no binding, no direct route and no default of its
user. -/
def Unrouted : Prop :=
  ¬ isBroadcast router m ∧ router.ownRoute m.channel m.sender.platformId = none ∧
    m.sender.rustyHandUser.bind (router.userDefaults.lookup ·) = none ∧
    router.userDefaults.lookup m.sender.platformId = none

/-- The agent of a name is found or spawned, and `/agent` reports success. -/
def Selects (agentName : String) (agentId : AgentId) : Prop :=
  h.findAgentByName agentName = .ok (some agentId) ∨
    h.findAgentByName agentName = .ok none ∧ h.spawnAgentByName agentName = .ok agentId

/-- What an event changes in the router. -/
def routerStep (router : AgentRouter) : Event → AgentRouter
  | .userDefault key agentId => router.setUserDefault key agentId
  | .defaultAgent agentId => router.setDefault agentId
  | _ => router

/-- The router when a dispatch has come to its end. -/
def routerAfter (events : List Event) : AgentRouter := events.foldl routerStep router

@[simp] theorem routerAfter_cons (e : Event) (events : List Event) :
    routerAfter router (e :: events) = routerAfter (routerStep router e) events := rfl

/-! ### What comes of events -/

/-- The agent to which a call takes a text. -/
def KernelOp.target : KernelOp → Option AgentId
  | .checkAutoReply agentId _ => some agentId
  | .sendMessage agentId _ => some agentId
  | _ => none

/-- The agents to which some events take a text. -/
def targets (events : List Event) : List AgentId := (calls events).filterMap KernelOp.target

@[simp] theorem targets_nil : targets [] = [] := rfl

@[simp] theorem targets_append (a b : List Event) : targets (a ++ b) = targets a ++ targets b := by
  simp [targets]

@[simp] theorem targets_cons_call (op : KernelOp) (events : List Event) :
    targets (.call op :: events) = op.target.toList ++ targets events := by
  cases hop : op.target <;> simp [targets, hop]

@[simp] theorem targets_cons_respond (text : String) (replyTo : Option String)
    (events : List Event) : targets (respond h m text replyTo :: events) = targets events := rfl

/-- Does an event change the router? -/
def Event.changesRouter : Event → Bool
  | .userDefault .. => true
  | .defaultAgent _ => true
  | _ => false

/-- The events that change the router. -/
def changes (events : List Event) : List Event := events.filter Event.changesRouter

@[simp] theorem changes_nil : changes [] = [] := rfl

@[simp] theorem changes_append (a b : List Event) : changes (a ++ b) = changes a ++ changes b :=
  List.filter_append ..

@[simp] theorem changes_cons_call (op : KernelOp) (events : List Event) :
    changes (.call op :: events) = changes events := rfl

@[simp] theorem changes_cons_respond (reply : String) (replyTo : Option String)
    (events : List Event) : changes (respond h m reply replyTo :: events) = changes events := rfl

variable {h router adapter m} {text : String} {agentId agent : AgentId}

/-! ### Beside a text -/

/-- Does an event neither take a text to an agent nor change the router? -/
def Event.isAside : Event → Bool
  | .call op => op.target.isNone
  | .userDefault .. => false
  | .defaultAgent _ => false
  | _ => true

/-- No text is taken to an agent, and the router is not changed. -/
def Aside (events : List Event) : Prop := events.all Event.isAside = true

theorem Aside.targets {events : List Event} (haside : Aside events) : targets events = [] := by
  rw [Bridge.targets, List.filterMap_eq_nil_iff]
  intro op hop
  obtain ⟨e, he, hcall⟩ := List.mem_filterMap.1 hop
  have hnone := List.all_eq_true.1 haside e he
  cases e with
  | call op' =>
    obtain rfl : op' = op := Option.some.inj hcall
    exact Option.isNone_iff_eq_none.1 hnone
  | _ => cases hcall

theorem Aside.changes {events : List Event} (haside : Aside events) : changes events = [] := by
  rw [Bridge.changes, List.filter_eq_nil_iff]
  intro e he
  have haside := List.all_eq_true.1 haside e he
  cases e <;> first | exact Bool.false_ne_true | cases haside

theorem Aside.cons {e : Event} {events : List Event} (he : e.isAside = true)
    (haside : Aside events) : Aside (e :: events) := by
  rw [Aside, List.all_cons, he]
  exact haside

theorem aside_onCurrentAgent (sender : ChannelUser) (op : AgentOp) :
    Aside (onCurrentAgent h router sender op).1 := by
  unfold onCurrentAgent
  split <;> rfl

/-- But for `/agent`, a command does neither. -/
theorem aside_handleCommand {sender : ChannelUser} {name : String} {args : List String}
    (hname : name ≠ "agent") : Aside (handleCommand h router sender name args).1 := by
  unfold handleCommand workflowCommand triggerCommand
  split
  case h_5 => exact absurd rfl hname
  -- `workflow`, `trigger`, `schedule`, `approve` and `reject` look at their arguments
  case h_16 => split <;> rfl
  case h_18 =>
    repeat' split
    all_goals rfl
  case h_20 =>
    cases args with
    | nil => rfl
    | cons action rest =>
      unfold scheduleCommand
      dsimp only
      split <;> rfl
  case h_22 => cases args <;> rfl
  case h_23 => cases args <;> rfl
  all_goals first | exact aside_onCurrentAgent sender _ | rfl

theorem aside_dispatchCallback (data callbackId : String) :
    Aside (dispatchCallback h m data callbackId) := by
  unfold dispatchCallback
  repeat' split
  all_goals rfl

theorem aside_dispatchApprovals : Aside (dispatchApprovals h m) := by
  unfold dispatchApprovals
  split
  · rfl
  · refine .cons rfl (List.all_eq_true.2 fun e he => ?_)
    obtain ⟨d, -, rfl⟩ := List.mem_map.1 he
    rfl

theorem aside_spawnFallback (names : List String) : Aside (spawnFallback h names).1 := by
  induction names with
  | nil => rfl
  | cons name names ih =>
    unfold spawnFallback
    split
    · rfl
    · exact .cons rfl ih

theorem aside_resolveFallbackAgent : Aside (resolveFallbackAgent h).1 := by
  unfold resolveFallbackAgent
  split
  · rfl
  · exact .cons rfl (aside_spawnFallback _)

theorem aside_describeMedia (mediaType localPath : String) :
    Aside (describeMedia h m mediaType localPath).1 := by
  unfold describeMedia
  dsimp only
  repeat' split
  all_goals rfl

theorem aside_rateLimit (limiter : RateLimiter) (now : ℕ) :
    Aside (rateLimit h m limiter now).2 := by
  unfold rateLimit
  repeat' split
  all_goals try rfl
  unfold RateLimiter.check
  dsimp only
  repeat' split
  all_goals rfl

/-! ### A dispatch takes a text where it goes -/

theorem mem_targets_dispatchToAgent (hauth : authorization h m = .ok ()) :
    agent ∈ targets (dispatchToAgent h adapter m agentId text) ↔ agentId = agent := by
  unfold dispatchToAgent
  rw [hauth]
  cases hreply : h.checkAutoReply agentId text with
  | some reply => simp [targets, calls, respond, authorizationCall, KernelOp.target]
  | none =>
    cases hturn : turnResult h adapter agentId text with
    | ok response =>
      cases hstreams : adapter.supportsStreaming <;>
        simp [targets, calls, respond, authorizationCall, KernelOp.target]
    | error e => simp [targets, calls, respond, authorizationCall, KernelOp.target]

theorem targets_dispatchBroadcast (hauth : authorization h m = .ok ()) :
    targets (dispatchBroadcast h router m text) = (broadcastTargets router m).map Prod.snd := by
  have hcalls : ∀ known : List (String × AgentId),
      targets (known.map fun t => .call (.sendMessage t.2 text)) = known.map Prod.snd := by
    intro known
    induction known with
    | nil => rfl
    | cons t known ih => simp [KernelOp.target, ih]
  unfold dispatchBroadcast
  rw [hauth]
  change targets ((broadcastTargets router m).map _ ++ [respond h m _]) = _
  rw [targets_append, hcalls, targets_cons_respond, targets_nil, List.append_nil]

/-- A text of an authorized sender is taken to its targets, and to no other agent. -/
theorem mem_textTargets_iff (hauth : authorization h m = .ok ()) :
    agent ∈ textTargets h router m ↔ agent ∈ targets (dispatchRouted h router adapter m text) := by
  unfold textTargets dispatchRouted
  split
  · rw [targets_dispatchBroadcast hauth]
  · cases hrouted : routed router m with
    | some agentId =>
      dsimp only
      rw [mem_targets_dispatchToAgent hauth, List.mem_singleton, eq_comm]
    | none =>
      dsimp only
      rw [targets_append, aside_resolveFallbackAgent.targets, List.nil_append]
      cases hfallback : (resolveFallbackAgent h).2 with
      | error msg => simp [Except.toOption]
      | ok agentId =>
        change _ ↔ agent ∈ targets (dispatchToAgent h adapter m agentId text)
        rw [mem_targets_dispatchToAgent hauth]
        simp [Except.toOption, eq_comm]

theorem mem_textTargets : agent ∈ textTargets h router m ↔ agent ∈ routerTargets router m ∨
    ¬ isBroadcast router m ∧ routed router m = none ∧
      (resolveFallbackAgent h).2.toOption = some agent := by
  unfold textTargets routerTargets
  by_cases hbroadcast : isBroadcast router m
  · simp [hbroadcast]
  · cases hrouted : routed router m with
    | some agentId => simp [hbroadcast, eq_comm]
    | none => simp [hbroadcast]

/-! ### A new default -/

theorem mem_routerTargets_of_not_broadcast (hbroadcast : ¬ isBroadcast router m) :
    agent ∈ routerTargets router m ↔ routed router m = some agent := by
  rw [routerTargets, if_neg hbroadcast, Option.mem_toList]

/-- A text that goes elsewhere than before, goes to the new default. -/
theorem mem_routerTargets_setUserDefault {key : String}
    (hagent : agent ∈ routerTargets (router.setUserDefault key agentId) m) :
    agent = agentId ∨ agent ∈ routerTargets router m := by
  by_cases hbroadcast : isBroadcast router m
  · right
    have hset : isBroadcast (router.setUserDefault key agentId) m := hbroadcast
    rw [routerTargets, if_pos hset] at hagent
    rw [routerTargets, if_pos hbroadcast]
    exact hagent
  · have hset : ¬ isBroadcast (router.setUserDefault key agentId) m := hbroadcast
    rw [mem_routerTargets_of_not_broadcast hset] at hagent
    rw [mem_routerTargets_of_not_broadcast hbroadcast]
    exact AgentRouter.resolve_setUserDefault hagent

/-- A text that nothing concerned, and only such a text, goes to the new default. -/
theorem mem_routerTargets_setDefault
    (hagent : agent ∈ routerTargets (router.setDefault agentId) m) :
    agent = agentId ∨ agent ∈ routerTargets router m := by
  by_cases hbroadcast : isBroadcast router m
  · right
    have hset : isBroadcast (router.setDefault agentId) m := hbroadcast
    rw [routerTargets, if_pos hset] at hagent
    rw [routerTargets, if_pos hbroadcast]
    exact hagent
  · have hset : ¬ isBroadcast (router.setDefault agentId) m := hbroadcast
    rw [mem_routerTargets_of_not_broadcast hset] at hagent
    rw [mem_routerTargets_of_not_broadcast hbroadcast]
    have hown : (router.setDefault agentId).ownRoute m.channel m.sender.platformId =
        router.ownRoute m.channel m.sender.platformId := rfl
    have husers : (router.setDefault agentId).userDefaults = router.userDefaults := rfl
    have hdefault : (router.setDefault agentId).defaultAgent = some agentId := rfl
    rw [routed, AgentRouter.resolve_eq, AgentRouter.sharedRoute_eq, hown, husers, hdefault]
      at hagent
    rw [routed, AgentRouter.resolve_eq, AgentRouter.sharedRoute_eq]
    simp only [Option.or_eq_some_iff, Option.some.injEq] at hagent ⊢
    tauto

theorem Unrouted.of_setUserDefault {key : String}
    (hunrouted : Unrouted (router.setUserDefault key agentId) m) : Unrouted router m := by
  obtain ⟨hbroadcast, hown, huser, hplatform⟩ := hunrouted
  have hlookup : ∀ id, (router.setUserDefault key agentId).userDefaults.lookup id = none →
      router.userDefaults.lookup id = none := by
    intro id hid
    rw [AgentRouter.lookup_setUserDefault] at hid
    split at hid
    · cases hid
    · exact hid
  refine ⟨hbroadcast, hown, ?_, hlookup _ hplatform⟩
  cases huserKey : m.sender.rustyHandUser with
  | none => rfl
  | some user =>
    rw [huserKey] at huser
    exact hlookup user huser

theorem routed_of_unrouted (hunrouted : Unrouted router m) :
    routed router m = router.defaultAgent := by
  obtain ⟨-, hown, huser, hplatform⟩ := hunrouted
  rw [routed, AgentRouter.resolve_eq, AgentRouter.sharedRoute_eq, hown, huser, hplatform]
  rfl

/-! ### What a dispatch changes in the router -/

theorem routerAfter_changes (router : AgentRouter) (events : List Event) :
    routerAfter router (changes events) = routerAfter router events := by
  induction events generalizing router with
  | nil => rfl
  | cons e events ih =>
    cases hchanges : e.changesRouter with
    | true => simp [changes, hchanges, ← ih]
    | false =>
      have hstep : routerStep router e = router := by
        cases e <;> first | rfl | cases hchanges
      simp [changes, hchanges, hstep, ← ih]

/-- `/agent` sets the default of the sender's id, or changes nothing. -/
theorem changes_agentCommand (sender : ChannelUser) (args : List String) :
    changes (agentCommand h sender args).1 = [] ∨ ∃ agentName agentId, Selects h agentName agentId ∧
      changes (agentCommand h sender args).1 = [.userDefault sender.platformId agentId] := by
  cases args with
  | nil => exact Or.inl rfl
  | cons agentName rest =>
    rw [agentCommand, selectAgent]
    cases hfind : h.findAgentByName agentName with
    | error e => exact Or.inl rfl
    | ok found =>
      cases found with
      | some agentId => exact Or.inr ⟨agentName, agentId, Or.inl hfind, rfl⟩
      | none =>
        cases hspawn : h.spawnAgentByName agentName with
        | error e => exact Or.inl (by simp)
        | ok agentId => exact Or.inr ⟨agentName, agentId, Or.inr ⟨hfind, hspawn⟩, rfl⟩

theorem changes_handleCommand (sender : ChannelUser) (name : String) (args : List String) :
    changes (handleCommand h router sender name args).1 = [] ∨
      ∃ agentName agentId, Selects h agentName agentId ∧
        changes (handleCommand h router sender name args).1 =
          [.userDefault sender.platformId agentId] := by
  by_cases hname : name = "agent"
  · rw [hname]
    exact changes_agentCommand sender args
  · exact Or.inl (aside_handleCommand hname).changes

theorem changes_dispatchToAgent : changes (dispatchToAgent h adapter m agentId text) = [] := by
  unfold dispatchToAgent
  cases authorization h m with
  | error denied => rfl
  | ok _ =>
    cases h.checkAutoReply agentId text with
    | some reply => rfl
    | none =>
      cases turnResult h adapter agentId text with
      | error e => rfl
      | ok response => cases adapter.supportsStreaming <;> rfl

theorem changes_dispatchBroadcast : changes (dispatchBroadcast h router m text) = [] := by
  have hcalls : ∀ known : List (String × AgentId),
      changes (known.map fun t => .call (.sendMessage t.2 text)) = [] := by
    intro known
    induction known with
    | nil => rfl
    | cons t known ih => simp [ih]
  unfold dispatchBroadcast
  cases authorization h m with
  | error denied => rfl
  | ok _ =>
    change changes ((broadcastTargets router m).map _ ++ [respond h m _]) = []
    rw [changes_append, hcalls]
    rfl

/-- A text sets the default where it goes to the fallback, and changes nothing otherwise. -/
theorem changes_dispatchRouted : changes (dispatchRouted h router adapter m text) = [] ∨
    ∃ agentId, ¬ isBroadcast router m ∧ routed router m = none ∧
      (resolveFallbackAgent h).2 = .ok agentId ∧
      changes (dispatchRouted h router adapter m text) = [.defaultAgent agentId] := by
  unfold dispatchRouted
  by_cases hbroadcast : isBroadcast router m
  · rw [if_pos hbroadcast]
    exact Or.inl changes_dispatchBroadcast
  · rw [if_neg hbroadcast]
    cases hrouted : routed router m with
    | some agentId => exact Or.inl changes_dispatchToAgent
    | none =>
      dsimp only
      rw [changes_append, aside_resolveFallbackAgent.changes, List.nil_append]
      cases hfallback : (resolveFallbackAgent h).2 with
      | error msg => exact Or.inl rfl
      | ok agentId =>
        refine Or.inr ⟨agentId, hbroadcast, rfl, rfl, ?_⟩
        change .defaultAgent agentId :: changes (dispatchToAgent h adapter m agentId text) = _
        rw [changes_dispatchToAgent]

/-- The router behind a message: an agent chosen by its sender, a fallback, or nothing new. -/
inductive RouterChange (h : Handle) (router : AgentRouter) (m : ChannelMessage) :
    AgentRouter → Prop
  | same : RouterChange h router m router
  | selected {agentName : String} {agentId : AgentId} (hselects : Selects h agentName agentId) :
      RouterChange h router m (router.setUserDefault m.sender.platformId agentId)
  | fallback {agentId : AgentId} (hbroadcast : ¬ isBroadcast router m)
      (hrouted : routed router m = none) (hfallback : (resolveFallbackAgent h).2 = .ok agentId) :
      RouterChange h router m (router.setDefault agentId)

theorem RouterChange.of_changes {events : List Event} (hchanges : changes events = []) :
    RouterChange h router m (routerAfter router events) := by
  rw [← routerAfter_changes, hchanges]
  exact .same

theorem RouterChange.append {a b : List Event} (ha : changes a = [])
    (hb : RouterChange h router m (routerAfter router b)) :
    RouterChange h router m (routerAfter router (a ++ b)) := by
  rwa [← routerAfter_changes, changes_append, ha, List.nil_append, routerAfter_changes]

theorem routerAfter_dispatchCommand (name : String) (args : List String) :
    RouterChange h router m (routerAfter router (dispatchCommand h router m name args)) := by
  have hchanges : changes (dispatchCommand h router m name args) =
      changes (handleCommand h router m.sender name args).1 := by simp [dispatchCommand]
  obtain hnone | ⟨agentName, agentId, hselects, hset⟩ :=
    @changes_handleCommand h router m.sender name args
  · exact .of_changes (hchanges.trans hnone)
  · rw [← routerAfter_changes, hchanges, hset]
    exact .selected hselects

theorem routerAfter_dispatchRouted :
    RouterChange h router m (routerAfter router (dispatchRouted h router adapter m text)) := by
  obtain hnone | ⟨agentId, hbroadcast, hrouted, hfallback, hset⟩ :=
    @changes_dispatchRouted h router adapter m text
  · exact .of_changes hnone
  · rw [← routerAfter_changes, hset]
    exact .fallback hbroadcast hrouted hfallback

theorem routerAfter_dispatchText :
    RouterChange h router m (routerAfter router (dispatchText h router adapter m text)) := by
  unfold dispatchText
  split
  · exact .of_changes aside_dispatchApprovals.changes
  · split
    · exact routerAfter_dispatchCommand _ _
    · exact routerAfter_dispatchRouted

theorem routerAfter_dispatchMedia :
    RouterChange h router m (routerAfter router (dispatchMedia h router adapter m)) := by
  unfold dispatchMedia
  dsimp only
  split
  · exact .same
  · split
    · exact .same
    · exact .append (a := .downloaded _ _ :: _) (aside_describeMedia _ _).changes
        routerAfter_dispatchText

theorem routerAfter_dispatchContent :
    RouterChange h router m (routerAfter router (dispatchContent h router adapter m)) := by
  unfold dispatchContent
  split
  · exact .of_changes (aside_dispatchCallback _ _).changes
  · exact routerAfter_dispatchText
  · exact routerAfter_dispatchCommand _ _
  · exact routerAfter_dispatchMedia
  · exact routerAfter_dispatchMedia
  · exact routerAfter_dispatchMedia
  · exact routerAfter_dispatchText

theorem routerAfter_dispatchMessage (limiter : RateLimiter) (now : ℕ) :
    RouterChange h router m
      (routerAfter router (dispatchMessage h router adapter m limiter now)) := by
  unfold dispatchMessage
  split
  · refine .append (aside_rateLimit limiter now).changes ?_
    split
    · exact .same
    · exact routerAfter_dispatchContent
  · exact .same

end Bridge
end RustyHand
