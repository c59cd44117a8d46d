import RustyHand.Kernel.SystemInvariant

/-!
# What spawns and kills leave

A spawn that fails takes nothing back, and a kill clears the tables one after the other.
-/

/-!
## Spawns that fail

`spawn_agent_with_parent` returns at the first step that fails and takes nothing back.  Its first
step writes the row of the session, so every later failure leaves that row, and those of
`register` and of `save_agent` leave more.

* `Unchanged`: what a failed spawn should leave as it was;
* `FailsEarlyOrNever`: the spawns that do;
* `spawn_atomic_iff`: no others.
-/

namespace RustyHand
namespace System

variable {cfg : KernelConfig} {s s' : System} {manifest : AgentManifest} {settings : Settings}
  {parent : Option AgentId} {io : SpawnIo}

/-- The registry, the grants, the entries of the scheduler, the sessions and the stored agents are
those of another state. -/
structure Unchanged (s s' : System) : Prop where
  registry : s'.kernel.registry = s.kernel.registry
  capabilities : s'.kernel.capabilities = s.kernel.capabilities
  quotas : s'.quotas = s.quotas
  usage : s'.usage = s.usage
  sessions : s'.kernel.memory.sessions = s.kernel.memory.sessions
  agents : s'.kernel.memory.agents = s.kernel.memory.agents

/-- The first step of the spawn fails, or no step does. -/
def FailsEarlyOrNever (s : System) (manifest : AgentManifest) (io : SpawnIo) : Prop :=
  (∃ e, io.createSession = .error e) ∨
    (∃ group, normalizeAgentGroup manifest.group = .ok group) ∧ io.workspace = .ok () ∧
      manifest.name ∉ s.kernel.registry.nameIndex.map Prod.fst ∧ io.saveAgent = .ok ()

theorem register_error_iff {r : AgentRegistry} {entry : AgentEntry} :
    (∃ e, r.register entry = .error e) ↔ entry.name ∈ r.nameIndex.map Prod.fst := by
  unfold AgentRegistry.register
  cases hlookup : Table.lookup Prod.fst entry.name r.nameIndex with
  | none => simpa using Table.lookup_eq_none_iff.1 hlookup
  | some row =>
    obtain ⟨hrow, hname⟩ := Table.mem_of_lookup hlookup
    simpa using ⟨row.2, by rw [← hname]; exact hrow⟩

/-- The row of the new session is there. -/
theorem sessions_opened (hfresh : s.kernel.nextId + 1 ∉ s.kernel.memory.sessions.map Session.id) :
    s.opened.kernel.memory.sessions ≠ s.kernel.memory.sessions := by
  intro heq
  apply hfresh
  rw [← heq]
  exact List.mem_map.2 ⟨_, Table.mem_upsert.2 (Or.inl rfl), rfl⟩

/-- Every step after the first keeps the sessions. -/
theorem sessions_spawn {r : Except RustyHandError AgentId} (hcreate : io.createSession = .ok ())
    (hrun : s.spawnAgentWithParent cfg manifest settings parent io = (r, s')) :
    s'.kernel.memory.sessions = s.opened.kernel.memory.sessions := by
  rcases spawnAgentWithParent_cases hrun with ⟨e, herror, -⟩ | ⟨-, -, rfl, -⟩ |
    ⟨group, -, -, -, ⟨e, -, -, rfl⟩ | ⟨registry, -, ⟨e, -, -, rfl⟩ | ⟨-, -, rfl⟩⟩⟩
  · rw [hcreate] at herror
    cases herror
  · rfl
  · rfl
  · rfl
  · rfl

/-- A spawn that opens its session succeeds just when no step fails. -/
theorem spawn_ok_iff (hcreate : io.createSession = .ok ()) :
    (∃ id, (s.spawnAgentWithParent cfg manifest settings parent io).1 = .ok id) ↔
      (∃ group, normalizeAgentGroup manifest.group = .ok group) ∧ io.workspace = .ok () ∧
        manifest.name ∉ s.kernel.registry.nameIndex.map Prod.fst ∧ io.saveAgent = .ok () := by
  rcases hrun : s.spawnAgentWithParent cfg manifest settings parent io with ⟨r, s'⟩
  rcases spawnAgentWithParent_cases hrun with ⟨e, herror, -⟩ | ⟨-, ⟨e, rfl⟩, -, hearly⟩ |
    ⟨group, -, hgroup, hworkspace, ⟨e, hregister, rfl, -⟩ | ⟨registry, hregister, hcases⟩⟩
  · rw [hcreate] at herror
    cases herror
  · rcases hearly with ⟨message, hgroup⟩ | ⟨message, hworkspace⟩
    · simp [hgroup]
    · simp [hworkspace]
  · have hname : manifest.name ∈ s.kernel.registry.nameIndex.map Prod.fst :=
      register_error_iff.1 ⟨e, hregister⟩
    simp only [reduceCtorEq, exists_const, false_iff]
    rintro ⟨-, -, hfree, -⟩
    exact hfree hname
  · have hname : manifest.name ∉ s.kernel.registry.nameIndex.map Prod.fst := by
      intro hmem
      have herror : ∃ e, s.kernel.registry.register (spawnedEntry s.kernel.nextId
          (s.kernel.nextId + 1) { manifest with group := group } parent) = .error e :=
        register_error_iff.2 hmem
      simp [hregister] at herror
    rcases hcases with ⟨e, hsave, rfl, -⟩ | ⟨hsave, rfl, -⟩
    · simp [hsave]
    · exact iff_of_true ⟨_, rfl⟩ ⟨⟨group, hgroup⟩, hworkspace, hname, hsave⟩

/-- **When a spawn is atomic.**  A spawn that returns an error leaves everything as it was just when
its first step is the one that failed. -/
theorem spawn_atomic_iff (cfg : KernelConfig) (s : System) (manifest : AgentManifest)
    (settings : Settings) (parent : Option AgentId) (io : SpawnIo)
    (hfresh : s.kernel.nextId + 1 ∉ s.kernel.memory.sessions.map Session.id) :
    (∀ e, (s.spawnAgentWithParent cfg manifest settings parent io).1 = .error e →
      Unchanged s (s.spawnAgentWithParent cfg manifest settings parent io).2) ↔
      FailsEarlyOrNever s manifest io := by
  cases hcreate : io.createSession with
  | error e =>
    refine iff_of_true (fun _ _ => ?_) (Or.inl ⟨e, hcreate⟩)
    unfold spawnAgentWithParent
    rw [hcreate]
    exact ⟨rfl, rfl, rfl, rfl, rfl, rfl⟩
  | ok _ =>
    have hok : (∃ id, (s.spawnAgentWithParent cfg manifest settings parent io).1 = .ok id) ↔ _ :=
      spawn_ok_iff hcreate
    -- once the session is created it stays, however the spawn ends
    have hchanged : ¬ Unchanged s (s.spawnAgentWithParent cfg manifest settings parent io).2 := by
      intro hsame
      apply sessions_opened hfresh
      rw [← sessions_spawn hcreate rfl]
      exact hsame.sessions
    have hnot : ¬ ∃ e, io.createSession = .error e := by simp [hcreate]
    unfold FailsEarlyOrNever
    rw [or_iff_right hnot, ← hok]
    cases hr : (s.spawnAgentWithParent cfg manifest settings parent io).1 with
    | ok id => simp
    | error e => simpa using hchanged

/-- The id of the next session is that of no session, in every state of a run. -/
theorem nextSession_fresh (cfg : KernelConfig) (ops : List Op) :
    (run cfg ops).kernel.nextId + 1 ∉ (run cfg ops).kernel.memory.sessions.map Session.id := by
  obtain ⟨owner, h⟩ := run_wellFormed cfg ops
  intro hmem
  obtain ⟨x, hx, heq⟩ := List.mem_map.1 hmem
  have hlt := (h.kernel.sessions x hx).1
  rw [heq] at hlt
  exact (Nat.lt_succ_self _).asymm hlt

theorem spawn_atomic_second :
    FailsEarlyOrNever (run plainConfig [spawnOne]) { name := "b" } {} ∧
      ∀ e, ((run plainConfig [spawnOne]).spawnAgentWithParent plainConfig { name := "b" } {} none
          {}).1 = .error e →
        Unchanged (run plainConfig [spawnOne])
          ((run plainConfig [spawnOne]).spawnAgentWithParent plainConfig { name := "b" } {} none
            {}).2 := by
  have hnever : FailsEarlyOrNever (run plainConfig [spawnOne]) { name := "b" } {} :=
    Or.inr ⟨⟨none, rfl⟩, rfl, by decide, rfl⟩
  exact ⟨hnever, (spawn_atomic_iff plainConfig (run plainConfig [spawnOne]) { name := "b" } {} none
    {} (nextSession_fresh plainConfig [spawnOne])).2 hnever⟩

/-- The second agent of a name is refused, and its session stays. -/
theorem spawn_duplicate_leaves :
    ¬ ∀ (cfg : KernelConfig) (ops : List Op) (manifest : AgentManifest) (settings : Settings)
        (parent : Option AgentId) (io : SpawnIo) (e : RustyHandError),
      ((run cfg ops).spawnAgentWithParent cfg manifest settings parent io).1 = .error e →
        Unchanged (run cfg ops)
          ((run cfg ops).spawnAgentWithParent cfg manifest settings parent io).2 := by
  intro hall
  have hsame := hall plainConfig [spawnOne] { name := "a" } {} none {}
    (.agentAlreadyExists "a") rfl
  have hlength := congrArg List.length hsame.sessions
  revert hlength
  decide

end System
end RustyHand

/-!
## What a kill leaves

`kill_agent` clears the tables one after the other, and what a deletion in the database returns is
passed over.  A turn of the agent that is in flight goes on writing.  The table of canonical
sessions and the cron jobs are not cleared at all.

* `Place`: where an agent has rows; what a step of a kill clears, and what a turn writes;
* `runEvents`: a kill and the writes of the turns of its agent, in any order;
* `AgentData`: all that the other agents have;
* `kill_complete_iff`: when nothing is left.
-/

namespace RustyHand
namespace System

open AgentRegistry

variable {owner : SessionId → AgentId} {s s' : System} {agentId other : AgentId}
  {sessionId : SessionId}

/-! ### Places -/

/-- Where an agent has entries or rows. -/
inductive Place
  | registry
  | capabilities
  | scheduler
  | triggers
  | jobs
  | sessions
  | canonical
  | kv
  | memories
  deriving DecidableEq

/-- The agents that have something at a place. -/
def Place.owners (s : System) : Place → List AgentId
  | registry =>
    s.kernel.registry.agents.map AgentEntry.id ++ s.kernel.registry.nameIndex.map Prod.snd
  | capabilities => s.kernel.capabilities.grants.map Prod.fst
  | scheduler => s.quotas.map Prod.fst ++ s.usage.map Prod.fst
  | triggers => s.triggers.triggers.map Trigger.agentId ++ s.triggers.agentTriggers.map Prod.fst
  | jobs => s.jobs.map CronJob.agentId
  | sessions => s.kernel.memory.sessions.map Session.agentId
  | canonical => s.canonical.map Prod.fst
  | kv => s.kv.map KvRow.agentId
  | memories => s.memories.map MemoryRow.agentId

/-- The place that a step of a kill clears, of those. -/
def KillStep.clears : KillStep → Option Place
  | removeEntry => some .registry
  | unregister => some .scheduler
  | revokeAll => some .capabilities
  | removeTriggers => some .triggers
  | deleteSessions => some .sessions
  | deleteKv => some .kv
  | deleteMemories => some .memories
  | stopBackground | abortTask | deleteRow => none

/-- The place to which a write of a turn brings a row. -/
def TurnWrite.brings : TurnWrite → Option Place
  | saveSession _ => some .sessions
  | saveCanonical _ => some .canonical
  | remember _ => some .memories
  | setKv _ _ => some .kv
  | addJob _ => some .jobs
  | recordUsage _ _ | setState _ => none

/-! ### A kill and the turns of its agent -/

/-- A step of a kill that the database does. -/
def KillStep.fallible (step : KillStep) : Bool := deleteSteps.contains step

/-- A step of a kill; where the database fails it does nothing, and the kill goes on. -/
def KillStep.attempt (step : KillStep) (agentId : AgentId) (ok : Bool) (s : System) : System :=
  if step.fallible && !ok then s else step.apply agentId s

/-- What happens while an agent is killed: the next step of the kill, or a write of a turn. -/
inductive Event
  | kill (ok : Bool)
  | turn (sessionId : SessionId) (w : TurnWrite)

/-- Is the event a step of the kill? -/
def Event.isKill : Event → Bool
  | kill _ => true
  | turn _ _ => false

/-- The system after some events, with the steps that the kill has still to do. -/
def runEvents (agentId : AgentId) : List KillStep → System → List Event → System
  | _, s, [] => s
  | [], s, .kill _ :: events => runEvents agentId [] s events
  | step :: steps, s, .kill ok :: events =>
    runEvents agentId steps (step.attempt agentId ok s) events
  | steps, s, .turn sessionId w :: events =>
    runEvents agentId steps (w.apply agentId sessionId s) events

/-- A kill that has returned, and writes of turns that were in flight. -/
structure Interleaving (s : System) (agentId : AgentId) where
  events : List Event
  turns : ∀ sessionId w, Event.turn sessionId w ∈ events → (agentId, sessionId) ∈ s.inFlight
  returned : killSteps.length ≤ events.countP Event.isKill

/-- The system at the end. -/
def Interleaving.final {s : System} (i : Interleaving s agentId) : System :=
  runEvents agentId killSteps s i.events

/-- A step clears the place, and does not fail. -/
def Clears : List KillStep → List Event → Place → Prop
  | _, [], _ => False
  | [], .kill _ :: events, place => Clears [] events place
  | step :: steps, .kill ok :: events, place =>
    (step.clears = some place ∧ (step.fallible = true → ok = true)) ∨ Clears steps events place
  | steps, .turn _ _ :: events, place => Clears steps events place

/-- After each write a step clears the place to which it has brought a row. -/
def Followed : List KillStep → List Event → Prop
  | _, [] => True
  | [], .kill _ :: events => Followed [] events
  | _ :: steps, .kill _ :: events => Followed steps events
  | steps, .turn _ w :: events =>
    (∀ place, w.brings = some place → Clears steps events place) ∧ Followed steps events

instance decidableClears : (steps : List KillStep) → (events : List Event) → (place : Place) →
    Decidable (Clears steps events place)
  | [], [], _ => inferInstanceAs (Decidable False)
  | _ :: _, [], _ => inferInstanceAs (Decidable False)
  | [], .kill _ :: events, place => decidableClears [] events place
  | step :: steps, .kill ok :: events, place =>
    have := decidableClears steps events place
    inferInstanceAs (Decidable ((step.clears = some place ∧ (step.fallible = true → ok = true)) ∨
      Clears steps events place))
  | [], .turn _ _ :: events, place => decidableClears [] events place
  | step :: steps, .turn _ _ :: events, place => decidableClears (step :: steps) events place

instance decidableFollowed : (steps : List KillStep) → (events : List Event) →
    Decidable (Followed steps events)
  | [], [] => inferInstanceAs (Decidable True)
  | _ :: _, [] => inferInstanceAs (Decidable True)
  | [], .kill _ :: events => decidableFollowed [] events
  | _ :: steps, .kill _ :: events => decidableFollowed steps events
  | [], .turn _ w :: events =>
    have := decidableFollowed [] events
    inferInstanceAs (Decidable ((∀ place, w.brings = some place → Clears [] events place) ∧
      Followed [] events))
  | step :: steps, .turn _ w :: events =>
    have := decidableFollowed (step :: steps) events
    inferInstanceAs (Decidable ((∀ place, w.brings = some place →
      Clears (step :: steps) events place) ∧ Followed (step :: steps) events))

/-! ### Steps and writes, place by place -/

theorem kept_iff {place : Place} {cleared : Option Place} (h : place.owners s' = place.owners s)
    (hother : cleared ≠ some place) :
    agentId ∈ place.owners s' ↔ agentId ∈ place.owners s ∧ cleared ≠ some place := by
  rw [h]
  exact ⟨fun hmem => ⟨hmem, hother⟩, And.left⟩

theorem cleared_iff {place : Place} (h : agentId ∉ place.owners s') :
    agentId ∈ place.owners s' ↔ agentId ∈ place.owners s ∧ some place ≠ some place :=
  iff_of_false h fun hmem => hmem.2 rfl

theorem not_mem_erase {α : Type*} {key : α → AgentId} {rows : List α} :
    agentId ∉ (Table.erase key agentId rows).map key := by
  rw [Table.keys_erase]
  intro hmem
  simpa using (List.mem_filter.1 hmem).2

theorem not_mem_filter {α : Type*} {key : α → AgentId} {rows : List α} :
    agentId ∉ (rows.filter fun row => key row ≠ agentId).map key := by
  intro hmem
  obtain ⟨row, hrow, heq⟩ := List.mem_map.1 hmem
  simpa [heq] using (List.mem_filter.1 hrow).2

/-- The entry and the name of a removed agent are gone. -/
theorem not_mem_remove (h : s.kernel.registry.WellFormed) :
    agentId ∉ Place.registry.owners (KillStep.removeEntry.apply agentId s) := by
  simp only [KillStep.apply]
  cases hremove : s.kernel.registry.remove agentId with
  | error e =>
    have hget : s.kernel.registry.get agentId = none := by
      unfold AgentRegistry.remove at hremove
      cases hget : s.kernel.registry.get agentId with
      | none => rfl
      | some entry =>
        rw [hget] at hremove
        cases hremove
    have hids : agentId ∉ s.kernel.registry.agents.map AgentEntry.id :=
      Table.lookup_eq_none_iff.1 hget
    simpa [Place.owners, h.index, Function.comp_def] using hids
  | ok removed =>
    obtain ⟨entry, registry⟩ := removed
    have hwf := h.remove hremove
    obtain ⟨-, rfl⟩ := remove_eq_ok_iff.1 hremove
    have hids : agentId ∉ (Table.erase AgentEntry.id agentId s.kernel.registry.agents).map
        AgentEntry.id := not_mem_erase
    have hindex := hwf.index
    dsimp only at hindex
    simp only [Place.owners, hindex, List.map_map, List.mem_append, not_or]
    exact ⟨hids, hids⟩

theorem owners_killStep (h : Sound owner s) (agentId : AgentId) (step : KillStep) (place : Place) :
    agentId ∈ place.owners (step.apply agentId s) ↔
      agentId ∈ place.owners s ∧ step.clears ≠ some place := by
  cases step with
  -- in each case one place is cleared, and the others are what they were
  | removeEntry =>
    cases place with
    | registry => exact cleared_iff (not_mem_remove h.kernel.registry)
    | _ =>
      refine kept_iff ?_ (by decide)
      simp only [KillStep.apply]
      split <;> rfl
  | unregister =>
    cases place with
    | scheduler =>
      refine cleared_iff fun hmem => ?_
      rcases List.mem_append.1 hmem with hmem | hmem
      · exact not_mem_erase hmem
      · exact not_mem_erase hmem
    | _ => exact kept_iff rfl (by decide)
  | revokeAll =>
    cases place with
    | capabilities => exact cleared_iff not_mem_erase
    | _ => exact kept_iff rfl (by decide)
  | removeTriggers =>
    cases place with
    | triggers =>
      refine cleared_iff fun hmem => ?_
      rcases List.mem_append.1 hmem with hmem | hmem
      · rw [KillStep.apply, h.triggers.triggers_removeAgentTriggers] at hmem
        exact not_mem_filter hmem
      · exact not_mem_filter hmem
    | _ => exact kept_iff rfl (by decide)
  | deleteSessions =>
    cases place with
    | sessions => exact cleared_iff not_mem_filter
    | _ => exact kept_iff rfl (by decide)
  | deleteKv =>
    cases place with
    | kv => exact cleared_iff not_mem_filter
    | _ => exact kept_iff rfl (by decide)
  | deleteMemories =>
    cases place with
    | memories => exact cleared_iff not_mem_filter
    | _ => exact kept_iff rfl (by decide)
  | stopBackground => exact kept_iff (by cases place <;> rfl) (Option.some_ne_none _).symm
  | abortTask => exact kept_iff (by cases place <;> rfl) (Option.some_ne_none _).symm
  | deleteRow => exact kept_iff (by cases place <;> rfl) (Option.some_ne_none _).symm

theorem owners_attempt (h : Sound owner s) (step : KillStep) (ok : Bool) (place : Place) :
    agentId ∈ place.owners (step.attempt agentId ok s) ↔ agentId ∈ place.owners s ∧
      ¬ (step.clears = some place ∧ (step.fallible = true → ok = true)) := by
  unfold KillStep.attempt
  cases hfails : step.fallible && !ok with
  | true =>
    have hnot : ¬ (step.fallible = true → ok = true) := by simpa using hfails
    rw [if_pos rfl]
    exact ⟨fun hmem => ⟨hmem, fun hcleared => hnot hcleared.2⟩, And.left⟩
  | false =>
    have hdone : step.fallible = true → ok = true := by simpa using hfails
    rw [if_neg Bool.false_ne_true, owners_killStep h]
    exact and_congr_right fun _ => not_congr ⟨fun hcleared => ⟨hcleared, hdone⟩, And.left⟩

theorem untouched_iff {place : Place} {brought : Option Place}
    (h : place.owners s' = place.owners s) (hother : brought ≠ some place) :
    agentId ∈ place.owners s' ↔ agentId ∈ place.owners s ∨ brought = some place := by
  rw [h]
  exact ⟨Or.inl, fun hmem => hmem.resolve_right hother⟩

theorem brought_iff {place : Place} (h : agentId ∈ place.owners s') :
    agentId ∈ place.owners s' ↔ agentId ∈ place.owners s ∨ some place = some place :=
  iff_of_true h (Or.inr rfl)

theorem saveSession_owner (h : KernelSound owner s.kernel) (hown : owner sessionId = agentId) :
    ((s.kernel.memory.getSession sessionId).map Session.agentId).getD agentId = agentId := by
  cases hget : s.kernel.memory.getSession sessionId with
  | none => rfl
  | some session =>
    obtain ⟨hsession, hkey⟩ := Table.mem_of_lookup hget
    rw [Option.map_some, Option.getD_some, ← (h.sessions session hsession).2, hkey, hown]

/-- A write of a turn brings the agent a row at one place, or none. -/
theorem owners_turnWrite (h : Sound owner s) (hown : owner sessionId = agentId) (w : TurnWrite)
    (place : Place) : agentId ∈ place.owners (w.apply agentId sessionId s) ↔
      agentId ∈ place.owners s ∨ w.brings = some place := by
  cases w with
  | saveSession messages =>
    cases place with
    | sessions =>
      refine brought_iff (List.mem_map.2 ⟨_, Table.mem_upsert.2 (Or.inl rfl), ?_⟩)
      exact saveSession_owner h.kernel hown
    | _ => exact untouched_iff rfl (by simp [TurnWrite.brings])
  | saveCanonical c =>
    cases place with
    | canonical => exact brought_iff (List.mem_map.2 ⟨_, Table.mem_upsert.2 (Or.inl rfl), rfl⟩)
    | _ => exact untouched_iff rfl (by simp [TurnWrite.brings])
  | remember content =>
    cases place with
    | memories =>
      refine brought_iff (List.mem_map.2 ⟨⟨agentId, content⟩, ?_, rfl⟩)
      exact List.mem_append_right _ (List.mem_singleton.2 rfl)
    | _ => exact untouched_iff rfl (by simp [TurnWrite.brings])
  | setKv key value =>
    cases place with
    | kv => exact brought_iff (List.mem_map.2 ⟨_, Table.mem_upsert.2 (Or.inl rfl), rfl⟩)
    | _ => exact untouched_iff rfl (by simp [TurnWrite.brings])
  | addJob name =>
    cases place with
    | jobs =>
      refine brought_iff (List.mem_map.2
        ⟨{ id := s.kernel.nextId, agentId := agentId, name := name }, ?_, rfl⟩)
      exact List.mem_append_right _ (List.mem_singleton.2 rfl)
    | _ => exact untouched_iff rfl (by simp [TurnWrite.brings])
  | recordUsage tokens toolCalls =>
    cases place with
    | scheduler =>
      refine untouched_iff (congrArg (s.quotas.map Prod.fst ++ ·) ?_) (by simp [TurnWrite.brings])
      apply Table.keys_modify
      exact fun _ => rfl
    | _ => exact untouched_iff rfl (by simp [TurnWrite.brings])
  | setState state =>
    refine untouched_iff ?_ (by simp [TurnWrite.brings])
    simp only [TurnWrite.apply]
    cases hupdate : s.kernel.registry.setState agentId state with
    | error e => rfl
    | ok registry =>
      obtain ⟨-, rfl⟩ := update_eq_ok_iff.1 hupdate
      cases place with
      | registry =>
        refine congrArg (· ++ s.kernel.registry.nameIndex.map Prod.snd) ?_
        apply Table.keys_modify
        exact fun _ => rfl
      | _ => rfl

/-! ### The other agents -/

/-- All that an agent has. -/
structure AgentData where
  entries : List AgentEntry
  names : List (String × AgentId)
  settings : List (AgentId × Settings)
  savedSettings : List (AgentId × Settings)
  grants : List (AgentId × List Capability)
  restarts : List (AgentId × ℕ)
  quotas : List (AgentId × ℕ)
  usage : List (AgentId × UsageTracker)
  triggers : List Trigger
  agentTriggers : List (AgentId × TriggerId)
  jobs : List CronJob
  background : List AgentId
  runningTasks : List AgentId
  sessions : List Session
  canonical : List (AgentId × CanonicalSession)
  kv : List KvRow
  memories : List MemoryRow
  rows : List AgentRow

/-- What an agent has in a state. -/
def dataOf (s : System) (id : AgentId) : AgentData where
  entries := s.kernel.registry.agents.filter fun e => e.id = id
  names := s.kernel.registry.nameIndex.filter fun p => p.2 = id
  settings := s.settings.filter fun p => p.1 = id
  savedSettings := s.savedSettings.filter fun p => p.1 = id
  grants := s.kernel.capabilities.grants.filter fun p => p.1 = id
  restarts := s.kernel.agentRestarts.filter fun p => p.1 = id
  quotas := s.quotas.filter fun p => p.1 = id
  usage := s.usage.filter fun p => p.1 = id
  triggers := s.triggers.triggers.filter fun t => t.agentId = id
  agentTriggers := s.triggers.agentTriggers.filter fun p => p.1 = id
  jobs := s.jobs.filter fun job => job.agentId = id
  background := s.background.filter fun b => b = id
  runningTasks := s.runningTasks.filter fun b => b = id
  sessions := s.kernel.memory.sessions.filter fun x => x.agentId = id
  canonical := s.canonical.filter fun p => p.1 = id
  kv := s.kv.filter fun row => row.agentId = id
  memories := s.memories.filter fun row => row.agentId = id
  rows := s.kernel.memory.agents.filter fun row => row.id = id

/-- What is erased under the key of one agent is not another's. -/
theorem filter_erase_other {α : Type*} {key : α → AgentId} {rows : List α}
    (hne : other ≠ agentId) :
    (Table.erase key agentId rows).filter (fun row => key row = other) =
      rows.filter fun row => key row = other := by
  refine Table.filter_erase fun row _ hkey => ?_
  rw [hkey]
  simpa using hne.symm

/-- A row of an agent, in the place of one of its own, is not another's. -/
theorem filter_upsert_other {α κ : Type*} [DecidableEq κ] {key : α → κ} {agent : α → AgentId}
    {x : α} {rows : List α} (hne : other ≠ agentId) (hx : agent x = agentId)
    (hrows : ∀ y ∈ rows, key y = key x → agent y = agentId) :
    (Table.upsert key x rows).filter (fun row => agent row = other) =
      rows.filter fun row => agent row = other := by
  refine Table.filter_upsert ?_ fun y hy hkey => ?_
  · rw [hx]
    simpa using hne.symm
  · rw [hrows y hy hkey]
    simpa using hne.symm

theorem filter_modify_other {α : Type*} {key : α → AgentId} {f : α → α} {rows : List α}
    (hne : other ≠ agentId) (hf : ∀ y, key (f y) = key y) :
    (Table.modify key agentId f rows).filter (fun row => key row = other) =
      rows.filter fun row => key row = other := by
  refine Table.filter_modify fun y _ hkey => ?_
  rw [hf, hkey]
  simpa using hne.symm

theorem filter_append_other {α : Type*} {key : α → AgentId} {x : α} {rows : List α}
    (hne : other ≠ agentId) (hx : key x = agentId) :
    (rows ++ [x]).filter (fun row => key row = other) = rows.filter fun row => key row = other := by
  rw [List.filter_append, List.filter_singleton, hx]
  simp [hne.symm]

theorem dataOf_killStep (h : Sound owner s) (hne : other ≠ agentId) (step : KillStep) :
    (step.apply agentId s).dataOf other = s.dataOf other := by
  cases step with
  | removeEntry =>
    simp only [KillStep.apply]
    cases hremove : s.kernel.registry.remove agentId with
    | error e => rfl
    | ok removed =>
      obtain ⟨entry, registry⟩ := removed
      obtain ⟨hget, rfl⟩ := remove_eq_ok_iff.1 hremove
      obtain ⟨hentry, hid⟩ := h.kernel.registry.get_eq_some_iff.1 hget
      unfold dataOf
      congr 1
      · exact filter_erase_other hne
      -- the index is erased by name, and no other agent has the name
      · refine Table.filter_erase fun p hp hname => ?_
        rw [h.kernel.registry.index] at hp
        obtain ⟨e, he, rfl⟩ := List.mem_map.1 hp
        rw [h.kernel.registry.names.eq he hentry hname, hid]
        simpa using hne.symm
      · exact filter_erase_other hne
  -- steps that erase two tables by the agent's id
  | unregister | deleteRow =>
    unfold dataOf
    congr 1
    · exact filter_erase_other hne
    · exact filter_erase_other hne
  | removeTriggers =>
    unfold dataOf
    congr 1
    · simp only [KillStep.apply]
      rw [h.triggers.triggers_removeAgentTriggers]
      exact filter_erase_other hne
    · exact filter_erase_other hne
  -- steps that erase one
  | stopBackground | revokeAll | abortTask | deleteSessions | deleteKv | deleteMemories =>
    unfold dataOf
    congr 1
    exact filter_erase_other hne

theorem dataOf_turnWrite (h : Sound owner s) (hown : owner sessionId = agentId)
    (hne : other ≠ agentId) (w : TurnWrite) :
    (w.apply agentId sessionId s).dataOf other = s.dataOf other := by
  cases w with
  | saveSession messages =>
    unfold dataOf
    congr 1
    refine filter_upsert_other hne (saveSession_owner h.kernel hown) fun x hx hkey => ?_
    rw [← (h.kernel.sessions x hx).2, hkey]
    exact hown
  | saveCanonical c =>
    unfold dataOf
    congr 1
    exact filter_upsert_other hne rfl fun p _ hkey => hkey
  | remember content =>
    unfold dataOf
    congr 1
    exact filter_append_other hne rfl
  | setKv key value =>
    unfold dataOf
    congr 1
    exact filter_upsert_other hne rfl fun row _ hkey => congrArg Prod.fst hkey
  | addJob name =>
    unfold dataOf
    congr 1
    exact filter_append_other hne rfl
  | recordUsage tokens toolCalls =>
    unfold dataOf
    congr 1
    exact filter_modify_other hne fun _ => rfl
  | setState state =>
    simp only [TurnWrite.apply]
    cases hupdate : s.kernel.registry.setState agentId state with
    | error e => rfl
    | ok registry =>
      obtain ⟨-, rfl⟩ := update_eq_ok_iff.1 hupdate
      unfold dataOf
      congr 1
      exact filter_modify_other hne fun _ => rfl

/-! ### Runs -/

theorem runEvents_turn (agentId : AgentId) (steps : List KillStep) (s : System)
    (sessionId : SessionId) (w : TurnWrite) (events : List Event) :
    runEvents agentId steps s (.turn sessionId w :: events) =
      runEvents agentId steps (w.apply agentId sessionId s) events := by
  cases steps with
  | nil => rfl
  | cons step steps => rfl

theorem clears_turn (steps : List KillStep) (sessionId : SessionId) (w : TurnWrite)
    (events : List Event) (place : Place) :
    Clears steps (.turn sessionId w :: events) place ↔ Clears steps events place := by
  cases steps with
  | nil => exact Iff.rfl
  | cons step steps => exact Iff.rfl

theorem followed_turn (steps : List KillStep) (sessionId : SessionId) (w : TurnWrite)
    (events : List Event) : Followed steps (.turn sessionId w :: events) ↔
      (∀ place, w.brings = some place → Clears steps events place) ∧ Followed steps events := by
  cases steps with
  | nil => exact Iff.rfl
  | cons step steps => exact Iff.rfl

/-- The turns write to sessions of the agent. -/
def OwnTurns (owner : SessionId → AgentId) (s : System) (agentId : AgentId) (events : List Event) :
    Prop :=
  ∀ sessionId w, Event.turn sessionId w ∈ events →
    sessionId < s.kernel.nextId ∧ owner sessionId = agentId

theorem OwnTurns.tail {event : Event} {events : List Event}
    (h : OwnTurns owner s agentId (event :: events)) (hnext : s.kernel.nextId ≤ s'.kernel.nextId) :
    OwnTurns owner s' agentId events := by
  intro sessionId w hmem
  obtain ⟨hlt, hown⟩ := h sessionId w (List.mem_cons_of_mem _ hmem)
  exact ⟨hlt.trans_le hnext, hown⟩

theorem Sound.attempt (h : Sound owner s) (agentId : AgentId) (step : KillStep) (ok : Bool) :
    Sound owner (step.attempt agentId ok s) ∧
      (step.attempt agentId ok s).kernel.nextId = s.kernel.nextId := by
  unfold KillStep.attempt
  split
  · exact ⟨h, rfl⟩
  · exact h.killStep agentId step

theorem nextId_turnWrite (s : System) (agentId : AgentId) (sessionId : SessionId) (w : TurnWrite) :
    s.kernel.nextId ≤ (w.apply agentId sessionId s).kernel.nextId := by
  cases w with
  | addJob name => exact Nat.le_succ _
  | setState state =>
    simp only [TurnWrite.apply]
    split
    · exact le_rfl
    · exact le_rfl
  | _ => exact le_rfl

/-- A run of sound states: the kill has nothing left to do, or does a step, or a turn writes. -/
theorem run_induction {motive : List KillStep → System → List Event → Prop}
    (nil : ∀ steps s, motive steps s [])
    (spent : ∀ s ok events, motive [] s events → motive [] s (.kill ok :: events))
    (kill : ∀ step steps s ok events, Sound owner s →
      motive steps (step.attempt agentId ok s) events →
        motive (step :: steps) s (.kill ok :: events))
    (turn : ∀ steps s sessionId w events, Sound owner s → owner sessionId = agentId →
      motive steps (w.apply agentId sessionId s) events →
        motive steps s (.turn sessionId w :: events))
    (steps : List KillStep) {events : List Event} (h : Sound owner s)
    (hagent : agentId < s.kernel.nextId) (hturns : OwnTurns owner s agentId events) :
    motive steps s events := by
  induction events generalizing s steps with
  | nil => exact nil steps s
  | cons event events ih =>
    cases event with
    | kill ok =>
      cases steps with
      | nil => exact spent s ok events (ih [] h hagent (hturns.tail le_rfl))
      | cons step steps =>
        obtain ⟨hsound, hnext⟩ := h.attempt agentId step ok
        exact kill step steps s ok events h (ih steps hsound (hnext ▸ hagent)
          (hturns.tail hnext.ge))
    | turn sessionId w =>
      obtain ⟨hlt, hown⟩ := hturns sessionId w List.mem_cons_self
      have hnext := nextId_turnWrite s agentId sessionId w
      exact turn steps s sessionId w events h hown (ih steps (h.turnWrite hagent hlt hown w)
        (hagent.trans_le hnext) (hturns.tail hnext))

/-- A kill and the turns of its agent leave the other agents alone. -/
theorem dataOf_runEvents {events : List Event} {steps : List KillStep} (h : Sound owner s)
    (hagent : agentId < s.kernel.nextId) (hturns : OwnTurns owner s agentId events)
    (hne : other ≠ agentId) :
    (runEvents agentId steps s events).dataOf other = s.dataOf other := by
  refine run_induction (motive := fun steps s events =>
    (runEvents agentId steps s events).dataOf other = s.dataOf other) (fun steps s => ?_)
    (fun s ok events ih => ih) (fun step steps s ok events h ih => ?_)
    (fun steps s sessionId w events h hown ih => ?_) steps h hagent hturns
  · cases steps with
    | nil => rfl
    | cons step steps => rfl
  · rw [runEvents, ih]
    unfold KillStep.attempt
    split
    · rfl
    · exact dataOf_killStep h hne step
  · rw [runEvents_turn, ih]
    exact dataOf_turnWrite h hown hne w

/-- What the agent has in the end: at each place what was there or was written and no step has
cleared since. -/
theorem owners_runEvents {events : List Event} {steps : List KillStep} (h : Sound owner s)
    (hagent : agentId < s.kernel.nextId) (hturns : OwnTurns owner s agentId events) :
    (∀ place : Place, agentId ∉ place.owners (runEvents agentId steps s events)) ↔
      (∀ place : Place, agentId ∉ place.owners s ∨ Clears steps events place) ∧
        Followed steps events := by
  refine run_induction (motive := fun steps s events =>
    (∀ place : Place, agentId ∉ place.owners (runEvents agentId steps s events)) ↔
      (∀ place : Place, agentId ∉ place.owners s ∨ Clears steps events place) ∧
        Followed steps events) (fun steps s => ?_)
    (fun s ok events ih => ih) (fun step steps s ok events h ih => ?_)
    (fun steps s sessionId w events h hown ih => ?_) steps h hagent hturns
  · cases steps with
    | nil => simp [runEvents, Clears, Followed]
    | cons step steps => simp [runEvents, Clears, Followed]
  · rw [runEvents, ih]
    refine and_congr_left fun _ => forall_congr' fun place => ?_
    -- what is left after this step was there and is not cleared now: it has to be later
    rw [owners_attempt h, not_and_not_right, Clears, ← or_assoc, imp_iff_not_or]
  · rw [runEvents_turn, ih, followed_turn, ← and_assoc, ← forall_and]
    refine and_congr_left fun _ => forall_congr' fun place => ?_
    -- what the write has brought has to be cleared later
    rw [owners_turnWrite h hown, clears_turn]
    tauto

/-- Nothing is left of an agent, and the others have what they had. -/
def Complete (s s' : System) (agentId : AgentId) : Prop :=
  (∀ place : Place, agentId ∉ place.owners s') ∧
    ∀ other, other ≠ agentId → s'.dataOf other = s.dataOf other

/-- At each place where the agent has something a step of the kill clears it and does not fail, and
so it is after each write of a turn. -/
def ClearedInTime (s : System) (agentId : AgentId) (events : List Event) : Prop :=
  (∀ place : Place, agentId ∈ place.owners s → Clears killSteps events place) ∧
    Followed killSteps events

/-- **When a kill is complete.**  In every state that a run reaches, a kill of a registered agent
and the turns of it that are in flight, in any order, leave nothing of the agent and all else as it
was just when everything is cleared in time. -/
theorem kill_complete_iff (cfg : KernelConfig) (ops : List Op) (agentId : AgentId)
    (i : Interleaving (run cfg ops) agentId)
    (hok : ((run cfg ops).killAgent agentId).1 = .ok ()) :
    Complete (run cfg ops) i.final agentId ↔ ClearedInTime (run cfg ops) agentId i.events := by
  obtain ⟨owner, h⟩ := run_wellFormed cfg ops
  have hagent : agentId < (run cfg ops).kernel.nextId := by
    unfold killAgent at hok
    cases hremove : (run cfg ops).kernel.registry.remove agentId with
    | error e =>
      rw [hremove] at hok
      cases hok
    | ok removed => exact (h.kernel.agent_lt (remove_eq_ok_iff.1 hremove).1).1
  have hturns : OwnTurns owner (run cfg ops) agentId i.events :=
    fun sessionId w hmem => (h.inFlight _ (i.turns sessionId w hmem)).2
  unfold Complete ClearedInTime Interleaving.final
  rw [owners_runEvents h hagent hturns, and_iff_left]
  · refine and_congr_left fun _ => forall_congr' fun place => ?_
    rw [imp_iff_not_or]
  · exact fun other hne => dataOf_runEvents h hagent hturns hne

/-- A kill that nothing comes between. -/
def undisturbed (s : System) (agentId : AgentId) : Interleaving s agentId where
  events := List.replicate killSteps.length (.kill true)
  turns sessionId w hmem := by cases List.eq_of_mem_replicate hmem
  returned := by decide

/-- A turn of the only agent saves its session before the kill begins. -/
def savedBefore : Interleaving (run plainConfig [spawnOne, .beginTurn 0]) 0 where
  events := .turn 1 (.saveSession []) :: List.replicate killSteps.length (.kill true)
  turns sessionId w hmem := by
    rcases List.mem_cons.1 hmem with heq | hmem
    · cases heq
      decide
    · cases List.eq_of_mem_replicate hmem
  returned := by decide

theorem kill_complete_savedBefore :
    ((run plainConfig [spawnOne, .beginTurn 0]).killAgent 0).1 = .ok () ∧
      Complete (run plainConfig [spawnOne, .beginTurn 0]) savedBefore.final 0 := by
  refine ⟨rfl, (kill_complete_iff plainConfig _ 0 savedBefore rfl).2 ⟨fun place hmem => ?_, ?_⟩⟩
  · revert hmem
    cases place <;> decide
  · decide

/-- The canonical session of an agent outlives it. -/
theorem kill_leaves_canonical :
    ¬ ∀ (cfg : KernelConfig) (ops : List Op) (agentId : AgentId)
        (i : Interleaving (run cfg ops) agentId), ((run cfg ops).killAgent agentId).1 = .ok () →
      Complete (run cfg ops) i.final agentId := by
  intro hall
  have hcomplete := hall plainConfig [spawnOne, .beginTurn 0, .turnWrite 0 1 (.saveCanonical {}),
    .endTurn 0 1] 0 (undisturbed _ 0) rfl
  have hnone := hcomplete.1 .canonical
  revert hnone
  decide

end System
end RustyHand
