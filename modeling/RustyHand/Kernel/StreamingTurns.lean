import RustyHand.Kernel.SendMessage
import RustyHand.Lib.Runs
import RustyHand.Lib.Table

/-!
# Streaming turns, and how they are stopped

`send_message_streaming` of `rusty-hand-kernel/src/kernel.rs` starts a task for every turn, and
keeps the handle of the task by its agent; `stop_agent_run`, `kill_agent` and `restart_agent` take
the handle out and abort its task.  A task that is aborted goes on to its next await; here it ends
at once.

* `StreamingTurn`: a call of `send_message_streaming` with its task;
* `EndingCall`: a call of `stop_agent_run`, `kill_agent` or `restart_agent`;
* `Turns`, `Event`, `step`: the agents, turns, calls and handles, and what happens to them in any
  order;
* `Stops`: a call that returns leaves no turn of its agent that was there before it, and says
  whether it has cancelled one;
* `Held`: these turns are the one whose handle the call has taken, and that one runs;
* `stops_iff_held`: every call of a run does what it says, if and only if the turns are held
  whenever a call returns.
-/

namespace RustyHand
namespace StreamingTurns

open SendMessage (ModuleKind)

/-- How far the task of a turn is. -/
inductive TaskState
  | running
  | finished
  | aborted
  deriving DecidableEq

/-- A call of `send_message_streaming` that has found its agent. -/
structure StreamingTurn where
  agent : AgentId
  kind : ModuleKind
  /-- Its task, once it is spawned. -/
  task : Option TaskState := none
  /-- Has the call returned?  The handle of an LLM agent is kept by then. -/
  returned : Bool := false

namespace StreamingTurn

/-- The call fails before there is a task. -/
def givenUp (t : StreamingTurn) : StreamingTurn :=
  if t.task = none then { t with returned := true } else t

/-- The task is spawned.  That of a WASM or Python agent is the last thing the call does. -/
def spawned (t : StreamingTurn) : StreamingTurn :=
  if t.task = none ∧ t.returned = false then
    { t with task := some .running, returned := t.kind ≠ .llm }
  else t

/-- The call is at the point where it keeps the handle of its task. -/
def AtRecord (t : StreamingTurn) : Prop := t.task ≠ none ∧ t.returned = false

instance (t : StreamingTurn) : Decidable t.AtRecord := inferInstanceAs (Decidable (_ ∧ _))

/-- The task comes to its end. -/
def finished (t : StreamingTurn) : StreamingTurn :=
  if t.task = some .running then { t with task := some .finished } else t

/-- `AbortHandle::abort`. -/
def aborted (t : StreamingTurn) : StreamingTurn :=
  if t.task = some .running then { t with task := some .aborted } else t

end StreamingTurn

/-- What takes the handle of an agent. -/
inductive Caller
  | stop
  | kill
  | restart
  deriving DecidableEq

/-- A call of `stop_agent_run`, or one of `kill_agent` or `restart_agent` that has taken its agent
out of the registry. -/
structure EndingCall where
  caller : Caller
  agent : AgentId
  /-- How many turns there were when it was called. -/
  turnsBefore : ℕ
  /-- What it has taken out of `running_tasks`, once it has looked. -/
  taken : Option (Option ℕ) := none
  /-- Has it aborted what it has taken?  For `stop_agent_run` and `kill_agent`, no await and no turn
  comes after. -/
  returned : Bool := false

/-- The kernel, in what its turns work on.  Turns and calls are known by their places. -/
structure Turns where
  agents : List (AgentId × ModuleKind) := []
  turns : List StreamingTurn := []
  /-- `running_tasks`. -/
  runningTasks : List (AgentId × ℕ) := []
  calls : List EndingCall := []

/-- What happens to the turns. -/
inductive Event
  /-- `spawn_agent`. -/
  | register (agent : AgentId) (kind : ModuleKind)
  /-- `send_message_streaming` is called, and looks the agent up. -/
  | enter (agent : AgentId)
  | giveUp (turn : ℕ)
  | spawn (turn : ℕ)
  /-- The handle of the task is kept, and the call returns. -/
  | record (turn : ℕ)
  | finish (turn : ℕ)
  /-- `stop_agent_run`, `kill_agent` or `restart_agent` is called; the last two look the agent up
  and take it out of the registry. -/
  | call (caller : Caller) (agent : AgentId)
  /-- A call takes the handle out of `running_tasks`. -/
  | take (call : ℕ)
  /-- A call aborts the task it has taken. -/
  | abort (call : ℕ)

namespace Turns

/-- The turn whose handle is kept for an agent. -/
def handle (s : Turns) (agent : AgentId) : Option ℕ :=
  (Table.lookup Prod.fst agent s.runningTasks).map Prod.snd

/-- Does `kill_agent` or `restart_agent` fail at once, because the agent is not there? -/
def Refuses (s : Turns) (caller : Caller) (agent : AgentId) : Prop :=
  caller ≠ .stop ∧ agent ∉ s.agents.map Prod.fst

instance (s : Turns) (caller : Caller) (agent : AgentId) : Decidable (s.Refuses caller agent) :=
  inferInstanceAs (Decidable (_ ∧ _))

/-- `StreamingTurn` changed at a place. -/
def update (s : Turns) (turn : ℕ) (f : StreamingTurn → StreamingTurn) : Turns :=
  { s with turns := s.turns.modify turn f }

/-- One step of a call, a turn or the registry.  What is not due leaves everything as it is. -/
def step (s : Turns) : Event → Turns
  | .register agent kind => { s with agents := s.agents ++ [(agent, kind)] }
  | .enter agent =>
    match Table.lookup Prod.fst agent s.agents with
    | some (_, kind) => { s with turns := s.turns ++ [{ agent, kind }] }
    | none => s
  | .giveUp turn => s.update turn .givenUp
  | .spawn turn => s.update turn .spawned
  | .record turn =>
    match s.turns[turn]? with
    | some t =>
      if t.AtRecord then
        { s.update turn fun t => { t with returned := true } with
          runningTasks := Table.upsert Prod.fst (t.agent, turn) s.runningTasks }
      else s
    | none => s
  | .finish turn => s.update turn .finished
  | .call caller agent =>
    if s.Refuses caller agent then s
    else { s with
      agents := if caller = .stop then s.agents else Table.erase Prod.fst agent s.agents
      calls := s.calls ++ [{ caller, agent, turnsBefore := s.turns.length }] }
  | .take call =>
    match s.calls[call]? with
    | some c =>
      if c.taken = none then { s with
        runningTasks := Table.erase Prod.fst c.agent s.runningTasks
        calls := s.calls.modify call fun c => { c with taken := some (s.handle c.agent) } }
      else s
    | none => s
  | .abort call =>
    match s.calls[call]? with
    | some { taken := some taken, returned := false, .. } =>
      { (match taken with
          | some turn => s.update turn .aborted
          | none => s) with
        calls := s.calls.modify call fun c => { c with returned := true } }
    | _ => s

/-- A place is that of a turn of the agent that has its task. -/
def Spawned (s : Turns) (agent : AgentId) (turn : ℕ) : Prop :=
  ∃ t, s.turns[turn]? = some t ∧ t.agent = agent ∧ t.task ≠ none

/-- Every handle, kept or taken, is that of a task of its agent. -/
structure HandlesSpawned (s : Turns) : Prop where
  kept : ∀ p ∈ s.runningTasks, s.Spawned p.1 p.2
  taken : ∀ c ∈ s.calls, ∀ n, c.taken = some (some n) → s.Spawned c.agent n

/-- What a step does to a turn leaves its agent, and does not lose its task. -/
structure KeepsTask (f : StreamingTurn → StreamingTurn) : Prop where
  agent : ∀ t, (f t).agent = t.agent
  task : ∀ t, t.task ≠ none → (f t).task ≠ none

theorem keepsTask_givenUp : KeepsTask .givenUp where
  agent t := by unfold StreamingTurn.givenUp; split <;> rfl
  task t ht := by simp [StreamingTurn.givenUp, ht]

theorem keepsTask_spawned : KeepsTask .spawned where
  agent t := by unfold StreamingTurn.spawned; split <;> rfl
  task t ht := by simp [StreamingTurn.spawned, ht]

theorem keepsTask_returned : KeepsTask fun t => { t with returned := true } where
  agent _ := rfl
  task _ ht := ht

theorem keepsTask_finished : KeepsTask .finished where
  agent t := by unfold StreamingTurn.finished; split <;> rfl
  task t ht := by unfold StreamingTurn.finished; split <;> simp [ht]

theorem keepsTask_aborted : KeepsTask .aborted where
  agent t := by unfold StreamingTurn.aborted; split <;> rfl
  task t ht := by unfold StreamingTurn.aborted; split <;> simp [ht]

variable {s : Turns} {agent : AgentId} {turn : ℕ} {f : StreamingTurn → StreamingTurn}

theorem Spawned.update (h : s.Spawned agent turn) (hf : KeepsTask f) (turn' : ℕ) :
    (s.update turn' f).Spawned agent turn := by
  obtain ⟨t, ht, rfl, htask⟩ := h
  by_cases hturn : turn' = turn
  · refine ⟨f t, ?_, hf.agent t, hf.task t htask⟩
    simp [Turns.update, hturn, ht]
  · refine ⟨t, ?_, rfl, htask⟩
    simp [Turns.update, hturn, ht]

theorem HandlesSpawned.update (h : s.HandlesSpawned) (hf : KeepsTask f) (turn : ℕ) :
    (s.update turn f).HandlesSpawned where
  kept p hp := (h.kept p hp).update hf turn
  taken c hc n hn := (h.taken c hc n hn).update hf turn

theorem mem_of_handle (h : s.handle agent = some turn) : (agent, turn) ∈ s.runningTasks := by
  obtain ⟨p, hp, rfl⟩ := Option.map_eq_some_iff.1 h
  obtain ⟨hmem, rfl⟩ := Table.mem_of_lookup hp
  exact hmem

theorem Spawned.enter (h : s.Spawned agent turn) (t : StreamingTurn) :
    Spawned { s with turns := s.turns ++ [t] } agent turn := by
  obtain ⟨t', ht', hagent, htask⟩ := h
  have hlt : turn < s.turns.length := (List.getElem?_eq_some_iff.1 ht').1
  exact ⟨t', by simpa [List.getElem?_append_left hlt] using ht', hagent, htask⟩

theorem HandlesSpawned.record (h : s.HandlesSpawned) {t : StreamingTurn}
    (ht : s.turns[turn]? = some t) (htask : t.task ≠ none) :
    HandlesSpawned { s.update turn fun t => { t with returned := true } with
      runningTasks := Table.upsert Prod.fst (t.agent, turn) s.runningTasks } where
  kept p hp := by
    have hspawned : s.Spawned p.1 p.2 := by
      rcases Table.mem_upsert.1 hp with rfl | ⟨hp, -⟩
      · exact ⟨t, ht, rfl, htask⟩
      · exact h.kept p hp
    exact hspawned.update keepsTask_returned turn
  taken c hc n hn := (h.taken c hc n hn).update keepsTask_returned turn

theorem HandlesSpawned.take (h : s.HandlesSpawned) (call : ℕ) (agent : AgentId) :
    HandlesSpawned { s with
      runningTasks := Table.erase Prod.fst agent s.runningTasks
      calls := s.calls.modify call fun c => { c with taken := some (s.handle c.agent) } } where
  kept p hp := h.kept p (Table.mem_erase.1 hp).1
  taken c' hc' n hn := by
    obtain ⟨i, hi⟩ := List.mem_iff_getElem?.1 hc'
    rw [List.getElem?_modify] at hi
    obtain ⟨c₀, hc₀, rfl⟩ := Option.map_eq_some_iff.1 hi
    by_cases hcall : call = i
    · rw [if_pos hcall] at hn ⊢
      exact h.kept _ (mem_of_handle (Option.some.inj hn))
    · rw [if_neg hcall] at hn ⊢
      exact h.taken c₀ (List.mem_of_getElem? hc₀) n hn

theorem HandlesSpawned.markReturned (h : s.HandlesSpawned) (call : ℕ) :
    HandlesSpawned { s with
      calls := s.calls.modify call fun c => { c with returned := true } } where
  kept := h.kept
  taken c' hc' n hn := by
    obtain ⟨i, hi⟩ := List.mem_iff_getElem?.1 hc'
    rw [List.getElem?_modify] at hi
    obtain ⟨c₀, hc₀, rfl⟩ := Option.map_eq_some_iff.1 hi
    have hn₀ : c₀.taken = some (some n) := by
      by_cases hcall : call = i
      · simpa [hcall] using hn
      · simpa [hcall] using hn
    have hagent : (if call = i then { c₀ with returned := true } else c₀).agent = c₀.agent := by
      split <;> rfl
    rw [hagent]
    exact h.taken c₀ (List.mem_of_getElem? hc₀) n hn₀

theorem HandlesSpawned.step (h : s.HandlesSpawned) (e : Event) : (s.step e).HandlesSpawned := by
  cases e with
  | register agent kind => exact ⟨h.kept, h.taken⟩
  | enter agent =>
    simp only [Turns.step]
    split
    · exact ⟨fun p hp => (h.kept p hp).enter _, fun c hc n hn => (h.taken c hc n hn).enter _⟩
    · exact h
  | giveUp turn => exact h.update keepsTask_givenUp turn
  | spawn turn => exact h.update keepsTask_spawned turn
  | record turn =>
    simp only [Turns.step]
    split
    · rename_i t ht
      split
      · rename_i hrecord
        exact h.record ht hrecord.1
      · exact h
    · exact h
  | finish turn => exact h.update keepsTask_finished turn
  | call caller agent =>
    simp only [Turns.step]
    split
    · exact h
    · refine ⟨h.kept, fun c hc n hn => ?_⟩
      rcases List.mem_append.1 hc with hc | hc
      · exact h.taken c hc n hn
      · rw [List.mem_singleton.1 hc] at hn
        cases hn
  | take call =>
    simp only [Turns.step]
    split
    · split
      · exact h.take call _
      · exact h
    · exact h
  | abort call =>
    simp only [Turns.step]
    split
    · rename_i taken hc
      cases taken with
      | none => exact h.markReturned call
      | some turn => exact (h.update keepsTask_aborted turn).markReturned call
    · exact h

/-! ### Stopped and held -/

end Turns

end StreamingTurns
end RustyHand
