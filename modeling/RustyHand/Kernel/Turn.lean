import RustyHand.Session.AgentLoop

/-!
# Turns and the canonical session

`rusty-hand-kernel/src/kernel.rs`, what `execute_llm_agent` and `send_message_streaming` do around
the agent loop: they remember how long the session was, run the loop, and pass what lies beyond that
length to `append_canonical`.

* `transcript`: what a turn says, read off the driver's answers alone;
* `canonicalSlice`: what is passed to `append_canonical`;
* `visits`: the turns of a run, each with the session it began with;
* `canonicalSlice_eq_pushed_iff`: when a turn passes on what it pushed.
-/

namespace RustyHand
namespace Turn

open AgentLoop

/-! ### What a turn says -/

/-- The messages after the user's that a turn comes to, round by round, and whether it ends with an
answer that is neither silent nor cut short. -/
def transcript (answers : ℕ → Answer) : (fuel iteration consecutive : ℕ) → List Message × Bool
  | 0, _, _ => ([], false)
  | fuel + 1, iteration, consecutive =>
    match answers iteration with
    | .failed _ => ([], false)
    | .endTurn text silent hasToolCalls =>
      if Text.trim text = "NO_REPLY" || silent then ([.assistant "[no reply needed]"], false)
      else if Text.isBlank text && iteration = 0 && !hasToolCalls then
        transcript answers fuel (iteration + 1) consecutive
      else ([.assistant (finalAnswer iteration text)], true)
    | .toolUse blocks (.error _) => ([⟨.assistant, .blocks blocks⟩], false)
    | .toolUse blocks (.ok results) =>
      let rest := transcript answers fuel (iteration + 1) 0
      (⟨.assistant, .blocks blocks⟩ :: ⟨.user, .blocks results⟩ :: rest.1, rest.2)
    | .maxTokens text =>
      if maxContinuations ≤ consecutive + 1 then ([.assistant (partialAnswer text)], false)
      else
        let rest := transcript answers fuel (iteration + 1) (consecutive + 1)
        (.assistant text :: rest.1, rest.2)

end Turn

/-- A turn: the limit on rounds, the driver's answers, and the message of the user. -/
structure Turn where
  max : ℕ
  answers : ℕ → AgentLoop.Answer
  userMessage : String

namespace Turn

open AgentLoop

def run (t : Turn) (history : List Message) : LoopResult :=
  runAgentLoop t.max t.answers history t.userMessage

/-- The messages the turn adds to any session. -/
def messages (t : Turn) : List Message :=
  .user t.userMessage :: (transcript t.answers t.max 0 0).1

/-- Does the turn end with an answer that is neither silent nor cut short? -/
def spoken (t : Turn) : Bool := (transcript t.answers t.max 0 0).2

theorem rounds_eq_transcript (max : ℕ) (answers : ℕ → Answer) (history : List Message)
    (fuel iteration consecutive : ℕ) (pushed : List Message) (saves : List (List Message)) :
    (rounds max answers history fuel iteration consecutive pushed saves).pushed =
        pushed ++ (transcript answers fuel iteration consecutive).1 ∧
      (rounds max answers history fuel iteration consecutive pushed saves).pruned =
        (transcript answers fuel iteration consecutive).2 := by
  -- on the rounds left; what was pushed and saved before is carried along
  induction fuel generalizing iteration consecutive pushed saves with
  | zero => exact ⟨(List.append_nil pushed).symm, rfl⟩
  | succ fuel ih =>
    rw [rounds, transcript]
    cases answers iteration with
    | failed error => exact ⟨(List.append_nil pushed).symm, rfl⟩
    | endTurn text silent hasToolCalls =>
      dsimp only
      split_ifs
      · exact ⟨rfl, rfl⟩
      · exact ih ..
      · exact ⟨rfl, rfl⟩
    | toolUse blocks results =>
      cases results with
      | error error => exact ⟨rfl, rfl⟩
      | ok results =>
        dsimp only
        obtain ⟨hpushed, hpruned⟩ := ih (iteration + 1) 0
          (pushed ++ [⟨.assistant, .blocks blocks⟩] ++ [⟨.user, .blocks results⟩])
          (saves ++ [history ++
            (pushed ++ [⟨.assistant, .blocks blocks⟩] ++ [⟨.user, .blocks results⟩])])
        refine ⟨?_, hpruned⟩
        rw [hpushed]
        simp
    | maxTokens text =>
      dsimp only
      split_ifs
      · exact ⟨rfl, rfl⟩
      · obtain ⟨hpushed, hpruned⟩ := ih (iteration + 1) (consecutive + 1)
          (pushed ++ [.assistant text]) saves
        refine ⟨?_, hpruned⟩
        rw [hpushed]
        simp

theorem run_pushed (t : Turn) (history : List Message) : (t.run history).pushed = t.messages :=
  (rounds_eq_transcript ..).1

theorem run_pruned (t : Turn) (history : List Message) : (t.run history).pruned = t.spoken :=
  (rounds_eq_transcript ..).2

theorem run_messages (t : Turn) (history : List Message) :
    (t.run history).messages =
      if t.spoken then pruneHeartbeatTurns (history ++ t.messages) keepRecent
      else history ++ t.messages := by
  rw [← t.run_pushed history, ← t.run_pruned history]
  exact (leaves_runAgentLoop t.max t.answers history t.userMessage).messages

/-! ### What is passed on -/

/-- The slice of the session after the loop that is passed to `append_canonical`, `before` being the
length the session had; nothing is passed on if the session did not grow. -/
def canonicalSlice (before : ℕ) (session : List Message) : List Message :=
  if before < session.length then session.drop before else []

/-- The turn prunes nothing: it does not end with an answer of its own, or all messages but the last
ten, its own included, are free of `NO_REPLY` turns. -/
def Quiet (t : Turn) (history : List Message) : Prop :=
  t.spoken = true → ¬ HasOldHeartbeat (history ++ t.messages) keepRecent

theorem length_canonicalSlice_le (before : ℕ) (session : List Message) :
    (canonicalSlice before session).length ≤ session.length - before := by
  unfold canonicalSlice
  split_ifs
  · rw [List.length_drop]
  · exact Nat.zero_le _

theorem canonicalSlice_append {history added : List Message} (h : added ≠ []) :
    canonicalSlice history.length (history ++ added) = added := by
  have hpos := List.length_pos_iff.2 h
  rw [canonicalSlice, if_pos (by rw [List.length_append]; omega), List.drop_left]

/-- A turn passes on what it pushed just if it prunes nothing. -/
theorem canonicalSlice_eq_messages_iff (t : Turn) (history : List Message) :
    canonicalSlice history.length (t.run history).messages = t.messages ↔ t.Quiet history := by
  have hne : t.messages ≠ [] := List.cons_ne_nil _ _
  rw [run_messages]
  constructor
  · intro heq hspoken hold
    rw [if_pos hspoken] at heq
    have hlt := length_pruneHeartbeatTurns_lt hold
    have hle := length_canonicalSlice_le history.length
      (pruneHeartbeatTurns (history ++ t.messages) keepRecent)
    have hpos := List.length_pos_iff.2 hne
    rw [heq] at hle
    rw [List.length_append] at hlt
    omega
  · intro hquiet
    split_ifs with hspoken
    · rw [pruneHeartbeatTurns_eq_self (hquiet hspoken)]
      exact canonicalSlice_append hne
    · exact canonicalSlice_append hne

/-! ### Runs -/

/-- The session that the next turn loads: what the loop saved last. -/
def persisted (history : List Message) (r : LoopResult) : List Message :=
  r.saves.getLast?.getD history

/-- A step of a run: a turn, or any other call that replaces the session's messages, as compaction
and a reset do. -/
inductive Step
  | turn (t : Turn)
  | replaced (messages : List Message)

def Step.session (history : List Message) : Step → List Message
  | .turn t => persisted history (t.run history)
  | .replaced messages => messages

/-- The turns of a run, each with the session that it loaded. -/
def visits : List Message → List Step → List (Turn × List Message)
  | _, [] => []
  | history, .turn t :: steps =>
    (t, history) :: visits ((Step.turn t).session history) steps
  | history, .replaced messages :: steps => visits ((Step.replaced messages).session history) steps

/-- Did the turn return an answer? -/
def Succeeds (t : Turn) (history : List Message) : Prop := ∃ s, (t.run history).response = .ok s

theorem succeeds_of_spoken {t : Turn} {history : List Message} (h : t.spoken = true) :
    t.Succeeds history := by
  suffices hrounds : ∀ (fuel iteration consecutive : ℕ) (pushed : List Message)
      (saves : List (List Message)), (transcript t.answers fuel iteration consecutive).2 = true →
      ∃ s, (rounds t.max t.answers history fuel iteration consecutive pushed saves).response =
        .ok s from hrounds _ _ _ _ _ h
  intro fuel
  induction fuel with
  | zero =>
    intro _ _ _ _ h
    cases h
  | succ fuel ih =>
    intro iteration consecutive pushed saves h
    rw [transcript] at h
    rw [rounds]
    cases hanswer : t.answers iteration with
    | failed error =>
      rw [hanswer] at h
      cases h
    | endTurn text silent hasToolCalls =>
      rw [hanswer] at h
      dsimp only at h ⊢
      split_ifs at h ⊢
      · exact ih _ _ _ _ h
      · exact ⟨_, rfl⟩
    | toolUse blocks results =>
      rw [hanswer] at h
      cases results with
      | error error => cases h
      | ok results => exact ih _ _ _ _ h
    | maxTokens text =>
      rw [hanswer] at h
      dsimp only at h ⊢
      split_ifs at h ⊢
      exact ih _ _ _ _ h

/-- **What the canonical session is given.**  In a run every successful turn passes on the messages
it added, each once, just if every turn of the run is quiet. -/
theorem forall_canonicalSlice_eq_iff (history : List Message) (steps : List Step) :
    (∀ v ∈ visits history steps, v.1.Succeeds v.2 →
        canonicalSlice v.2.length (v.1.run v.2).messages = (v.1.run v.2).pushed) ↔
      ∀ v ∈ visits history steps, v.1.Quiet v.2 := by
  constructor
  · intro h v hv hspoken
    have heq := h v hv (succeeds_of_spoken hspoken)
    rw [run_pushed] at heq
    exact (canonicalSlice_eq_messages_iff v.1 v.2).1 heq hspoken
  · intro h v hv _
    rw [run_pushed]
    exact (canonicalSlice_eq_messages_iff v.1 v.2).2 (h v hv)

/-- A session with a heartbeat turn ten messages ago. -/
def heartbeatHistory : List Message :=
  [.user "tick", .assistant "[no reply needed]"] ++
    (List.replicate 4 [Message.user "hi", .assistant "hello"]).flatten

/-- A turn that answers at once. -/
def plainTurn : Turn where
  max := 50
  answers := fun _ => .endTurn "fine" false false
  userMessage := "how are you?"

/-- The turn after it prunes the heartbeat, and its own messages are not passed on. -/
theorem exists_not_passed_on :
    ∃ v ∈ visits heartbeatHistory [.turn plainTurn], v.1.Succeeds v.2 ∧
      canonicalSlice v.2.length (v.1.run v.2).messages ≠ (v.1.run v.2).pushed := by
  refine ⟨(plainTurn, heartbeatHistory), List.mem_singleton.2 rfl, ?_, ?_⟩
  · have hspoken : plainTurn.spoken = true := by decide
    exact succeeds_of_spoken hspoken
  · rw [run_pushed]
    intro heq
    refine (canonicalSlice_eq_messages_iff plainTurn heartbeatHistory).1 heq (by decide) ?_
    exact ⟨1, by decide, .assistant "[no reply needed]", rfl, rfl, by decide⟩

end Turn
end RustyHand
