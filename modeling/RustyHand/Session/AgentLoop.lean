import RustyHand.Types.Message
import RustyHand.Types.Text
import RustyHand.Lib.DescendingEdits

/-!
# The agent loop

`rusty-hand-runtime/src/agent_loop.rs`, what `run_agent_loop` and `run_agent_loop_streaming` do to
the session, which is the same in both, and `prune_heartbeat_turns` of `session_repair.rs`.

The requests are not modelled: overflow recovery and the context guard change the request's copy of
the history only, and a driver may answer anything in any round.  `Answer` is what a round of the
loop makes of an answer, after tool calls in the text are recovered and directives are parsed.

* `pruneHeartbeatTurns`;
* `runAgentLoop`: the session after the loop, what it saved on the way, and what it returns.
-/

namespace RustyHand
namespace AgentLoop

open DescendingErase

/-! ### Heartbeat turns -/

def isNoReplyText (text : String) : Bool :=
  Text.trim text = "NO_REPLY" || Text.trim text = "[no reply needed]"

/-- Does the content say that there is no reply? -/
def isNoReply : MessageContent → Bool
  | .text text => isNoReplyText text
  | .blocks [.text text] => isNoReplyText text
  | .blocks _ => false

/-- A turn without a reply neither uses tools nor answers uses. -/
theorem isNoReply_ids {m : Message} (h : isNoReply m.content = true) :
    m.useIds = [] ∧ m.resultIds = [] := by
  obtain ⟨role, content⟩ := m
  match content, h with
  | .text s, _ => exact ⟨rfl, rfl⟩
  | .blocks [.text s], _ => exact ⟨rfl, rfl⟩

/-- The index of a `NO_REPLY` turn and of the user message before it, for one index. -/
def heartbeatAt (messages : List Message) (i : ℕ) : List ℕ :=
  match messages[i]? with
  | none => []
  | some m =>
    if m.role = .assistant ∧ isNoReply m.content = true then
      i :: (if 0 < i ∧ (messages[i - 1]?).map Message.role = some .user then [i - 1] else [])
    else []

/-- `to_remove`: what is pruned, but for the order. -/
def toRemove (messages : List Message) (keepRecent : ℕ) : List ℕ :=
  (List.range (messages.length - keepRecent)).flatMap (heartbeatAt messages)

/-- `prune_heartbeat_turns`. -/
def pruneHeartbeatTurns (messages : List Message) (keepRecent : ℕ) : List Message :=
  if messages.length ≤ keepRecent then messages
  else eraseAll (toRemove messages keepRecent) messages

/-- Some turn old enough to be pruned has no reply. -/
def HasOldHeartbeat (messages : List Message) (keepRecent : ℕ) : Prop :=
  ∃ i, i + keepRecent < messages.length ∧ ∃ m, messages[i]? = some m ∧ m.role = .assistant ∧
    isNoReply m.content = true

/-! ### The loop -/

/-- `MAX_CONTINUATIONS`. -/
def maxContinuations : ℕ := 5

/-- The number of recent messages the loop keeps from pruning. -/
def keepRecent : ℕ := 10

/-- What a round of the loop does with the driver's answer. -/
inductive Answer
  /-- The call failed. -/
  | failed (error : String)
  /-- `EndTurn` or `StopSequence`: the text without its directives, whether one of them is silent,
  and whether the answer came with tool calls. -/
  | endTurn (text : String) (silent hasToolCalls : Bool)
  /-- `ToolUse`: the answer's blocks, and the results, unless the circuit breaker stopped them. -/
  | toolUse (blocks : List ContentBlock) (results : Except String (List ContentBlock))
  /-- `MaxTokens`: the text so far. -/
  | maxTokens (text : String)

/-- What the loop returns and leaves.  `pushed` is what it pushed to the session's messages, and
`pruned` whether it pruned them in the end. -/
structure LoopResult where
  response : Except String String
  messages : List Message
  saves : List (List Message)
  pushed : List Message
  pruned : Bool

/-- The text that stands in for an empty final answer. -/
def emptyAnswer (iteration : ℕ) : String :=
  if 0 < iteration then
    "[Task completed — the agent executed tools but did not produce a text summary.]"
  else
    "[The model returned an empty response. This usually means the model is overloaded, the " ++
      "context is too large, or the API key lacks credits. Try again or check /status.]"

/-- The final answer of a turn. -/
def finalAnswer (iteration : ℕ) (text : String) : String :=
  if Text.isBlank text then emptyAnswer iteration else text

/-- The answer of a turn that ran into the token limit too often. -/
def partialAnswer (text : String) : String :=
  if Text.isBlank text then "[Partial response — token limit reached with no text output.]"
  else text

/-- The rounds of the loop: `fuel` of `max` are still to come, `history` is the session before the
loop, `pushed` what was pushed to it, and `saves` what was saved. -/
def rounds (max : ℕ) (answers : ℕ → Answer) (history : List Message) :
    (fuel iteration consecutive : ℕ) → (pushed : List Message) → (saves : List (List Message)) →
    LoopResult
  | 0, _, _, pushed, saves =>
    { response := .error ("Max iterations exceeded: " ++ toString max)
      messages := history ++ pushed, saves := saves ++ [history ++ pushed], pushed := pushed,
      pruned := false }
  | fuel + 1, iteration, consecutive, pushed, saves =>
    match answers iteration with
    | .failed error =>
      { response := .error error, messages := history ++ pushed, saves := saves
        pushed := pushed, pruned := false }
    | .endTurn text silent hasToolCalls =>
      if Text.trim text = "NO_REPLY" || silent then
        let pushed := pushed ++ [.assistant "[no reply needed]"]
        { response := .ok "", messages := history ++ pushed, saves := saves ++ [history ++ pushed]
          pushed := pushed, pruned := false }
      else if Text.isBlank text && iteration = 0 && !hasToolCalls then
        rounds max answers history fuel (iteration + 1) consecutive pushed saves
      else
        let pushed := pushed ++ [.assistant (finalAnswer iteration text)]
        let messages := pruneHeartbeatTurns (history ++ pushed) keepRecent
        { response := .ok (finalAnswer iteration text), messages := messages
          saves := saves ++ [messages], pushed := pushed, pruned := true }
    | .toolUse blocks results =>
      let pushed := pushed ++ [⟨.assistant, .blocks blocks⟩]
      match results with
      | .error error =>
        { response := .error error, messages := history ++ pushed
          saves := saves ++ [history ++ pushed], pushed := pushed, pruned := false }
      | .ok results =>
        let pushed := pushed ++ [⟨.user, .blocks results⟩]
        rounds max answers history fuel (iteration + 1) 0 pushed (saves ++ [history ++ pushed])
    | .maxTokens text =>
      if maxContinuations ≤ consecutive + 1 then
        let pushed := pushed ++ [.assistant (partialAnswer text)]
        { response := .ok (partialAnswer text), messages := history ++ pushed
          saves := saves ++ [history ++ pushed], pushed := pushed, pruned := false }
      else
        rounds max answers history fuel (iteration + 1) (consecutive + 1)
          (pushed ++ [.assistant text]) saves

/-- `run_agent_loop` and `run_agent_loop_streaming`, for at most `max` rounds. -/
def runAgentLoop (max : ℕ) (answers : ℕ → Answer) (history : List Message) (userMessage : String) :
    LoopResult :=
  rounds max answers history max 0 0 [.user userMessage] []

/-! ### What pruning removes -/

theorem mem_heartbeatAt {messages : List Message} {i k : ℕ} (hk : k ∈ heartbeatAt messages i) :
    k ≤ i ∧ ∃ m, messages[i]? = some m ∧ m.role = .assistant ∧ isNoReply m.content = true := by
  unfold heartbeatAt at hk
  split at hk
  · cases hk
  · next m hm =>
    split_ifs at hk with hno hprev
    · refine ⟨?_, m, hm, hno⟩
      rcases List.mem_cons.1 hk with rfl | hk
      · exact le_rfl
      · rw [List.mem_singleton.1 hk]
        exact Nat.sub_le i 1
    · rw [List.mem_singleton.1 hk]
      exact ⟨le_rfl, m, hm, hno⟩
    · cases hk

theorem mem_toRemove {messages : List Message} {keep k : ℕ} (hk : k ∈ toRemove messages keep) :
    k < messages.length - keep ∧ HasOldHeartbeat messages keep := by
  obtain ⟨i, hi, hk⟩ := List.mem_flatMap.1 hk
  rw [List.mem_range] at hi
  obtain ⟨hle, h⟩ := mem_heartbeatAt hk
  exact ⟨by omega, i, by omega, h⟩

theorem toRemove_ne_nil_iff {messages : List Message} {keep : ℕ} :
    toRemove messages keep ≠ [] ↔ HasOldHeartbeat messages keep := by
  constructor
  · intro hne
    obtain ⟨k, hk⟩ := List.exists_mem_of_ne_nil _ hne
    exact (mem_toRemove hk).2
  · rintro ⟨i, hi, m, hm, hrole, hno⟩
    have hmem : i ∈ toRemove messages keep := by
      refine List.mem_flatMap.2 ⟨i, List.mem_range.2 (by omega), ?_⟩
      rw [heartbeatAt, hm]
      dsimp only
      rw [if_pos ⟨hrole, hno⟩]
      exact List.mem_cons_self
    exact List.ne_nil_of_mem hmem

/-- Pruning shortens a session with an old heartbeat, and leaves any other as it is. -/
theorem length_pruneHeartbeatTurns_lt {messages : List Message} {keep : ℕ}
    (h : HasOldHeartbeat messages keep) :
    (pruneHeartbeatTurns messages keep).length < messages.length := by
  obtain ⟨i, hi, _⟩ := id h
  rw [pruneHeartbeatTurns, if_neg (by omega)]
  have hlen : (eraseAll (toRemove messages keep) messages).length +
      (DescendingInsert.descendingKeys (toRemove messages keep)).length = messages.length := by
    apply length_eraseAll
    intro k hk
    have := (mem_toRemove hk).1
    omega
  have hpos : 0 < (DescendingInsert.descendingKeys (toRemove messages keep)).length := by
    rw [List.length_pos_iff, Ne, descendingKeys_eq_nil_iff]
    exact toRemove_ne_nil_iff.2 h
  omega

theorem pruneHeartbeatTurns_eq_self {messages : List Message} {keep : ℕ}
    (h : ¬ HasOldHeartbeat messages keep) : pruneHeartbeatTurns messages keep = messages := by
  unfold pruneHeartbeatTurns
  split_ifs
  · rfl
  · rw [not_not.1 (mt toRemove_ne_nil_iff.1 h)]
    rfl

/-! ### What the loop leaves -/

/-- What holds of a result of the loop that began with `history` and `pushed`. -/
structure Leaves (history pushed : List Message) (r : LoopResult) : Prop where
  messages : r.messages = if r.pruned then pruneHeartbeatTurns (history ++ r.pushed) keepRecent
    else history ++ r.pushed
  pushed : pushed <+: r.pushed

theorem Leaves.weaken {history pushed pushed' : List Message} {r : LoopResult}
    (h : Leaves history pushed' r) (hpre : pushed <+: pushed') : Leaves history pushed r :=
  ⟨h.messages, hpre.trans h.pushed⟩

theorem leaves_rounds (max : ℕ) (answers : ℕ → Answer) (history : List Message)
    (fuel iteration consecutive : ℕ) (pushed : List Message) (saves : List (List Message)) :
    Leaves history pushed (rounds max answers history fuel iteration consecutive pushed saves) := by
  induction fuel generalizing iteration consecutive pushed saves with
  | zero => exact ⟨rfl, List.prefix_refl pushed⟩
  | succ fuel ih =>
    rw [rounds]
    split
    · exact ⟨rfl, List.prefix_refl pushed⟩
    · dsimp only
      split_ifs
      · exact ⟨rfl, List.prefix_append ..⟩
      · exact ih ..
      · exact ⟨rfl, List.prefix_append ..⟩
    · dsimp only
      split
      · exact ⟨rfl, List.prefix_append ..⟩
      · refine (ih ..).weaken ?_
        rw [List.append_assoc]
        exact List.prefix_append ..
    · dsimp only
      split_ifs
      · exact ⟨rfl, List.prefix_append ..⟩
      · exact (ih ..).weaken (List.prefix_append ..)

theorem leaves_runAgentLoop (max : ℕ) (answers : ℕ → Answer) (history : List Message)
    (userMessage : String) :
    Leaves history [.user userMessage] (runAgentLoop max answers history userMessage) :=
  leaves_rounds ..

end AgentLoop
end RustyHand
