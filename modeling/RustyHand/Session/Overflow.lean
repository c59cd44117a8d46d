import RustyHand.Session.Compaction
import RustyHand.Session.ContextGuard
import RustyHand.Types.Text

/-!
# Context overflow recovery

`rusty-hand-runtime/src/context_overflow.rs`.  The pipeline drops a prefix of the history, chosen by
message count alone; `recoverFromOverflow_wellPaired_iff` says which cuts keep it well paired.
-/

namespace RustyHand
namespace ContextOverflow

open Pairing

/-- `RecoveryStage`. -/
inductive RecoveryStage
  | none
  | autoCompaction (removed : ℕ)
  | overflowCompaction (removed : ℕ)
  | toolResultTruncation (truncated : ℕ)
  | finalError

/-- `estimate_tokens`. -/
def estimateTokens (messages : List Message) (systemPrompt : String)
    (tools : List ToolDefinition) : ℕ :=
  Compactor.estimateTokenCount messages (some systemPrompt) (some tools)

/-- `(context_window as f64 * 0.70) as usize`. -/
def threshold70 (contextWindow : ℕ) : ℕ := Float64.mulTrunc contextWindow 6305039478318694 53

/-- `(context_window as f64 * 0.90) as usize`. -/
def threshold90 (contextWindow : ℕ) : ℕ := Float64.mulTrunc contextWindow 8106479329266893 53

/-- The last `keep` messages (`messages.drain(..remove)`). -/
def keepLast (keep : ℕ) (messages : List Message) : List Message :=
  messages.drop (messages.length - keep)

/-- The marker put in front of what stage 2 keeps. -/
def overflowSummary (remove : ℕ) : Message :=
  .user ("[System: " ++ toString remove ++
    " earlier messages were removed due to context overflow. " ++
    "The conversation continues from here. Use /compact for smarter summarization.]")

/-- `tool_truncation_limit`. -/
def toolTruncationLimit : ℕ := 2000

/-- Is the block a tool result that stage 3 truncates? -/
def isOversized : ContentBlock → Bool
  | .toolResult _ content _ => toolTruncationLimit < content.utf8ByteSize
  | _ => false

/-- Stage 3 on one block. -/
def truncateToolResult : ContentBlock → ContentBlock
  | .toolResult id content isError =>
    if toolTruncationLimit < content.utf8ByteSize then
      let cut := Text.truncateBytes content (toolTruncationLimit - 80)
      .toolResult id (cut ++ "\n\n[OVERFLOW RECOVERY: truncated from " ++
        toString content.utf8ByteSize ++ " to " ++ toString cut.utf8ByteSize ++ " bytes]") isError
    else .toolResult id content isError
  | b => b

/-- Stage 3 on one message. -/
def truncateToolResults (m : Message) : Message :=
  match m.content with
  | .text _ => m
  | .blocks bs => ⟨m.role, .blocks (bs.map truncateToolResult)⟩

/-- Stages 3 and 4. -/
def truncateHistory (messages : List Message) (systemPrompt : String)
    (tools : List ToolDefinition) (contextWindow : ℕ) : RecoveryStage × List Message :=
  let truncated := (messages.flatMap Message.blocks).countP isOversized
  let messages' := messages.map truncateToolResults
  if 0 < truncated ∧ estimateTokens messages' systemPrompt tools ≤ threshold90 contextWindow then
    (.toolResultTruncation truncated, messages')
  else (.finalError, messages')

/-- Stages 2 to 4. -/
def compactOverflow (messages : List Message) (systemPrompt : String)
    (tools : List ToolDefinition) (contextWindow : ℕ) : RecoveryStage × List Message :=
  let remove := messages.length - 4
  if 0 < remove then
    let messages' := overflowSummary remove :: keepLast 4 messages
    if estimateTokens messages' systemPrompt tools ≤ threshold90 contextWindow then
      (.overflowCompaction remove, messages')
    else truncateHistory messages' systemPrompt tools contextWindow
  else truncateHistory messages systemPrompt tools contextWindow

/-- `recover_from_overflow`: the stage reached and the messages left. -/
def recoverFromOverflow (messages : List Message) (systemPrompt : String)
    (tools : List ToolDefinition) (contextWindow : ℕ) : RecoveryStage × List Message :=
  let estimated := estimateTokens messages systemPrompt tools
  if estimated ≤ threshold70 contextWindow then (.none, messages)
  else
    let remove := messages.length - 10
    if estimated ≤ threshold90 contextWindow ∧ 0 < remove then
      if estimateTokens (keepLast 10 messages) systemPrompt tools ≤ threshold70 contextWindow then
        (.autoCompaction remove, keepLast 10 messages)
      else compactOverflow (keepLast 10 messages) systemPrompt tools contextWindow
    else compactOverflow messages systemPrompt tools contextWindow

/-! ### Which cuts keep the pairs -/

/-- The message list starts without results. -/
def StartsClean (l : List Message) : Prop := ∀ m, l.head? = some m → m.resultIds = []

/-- The message list can follow the summary marker: it starts neither with results nor with a
message of the user. -/
def StartsFresh (l : List Message) : Prop :=
  ∀ m, l.head? = some m → m.resultIds = [] ∧ m.role ≠ .user

/-- The cut that the estimates select falls between two turns, or there is none. -/
def CutSafe (messages : List Message) (systemPrompt : String) (tools : List ToolDefinition)
    (contextWindow : ℕ) : Prop :=
  let estimated := estimateTokens messages systemPrompt tools
  estimated ≤ threshold70 contextWindow ∨
    if estimated ≤ threshold90 contextWindow ∧ 10 < messages.length ∧
        estimateTokens (keepLast 10 messages) systemPrompt tools ≤ threshold70 contextWindow then
      StartsClean (keepLast 10 messages)
    else messages.length ≤ 4 ∨ StartsFresh (keepLast 4 messages)

theorem truncateToolResult_sameIds (b : ContentBlock) : SameIds (truncateToolResult b) b := by
  cases b <;> simp only [truncateToolResult]
  case toolResult => split <;> exact ⟨rfl, rfl⟩
  all_goals exact .refl _

theorem shape_truncateToolResults (m : Message) : shape (truncateToolResults m) = shape m := by
  obtain ⟨r, c⟩ := m
  cases c with
  | text s => rfl
  | blocks bs =>
    refine shape_blocks_congr r ?_
    rw [List.forall₂_map_left_iff, List.forall₂_same]
    exact fun b _ => truncateToolResult_sameIds b

theorem truncateToolResults_isEmpty (m : Message) :
    (truncateToolResults m).content.isEmpty = m.content.isEmpty := by
  obtain ⟨r, s | bs⟩ := m
  · rfl
  · exact List.isEmpty_map

theorem truncateHistory_sameShape (l : List Message) (sp : String) (tools : List ToolDefinition)
    (w : ℕ) : (truncateHistory l sp tools w).2.map shape = l.map shape := by
  have h : (l.map truncateToolResults).map shape = l.map shape := by
    rw [List.map_map]
    exact List.map_congr_left fun m _ => shape_truncateToolResults m
  dsimp only [truncateHistory]
  split <;> exact h

theorem wellPaired_keepLast {messages : List Message} (h : WellPaired messages) (k : ℕ) :
    WellPaired (keepLast k messages) ↔ StartsClean (keepLast k messages) := wellPaired_drop h _

/-- The marker and the last four messages, which stage 2 leaves. -/
theorem wellPaired_summary_iff {messages : List Message} (h : WellPaired messages) (remove : ℕ) :
    WellPaired (overflowSummary remove :: keepLast 4 messages) ↔
      StartsFresh (keepLast 4 messages) := by
  rw [overflowSummary, Message.user, wellPaired_text_cons, wellPaired_keepLast h]
  constructor
  · rintro ⟨hres, hrole⟩ m hm
    exact ⟨hres m hm, hrole m hm⟩
  · intro hf
    exact ⟨fun m hm => (hf m hm).1, fun m hm => (hf m hm).2⟩

/-- Stages 2 to 4, on the history or on what stage 1 kept of it. -/
theorem compactOverflow_wellPaired_iff {messages l : List Message} (h : WellPaired messages)
    (hshort : l.length ≤ 4 → l = messages) (hlast : keepLast 4 l = keepLast 4 messages)
    (systemPrompt : String) (tools : List ToolDefinition) (contextWindow : ℕ) :
    WellPaired (compactOverflow l systemPrompt tools contextWindow).2 ↔
      l.length ≤ 4 ∨ StartsFresh (keepLast 4 messages) := by
  by_cases hlen : l.length ≤ 4
  · obtain rfl := hshort hlen
    have hremove : ¬ 0 < l.length - 4 := by omega
    simp only [compactOverflow, hremove, if_false, hlen, true_or, iff_true]
    exact (wellPaired_congr (truncateHistory_sameShape ..)).2 h
  · have hremove : 0 < l.length - 4 := by omega
    have hcut := wellPaired_summary_iff h (l.length - 4)
    simp only [compactOverflow, hremove, if_true, hlen, false_or, hlast]
    split
    · exact hcut
    · rw [wellPaired_congr (truncateHistory_sameShape ..), hcut]

theorem keepLast_keepLast {j k : ℕ} (h : j ≤ k) (l : List Message) :
    keepLast j (keepLast k l) = keepLast j l := by
  rw [keepLast, keepLast, keepLast, List.drop_drop, List.length_drop]
  congr 1
  omega

theorem length_keepLast (k : ℕ) (l : List Message) : (keepLast k l).length = min k l.length := by
  rw [keepLast, List.length_drop]
  omega

/-- **When overflow recovery keeps a history well paired.** -/
theorem recoverFromOverflow_wellPaired {messages : List Message} (h : WellPaired messages)
    (systemPrompt : String) (tools : List ToolDefinition) (contextWindow : ℕ) :
    WellPaired (recoverFromOverflow messages systemPrompt tools contextWindow).2 ↔
      CutSafe messages systemPrompt tools contextWindow := by
  unfold CutSafe
  by_cases hnone : estimateTokens messages systemPrompt tools ≤ threshold70 contextWindow
  · simp [recoverFromOverflow, hnone, h]
  have hremove : 0 < messages.length - 10 ↔ 10 < messages.length := by omega
  simp only [recoverFromOverflow, hnone, if_false, false_or, hremove]
  by_cases hstage : estimateTokens messages systemPrompt tools ≤ threshold90 contextWindow ∧
      10 < messages.length
  · rw [if_pos hstage]
    by_cases hauto :
        estimateTokens (keepLast 10 messages) systemPrompt tools ≤ threshold70 contextWindow
    · rw [if_pos hauto, if_pos ⟨hstage.1, hstage.2, hauto⟩]
      exact wellPaired_keepLast h 10
    · -- stage 2 works on the last ten messages, whose last four are those of the history
      have hlen := length_keepLast 10 messages
      rw [if_neg hauto, if_neg fun hc => hauto hc.2.2,
        compactOverflow_wellPaired_iff h (fun hl => by omega) (keepLast_keepLast (by omega) _)]
      have h4 : ¬ messages.length ≤ 4 := by omega
      have h4' : ¬ (keepLast 10 messages).length ≤ 4 := by omega
      simp only [h4, h4', false_or]
  · rw [if_neg hstage, if_neg fun hc => hstage ⟨hc.1, hc.2.1⟩]
    exact compactOverflow_wellPaired_iff h (fun _ => rfl) rfl _ _ _

/-! ### The request of the agent loop -/

/-- The messages the agent loop sends: recovery, then the context guard with the same window. -/
def requestMessages (messages : List Message) (systemPrompt : String)
    (tools : List ToolDefinition) (contextWindow : ℕ) : List Message :=
  (ContextBudget.applyContextGuard
    (recoverFromOverflow messages systemPrompt tools contextWindow).2 ⟨contextWindow⟩).1

/-- **The history left by overflow recovery, and the request sent right after it, are well paired
exactly when the cut is safe.** -/
theorem recoverFromOverflow_wellPaired_iff {messages : List Message} (h : WellPaired messages)
    (systemPrompt : String) (tools : List ToolDefinition) (contextWindow : ℕ) :
    (WellPaired (recoverFromOverflow messages systemPrompt tools contextWindow).2 ↔
      CutSafe messages systemPrompt tools contextWindow) ∧
    (WellPaired (requestMessages messages systemPrompt tools contextWindow) ↔
      CutSafe messages systemPrompt tools contextWindow) := by
  refine ⟨recoverFromOverflow_wellPaired h systemPrompt tools contextWindow, ?_⟩
  rw [requestMessages, wellPaired_congr (ContextBudget.applyContextGuard_sameShape ..)]
  exact recoverFromOverflow_wellPaired h systemPrompt tools contextWindow

/-- A question, two tool calls and the answer. -/
def twoCalls : List Message :=
  [.user "?", ⟨.assistant, .blocks [.toolUse "a" "read" .null]⟩,
    ⟨.user, .blocks [.toolResult "a" "1" false]⟩,
    ⟨.assistant, .blocks [.toolUse "b" "read" .null]⟩,
    ⟨.user, .blocks [.toolResult "b" "2" false]⟩, .assistant "done"]

theorem twoCalls_wellPaired : WellPaired twoCalls := by
  rw [wellPaired_iff]
  simp [twoCalls, Message.user, Message.assistant, Message.useIds, Message.resultIds,
    ContentBlock.useId?, ContentBlock.resultId?, List.filterMap_cons]

/-- In a large window nothing is cut. -/
theorem twoCalls_kept : WellPaired (requestMessages twoCalls "" [] 1000) :=
  (recoverFromOverflow_wellPaired_iff twoCalls_wellPaired "" [] 1000).2.2 (Or.inl (by decide))

/-- In a small one the last four messages start with the result of the first call. -/
theorem overflow_orphans_result : ¬ ∀ (messages : List Message) (systemPrompt : String)
    (tools : List ToolDefinition) (contextWindow : ℕ), WellPaired messages →
      WellPaired (recoverFromOverflow messages systemPrompt tools contextWindow).2 := by
  intro hall
  have hcut := (recoverFromOverflow_wellPaired twoCalls_wellPaired "" [] 10).1
    (hall twoCalls "" [] 10 twoCalls_wellPaired)
  rcases hcut with hsmall | hcut
  · exact absurd hsmall (by decide)
  · rw [if_neg (by decide)] at hcut
    rcases hcut with hlen | hfresh
    · exact absurd hlen (by decide)
    · exact (hfresh _ rfl).2 rfl

end ContextOverflow
end RustyHand

/-!
## What the stages of overflow recovery say

`recover_from_overflow` of `rusty-hand-runtime/src/context_overflow.rs` returns the stage at which
it stops; each of them promises something of the estimate.

* `threshold70_le_threshold90`, `threshold90_eq`, `threshold70_le`: the thresholds;
* `VerdictRight`: the stage says what the estimate of the messages left is;
* `verdictRight_iff`: when it does.
-/

namespace RustyHand
namespace ContextOverflow

variable {messages : List Message} {systemPrompt : String} {tools : List ToolDefinition}
  {contextWindow : ℕ}

/-! ### Thresholds -/

theorem threshold70_le_threshold90 (contextWindow : ℕ) :
    threshold70 contextWindow ≤ threshold90 contextWindow :=
  Float64.mulTrunc_mono _ 53 (by decide)

/-- For windows of up to `2 ^ 48` tokens the product is 90 percent, rounded down. -/
theorem threshold90_eq (h : contextWindow ≤ 2 ^ 48) :
    threshold90 contextWindow = 9 * contextWindow / 10 := by
  have hbounds := Float64.mulTrunc_bounds h (show 8106479329266893 < 2 ^ 53 by decide)
  rw [threshold90]
  omega

/-- The product is 70 percent at most. -/
theorem threshold70_le (h : contextWindow ≤ 2 ^ 48) :
    threshold70 contextWindow ≤ 7 * contextWindow / 10 := by
  have hbounds := Float64.mulTrunc_bounds h (show 6305039478318694 < 2 ^ 53 by decide)
  rw [threshold70]
  omega

/-! ### Verdicts -/

/-- What the stage that is returned says of the messages that are left. -/
structure VerdictRight (messages : List Message) (systemPrompt : String)
    (tools : List ToolDefinition) (contextWindow : ℕ) (stage : RecoveryStage) : Prop where
  /-- Every stage but the last one leaves 90 percent at most. -/
  within : stage ≠ .finalError →
    estimateTokens messages systemPrompt tools ≤ threshold90 contextWindow
  /-- The first two leave 70 percent at most. -/
  early : (stage = .none ∨ ∃ removed, stage = .autoCompaction removed) →
    estimateTokens messages systemPrompt tools ≤ threshold70 contextWindow
  /-- The last one is for more than 90 percent. -/
  exceeded : stage = .finalError →
    threshold90 contextWindow < estimateTokens messages systemPrompt tools

theorem verdictRight_early {stage : RecoveryStage} (hstage : stage ≠ .finalError)
    (h : estimateTokens messages systemPrompt tools ≤ threshold70 contextWindow) :
    VerdictRight messages systemPrompt tools contextWindow stage :=
  ⟨fun _ => h.trans (threshold70_le_threshold90 _), fun _ => h, fun hfinal => absurd hfinal hstage⟩

theorem verdictRight_late {stage : RecoveryStage} (hstage : stage ≠ .finalError)
    (hearly : ¬ (stage = .none ∨ ∃ removed, stage = .autoCompaction removed))
    (h : estimateTokens messages systemPrompt tools ≤ threshold90 contextWindow) :
    VerdictRight messages systemPrompt tools contextWindow stage :=
  ⟨fun _ => h, fun h => absurd h hearly, fun hfinal => absurd hfinal hstage⟩

theorem verdictRight_final_iff :
    VerdictRight messages systemPrompt tools contextWindow .finalError ↔
      threshold90 contextWindow < estimateTokens messages systemPrompt tools := by
  refine ⟨fun h => h.exceeded rfl, fun h => ⟨fun hne => absurd rfl hne, fun hearly => ?_,
    fun _ => h⟩⟩
  rcases hearly with hearly | ⟨removed, hearly⟩ <;> cases hearly

/-- Is there a tool result that stage 3 truncates? -/
def HasOversized (messages : List Message) : Prop :=
  ∃ b ∈ messages.flatMap Message.blocks, isOversized b = true

theorem truncateToolResult_of_small {b : ContentBlock} (h : isOversized b = false) :
    truncateToolResult b = b := by
  cases b with
  | toolResult id content isError => exact if_neg (of_decide_eq_false h)
  | _ => rfl

theorem truncateToolResults_of_none (h : ¬ HasOversized messages) :
    messages.map truncateToolResults = messages := by
  refine (List.map_congr_left fun m hm => ?_).trans (List.map_id messages)
  obtain ⟨role, s | bs⟩ := m
  · rfl
  · have hsmall : bs.map truncateToolResult = bs := by
      refine (List.map_congr_left fun b hb => ?_).trans (List.map_id bs)
      refine truncateToolResult_of_small (Bool.eq_false_iff.2 fun hbig => h ⟨b, ?_, hbig⟩)
      exact List.mem_flatMap.2 ⟨_, hm, hb⟩
    rw [truncateToolResults]
    exact congrArg (fun bs => (⟨role, .blocks bs⟩ : Message)) hsmall

/-- Stages 3 and 4: they are wrong where there is nothing to truncate and nothing needs it. -/
theorem truncateHistory_verdict_iff :
    VerdictRight (truncateHistory messages systemPrompt tools contextWindow).2 systemPrompt tools
        contextWindow (truncateHistory messages systemPrompt tools contextWindow).1 ↔
      (estimateTokens messages systemPrompt tools ≤ threshold90 contextWindow →
        HasOversized messages) := by
  have hcount : 0 < (messages.flatMap Message.blocks).countP isOversized ↔
      HasOversized messages := List.countP_pos_iff
  rw [truncateHistory]
  by_cases hbig : HasOversized messages
  · refine iff_of_true ?_ fun _ => hbig
    split_ifs with hfits
    · exact verdictRight_late (by simp) (by simp) hfits.2
    · exact verdictRight_final_iff.2 (Nat.lt_of_not_le fun hle => hfits ⟨hcount.2 hbig, hle⟩)
  · rw [if_neg fun h => hbig (hcount.1 h.1), verdictRight_final_iff,
      truncateToolResults_of_none hbig]
    exact ⟨fun hlt hle => absurd hlt (Nat.not_lt_of_le hle),
      fun h => Nat.lt_of_not_le fun hle => hbig (h hle)⟩

/-- Stages 2 to 4: with more than four messages they are right. -/
theorem compactOverflow_verdict_iff :
    VerdictRight (compactOverflow messages systemPrompt tools contextWindow).2 systemPrompt tools
        contextWindow (compactOverflow messages systemPrompt tools contextWindow).1 ↔
      (messages.length ≤ 4 →
        estimateTokens messages systemPrompt tools ≤ threshold90 contextWindow →
          HasOversized messages) := by
  rw [compactOverflow]
  dsimp only
  by_cases hlen : messages.length ≤ 4
  · rw [if_neg (by omega), truncateHistory_verdict_iff]
    exact ⟨fun h _ => h, fun h => h hlen⟩
  · rw [if_pos (by omega)]
    refine iff_of_true ?_ fun h => absurd h hlen
    split_ifs with hfits
    · exact verdictRight_late (by simp) (by simp) hfits
    · exact truncateHistory_verdict_iff.2 fun hle => absurd hle hfits

/-- The verdict is wrong exactly for a history of at most four messages, without an oversized tool
result, whose estimate is over 70 percent and not over 90. -/
theorem verdictRight_iff (messages : List Message) (systemPrompt : String)
    (tools : List ToolDefinition) (contextWindow : ℕ) :
    VerdictRight (recoverFromOverflow messages systemPrompt tools contextWindow).2 systemPrompt
        tools contextWindow (recoverFromOverflow messages systemPrompt tools contextWindow).1 ↔
      ¬ (messages.length ≤ 4 ∧
        threshold70 contextWindow < estimateTokens messages systemPrompt tools ∧
        estimateTokens messages systemPrompt tools ≤ threshold90 contextWindow ∧
        ¬ HasOversized messages) := by
  rw [recoverFromOverflow]
  dsimp only
  by_cases hnone : estimateTokens messages systemPrompt tools ≤ threshold70 contextWindow
  · rw [if_pos hnone]
    exact iff_of_true (verdictRight_early (by simp) hnone) fun h => absurd h.2.1 (by omega)
  rw [if_neg hnone]
  by_cases htrim : estimateTokens messages systemPrompt tools ≤ threshold90 contextWindow ∧
      0 < messages.length - 10
  · rw [if_pos htrim]
    refine iff_of_true ?_ fun h => absurd h.1 (by omega)
    split_ifs with hauto
    · exact verdictRight_early (by simp) hauto
    · have hlen := length_keepLast 10 messages
      exact compactOverflow_verdict_iff.2 fun h => absurd h (by omega)
  · rw [if_neg htrim, compactOverflow_verdict_iff]
    constructor
    · rintro h ⟨hlen, -, hle, hsmall⟩
      exact hsmall (h hlen hle)
    · intro h hlen hle
      by_contra hsmall
      exact h ⟨hlen, Nat.lt_of_not_le hnone, hle, hsmall⟩

/-- When the verdict on a history is right; and in windows of up to `2 ^ 48` tokens the thresholds
that it goes by are 90 percent, rounded down, and 70 percent at most. -/
theorem recoverFromOverflow_verdict_iff (messages : List Message) (systemPrompt : String)
    (tools : List ToolDefinition) (contextWindow : ℕ) :
    (VerdictRight (recoverFromOverflow messages systemPrompt tools contextWindow).2 systemPrompt
        tools contextWindow (recoverFromOverflow messages systemPrompt tools contextWindow).1 ↔
      ¬ (messages.length ≤ 4 ∧
        threshold70 contextWindow < estimateTokens messages systemPrompt tools ∧
        estimateTokens messages systemPrompt tools ≤ threshold90 contextWindow ∧
        ¬ HasOversized messages)) ∧
    (contextWindow ≤ 2 ^ 48 → threshold90 contextWindow = 9 * contextWindow / 10 ∧
      threshold70 contextWindow ≤ 7 * contextWindow / 10) :=
  ⟨verdictRight_iff .., fun h => ⟨threshold90_eq h, threshold70_le h⟩⟩

/-- A question that takes 80 percent of the window is given up. -/
theorem recoverFromOverflow_gives_up :
    ¬ ∀ (messages : List Message) (systemPrompt : String) (tools : List ToolDefinition)
      (contextWindow : ℕ), 0 < contextWindow →
        VerdictRight (recoverFromOverflow messages systemPrompt tools contextWindow).2 systemPrompt
          tools contextWindow
          (recoverFromOverflow messages systemPrompt tools contextWindow).1 := by
  intro h
  refine (verdictRight_iff [.user "0123456789abcdef"] "" [] 10).1 (h _ _ _ 10 (by decide)) ⟨?_, ?_⟩
  · decide
  · refine ⟨by decide, by decide, ?_⟩
    rintro ⟨b, hb, hbig⟩
    obtain rfl : b = .text "0123456789abcdef" := by simpa [Message.blocks, Message.user] using hb
    cases hbig

end ContextOverflow
end RustyHand
