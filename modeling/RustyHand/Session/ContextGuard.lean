import RustyHand.Session.Pairing
import RustyHand.Lib.DescendingEdits
import RustyHand.Lib.Float64

/-!
# The context guard

`apply_context_guard` of `rusty-hand-runtime/src/context_budget.rs`, which the agent loop runs right
before each request: tool results are shortened, the oldest first, until they fit the budget.
Positions are counted in characters, where the source goes through byte offsets.
-/

namespace RustyHand
namespace ContextBudget

open Pairing

/-- `ContextBudget` as `ContextBudget::new` makes it: two characters per token of tool results. -/
structure Budget where
  contextWindowTokens : ℕ

/-- `single_result_max`: half of the window, in characters. -/
def Budget.singleResultMax (b : Budget) : ℕ :=
  Float64.mulTrunc (Float64.mulTrunc b.contextWindowTokens 1 1) 2 0

/-- `total_tool_headroom_chars`: three quarters of the window, in characters. -/
def Budget.totalToolHeadroomChars (b : Budget) : ℕ :=
  Float64.mulTrunc (Float64.mulTrunc b.contextWindowTokens 3 2) 2 0

/-- `find_last_newline_in_char_window`. -/
def findLastNewlineInCharWindow (text : List Char) (startChar endChar : ℕ) : Option ℕ :=
  if endChar ≤ startChar then none
  else (DescendingInsert.lastIndex (· = '\n') ((text.take endChar).drop startChar)).map
    (startChar + ·)

/-- `truncate_to`. -/
def truncateTo (content : String) (maxChars : ℕ) : String :=
  let text := content.toList
  if text.length ≤ maxChars then content
  else
    let keep := maxChars - 80
    let shown := text.take ((findLastNewlineInCharWindow text (keep - 100) keep).getD keep)
    String.ofList shown ++ "\n\n[COMPACTED: " ++ toString text.length ++ " → " ++
      toString shown.length ++ " chars by context guard]"

/-- The characters of a tool result. -/
def resultChars : ContentBlock → ℕ
  | .toolResult _ content _ => content.length
  | _ => 0

/-- Shorten a tool result. -/
def truncateResult (maxChars : ℕ) : ContentBlock → ContentBlock
  | .toolResult id content isError => .toolResult id (truncateTo content maxChars) isError
  | b => b

/-- `compact_target`. -/
def compactTarget : ℕ := 2000

/-- The first pass on one block: cap what is over half of the window. -/
def capBlock (singleMax : ℕ) (b : ContentBlock) : ContentBlock :=
  if singleMax < resultChars b then truncateResult singleMax b else b

/-- The running total and the number of shortened results. -/
structure GuardState where
  totalChars : ℕ
  compacted : ℕ

/-- The second pass on one block, given as it was before the first pass. -/
def compactBlock (headroom singleMax : ℕ) (st : GuardState) (b : ContentBlock) :
    GuardState × ContentBlock :=
  let capped := capBlock singleMax b
  if headroom < st.totalChars ∧ compactTarget < resultChars b ∧
      compactTarget < resultChars capped then
    let b' := truncateResult compactTarget capped
    (⟨st.totalChars - resultChars capped + resultChars b', st.compacted + 1⟩, b')
  else (st, capped)

/-- The second pass on the blocks of a message. -/
def compactBlocks (headroom singleMax : ℕ) :
    GuardState → List ContentBlock → GuardState × List ContentBlock
  | st, [] => (st, [])
  | st, b :: bs =>
    let r := compactBlock headroom singleMax st b
    let rest := compactBlocks headroom singleMax r.1 bs
    (rest.1, r.2 :: rest.2)

/-- The second pass on a history. -/
def compactMessages (headroom singleMax : ℕ) :
    GuardState → List Message → GuardState × List Message
  | st, [] => (st, [])
  | st, m :: ms =>
    match m.content with
    | .text _ =>
      let rest := compactMessages headroom singleMax st ms
      (rest.1, m :: rest.2)
    | .blocks bs =>
      let r := compactBlocks headroom singleMax st bs
      let rest := compactMessages headroom singleMax r.1 ms
      (rest.1, ⟨m.role, .blocks r.2⟩ :: rest.2)

/-- `apply_context_guard`: the messages and the number of shortened results. -/
def applyContextGuard (messages : List Message) (budget : Budget) : List Message × ℕ :=
  let headroom := budget.totalToolHeadroomChars
  let singleMax := budget.singleResultMax
  let results := messages.flatMap Message.blocks
  if (results.map resultChars).sum ≤ headroom then (messages, 0)
  else
    let st : GuardState :=
      ⟨((results.map (capBlock singleMax)).map resultChars).sum,
        results.countP fun b => singleMax < resultChars b⟩
    let r := compactMessages headroom singleMax st messages
    (r.2, r.1.compacted)

/-! ### The guard keeps the shape of a history -/

theorem truncateResult_useId? (n : ℕ) (b : ContentBlock) :
    (truncateResult n b).useId? = b.useId? := by cases b <;> rfl

theorem truncateResult_resultId? (n : ℕ) (b : ContentBlock) :
    (truncateResult n b).resultId? = b.resultId? := by cases b <;> rfl

theorem capBlock_sameIds (n : ℕ) (b : ContentBlock) : SameIds (capBlock n b) b := by
  unfold capBlock
  split
  · exact ⟨truncateResult_useId? n b, truncateResult_resultId? n b⟩
  · exact .refl b

theorem compactBlock_sameIds (headroom singleMax : ℕ) (st : GuardState) (b : ContentBlock) :
    SameIds (compactBlock headroom singleMax st b).2 b := by
  have hcap := capBlock_sameIds singleMax b
  dsimp only [compactBlock]
  split
  · exact ⟨(truncateResult_useId? _ _).trans hcap.1, (truncateResult_resultId? _ _).trans hcap.2⟩
  · exact hcap

theorem compactBlocks_sameIds (headroom singleMax : ℕ) (st : GuardState)
    (bs : List ContentBlock) :
    List.Forall₂ SameIds (compactBlocks headroom singleMax st bs).2 bs := by
  induction bs generalizing st with
  | nil => exact .nil
  | cons b bs ih => exact .cons (compactBlock_sameIds headroom singleMax st b) (ih _)

/-- What the ids of the blocks of a message do not change the guard keeps. -/
theorem map_compactMessages {β : Type} {g : Message → β}
    (hg : ∀ r bs bs', List.Forall₂ SameIds bs' bs → g ⟨r, .blocks bs'⟩ = g ⟨r, .blocks bs⟩)
    (headroom singleMax : ℕ) (st : GuardState) (l : List Message) :
    (compactMessages headroom singleMax st l).2.map g = l.map g := by
  induction l generalizing st with
  | nil => rfl
  | cons m l ih =>
    obtain ⟨r, c⟩ := m
    cases c with
    | text s => simp [compactMessages, ih]
    | blocks bs =>
      simp only [compactMessages, List.map_cons, ih]
      rw [hg r bs _ (compactBlocks_sameIds headroom singleMax st bs)]

/-- The guard changes neither the roles of a history nor the ids of its uses and results. -/
theorem applyContextGuard_sameShape (l : List Message) (budget : Budget) :
    (applyContextGuard l budget).1.map shape = l.map shape := by
  dsimp only [applyContextGuard]
  split
  · rfl
  · exact map_compactMessages (fun r _ _ h => shape_blocks_congr r h) _ _ _ l

theorem applyContextGuard_isEmpty (l : List Message) (budget : Budget) :
    (applyContextGuard l budget).1.map (fun m => m.content.isEmpty) =
      l.map fun m => m.content.isEmpty := by
  dsimp only [applyContextGuard]
  split
  · rfl
  · refine map_compactMessages (fun r bs bs' h => ?_) _ _ _ l
    show bs'.isEmpty = bs.isEmpty
    rw [Bool.eq_iff_iff, List.isEmpty_iff_length_eq_zero, List.isEmpty_iff_length_eq_zero,
      h.length_eq]

end ContextBudget
end RustyHand
