import Mathlib.Data.Nat.Digits.Defs
import RustyHand.Session.ContextGuard

/-!
# The totals of the context guard

`apply_context_guard` of `rusty-hand-runtime/src/context_budget.rs` with the running total that it
subtracts from.

* `capStep`, `compactStep`, `runSteps`, `guardPasses`, `guardLoop`: the two passes, with
  subtractions that fail below zero;
* `guardLoop_eq`: they are the guard, and no subtraction fails;
* `length_truncateTo_le_iff`: when a result that is cut does not grow;
* `GuardRight`, `guard_right_iff`.
-/

namespace RustyHand
namespace ContextBudget

/-! ### The passes -/

/-- `a - b` in `usize`. -/
def checkedSub (a b : ℕ) : Option ℕ := if b ≤ a then some (a - b) else none

/-- Shorten a result, and correct the total. -/
def shorten (maxChars : ℕ) (st : GuardState) (b : ContentBlock) :
    Option (GuardState × ContentBlock) := do
  let rest ← checkedSub st.totalChars (resultChars b)
  let b' := truncateResult maxChars b
  return (⟨rest + resultChars b', st.compacted + 1⟩, b')

/-- The first pass at a location. -/
def capStep (singleMax : ℕ) (st : GuardState) (b : ContentBlock) :
    Option (GuardState × ContentBlock) :=
  if singleMax < resultChars b then shorten singleMax st b else some (st, b)

/-- The second pass at a location: its `char_len`, and what stands there now.  Once the total is in
the headroom nothing changes any more, which is where the source leaves the loop. -/
def compactStep (headroom : ℕ) (st : GuardState) (loc : ℕ × ContentBlock) :
    Option (GuardState × ContentBlock) :=
  if headroom < st.totalChars ∧ compactTarget < loc.1 ∧ compactTarget < resultChars loc.2 then
    shorten compactTarget st loc.2
  else some (st, loc.2)

/-- A pass over the locations. -/
def runSteps {β : Type*} (step : GuardState → β → Option (GuardState × ContentBlock)) :
    GuardState → List β → Option (GuardState × List ContentBlock)
  | st, [] => some (st, [])
  | st, b :: bs => do
    let r ← step st b
    let rest ← runSteps step r.1 bs
    return (rest.1, r.2 :: rest.2)

/-- The characters of all results. -/
def totalOf (bs : List ContentBlock) : ℕ := (bs.map resultChars).sum

/-- Both passes, with what each leaves. -/
def guardPasses (headroom singleMax : ℕ) (results : List ContentBlock) :
    Option ((GuardState × List ContentBlock) × (GuardState × List ContentBlock)) := do
  let first ← runSteps (capStep singleMax) ⟨totalOf results, 0⟩ results
  let second ← runSteps (compactStep headroom) first.1 ((results.map resultChars).zip first.2)
  return (first, second)

/-- Put the blocks back into their messages. -/
def refill : List Message → List ContentBlock → List Message
  | [], _ => []
  | m :: ms, bs =>
    (match m.content with
      | .text _ => m
      | .blocks own => ⟨m.role, .blocks (bs.take own.length)⟩) ::
      refill ms (bs.drop m.blocks.length)

/-- `apply_context_guard`, with the running total. -/
def guardLoop (messages : List Message) (budget : Budget) : Option (List Message × ℕ) :=
  let results := messages.flatMap Message.blocks
  if totalOf results ≤ budget.totalToolHeadroomChars then some (messages, 0)
  else do
    let passes ← guardPasses budget.totalToolHeadroomChars budget.singleResultMax results
    return (refill messages passes.2.2, passes.2.1.compacted)

variable {headroom singleMax rest : ℕ} {st : GuardState} {b : ContentBlock}
  {bs : List ContentBlock}

@[simp] theorem totalOf_cons (b : ContentBlock) (bs : List ContentBlock) :
    totalOf (b :: bs) = resultChars b + totalOf bs := List.sum_cons

theorem totalOf_append (bs bs' : List ContentBlock) :
    totalOf (bs ++ bs') = totalOf bs + totalOf bs' := by
  rw [totalOf, List.map_append, List.sum_append]
  rfl

/-- A result that is counted in the total can be taken off. -/
theorem shorten_eq (maxChars n : ℕ) :
    shorten maxChars ⟨rest + resultChars b, n⟩ b =
      some (⟨rest + resultChars (truncateResult maxChars b), n + 1⟩,
        truncateResult maxChars b) := by
  rw [shorten, checkedSub, if_pos (Nat.le_add_left _ _), Nat.add_sub_cancel]
  rfl

theorem runSteps_cons {β : Type*} {step : GuardState → β → Option (GuardState × ContentBlock)}
    {loc : β} {locs : List β} {r : GuardState × ContentBlock}
    {last : GuardState × List ContentBlock} (hstep : step st loc = some r)
    (hrun : runSteps step r.1 locs = some last) :
    runSteps step st (loc :: locs) = some (last.1, r.2 :: last.2) := by
  rw [runSteps, hstep, Option.bind_eq_bind, Option.bind_some, hrun]
  rfl

/-! ### The first pass -/

theorem capStep_eq (n : ℕ) :
    capStep singleMax ⟨rest + resultChars b, n⟩ b =
      some (⟨rest + resultChars (capBlock singleMax b),
        n + if singleMax < resultChars b then 1 else 0⟩, capBlock singleMax b) := by
  rw [capStep, capBlock]
  split_ifs
  · rw [shorten_eq]
  · rfl

/-- The first pass: the total stays the real one. -/
theorem runSteps_capStep (n : ℕ) :
    runSteps (capStep singleMax) ⟨rest + totalOf bs, n⟩ bs =
      some (⟨rest + totalOf (bs.map (capBlock singleMax)),
          n + bs.countP fun b => singleMax < resultChars b⟩, bs.map (capBlock singleMax)) := by
  induction bs generalizing rest n with
  | nil => rfl
  | cons b bs ih =>
    have htotal : rest + totalOf (b :: bs) = rest + totalOf bs + resultChars b := by
      rw [totalOf_cons]
      omega
    have hnext : rest + totalOf bs + resultChars (capBlock singleMax b) =
        rest + resultChars (capBlock singleMax b) + totalOf bs := by omega
    rw [htotal, runSteps_cons (capStep_eq n) (hnext ▸ ih _), List.map_cons, totalOf_cons,
      List.countP_cons]
    simp only [decide_eq_true_eq]
    congr 3 <;> omega

/-! ### The second pass -/

theorem compactStep_eq (n : ℕ) :
    compactStep headroom ⟨rest + resultChars (capBlock singleMax b), n⟩
        (resultChars b, capBlock singleMax b) =
      some (compactBlock headroom singleMax ⟨rest + resultChars (capBlock singleMax b), n⟩ b) := by
  rw [compactStep, compactBlock]
  dsimp only
  split_ifs
  · rw [shorten_eq, Nat.add_sub_cancel]
  · rfl

/-- The total of a step of the second pass. -/
theorem compactBlock_total (n : ℕ) :
    (compactBlock headroom singleMax
      ⟨rest + resultChars (capBlock singleMax b), n⟩ b).1.totalChars =
      rest + resultChars
        (compactBlock headroom singleMax ⟨rest + resultChars (capBlock singleMax b), n⟩ b).2 := by
  rw [compactBlock]
  dsimp only
  split_ifs
  · rw [Nat.add_sub_cancel]
  · rfl

/-- The second pass: the total stays the real one. -/
theorem runSteps_compactStep (hst : st.totalChars = rest + totalOf (bs.map (capBlock singleMax))) :
    runSteps (compactStep headroom) st
        ((bs.map resultChars).zip (bs.map (capBlock singleMax))) =
      some (compactBlocks headroom singleMax st bs) ∧
    (compactBlocks headroom singleMax st bs).1.totalChars =
      rest + totalOf (compactBlocks headroom singleMax st bs).2 := by
  induction bs generalizing rest st with
  | nil => exact ⟨rfl, hst⟩
  | cons b bs ih =>
    obtain ⟨total, n⟩ := st
    obtain rfl : total = rest + totalOf (bs.map (capBlock singleMax)) +
        resultChars (capBlock singleMax b) := by
      rw [List.map_cons, totalOf_cons] at hst
      dsimp only at hst
      omega
    have hstep := @compactStep_eq headroom singleMax
      (rest + totalOf (bs.map (capBlock singleMax))) b n
    have htotal := @compactBlock_total headroom singleMax
      (rest + totalOf (bs.map (capBlock singleMax))) b n
    obtain ⟨hrun, hlast⟩ := ih (htotal.trans (Nat.add_right_comm ..))
    rw [List.map_cons, List.map_cons, List.zip_cons_cons, runSteps_cons hstep hrun, compactBlocks]
    refine ⟨rfl, ?_⟩
    dsimp only
    rw [hlast, totalOf_cons, Nat.add_assoc]

theorem compactBlocks_append (st : GuardState) (as bs : List ContentBlock) :
    compactBlocks headroom singleMax st (as ++ bs) =
      ((compactBlocks headroom singleMax (compactBlocks headroom singleMax st as).1 bs).1,
        (compactBlocks headroom singleMax st as).2 ++
          (compactBlocks headroom singleMax (compactBlocks headroom singleMax st as).1 bs).2) := by
  induction as generalizing st with
  | nil => rfl
  | cons a as ih =>
    rw [List.cons_append, compactBlocks, compactBlocks, ih]
    rfl

theorem length_compactBlocks (st : GuardState) (bs : List ContentBlock) :
    (compactBlocks headroom singleMax st bs).2.length = bs.length :=
  (compactBlocks_sameIds headroom singleMax st bs).length_eq

/-- A block without a result stays as it is. -/
theorem compactBlock_text (s : String) :
    compactBlock headroom singleMax st (.text s) = (st, .text s) := by
  have hcap : capBlock singleMax (.text s) = .text s := if_neg (Nat.not_lt_zero _)
  rw [compactBlock, hcap]
  exact if_neg fun h => Nat.not_lt_zero _ h.2.1

/-- The second pass goes through the messages as through their blocks. -/
theorem compactMessages_eq (ms : List Message) :
    compactMessages headroom singleMax st ms =
      ((compactBlocks headroom singleMax st (ms.flatMap Message.blocks)).1,
        refill ms (compactBlocks headroom singleMax st (ms.flatMap Message.blocks)).2) := by
  induction ms generalizing st with
  | nil => rfl
  | cons m ms ih =>
    rw [List.flatMap_cons, compactBlocks_append, compactMessages, refill]
    obtain ⟨role, s | own⟩ := m
    · have htext : compactBlocks headroom singleMax st (Message.mk role (.text s)).blocks =
          (st, [.text s]) := by
        show compactBlocks headroom singleMax st [.text s] = _
        rw [compactBlocks, compactBlock_text]
        rfl
      rw [htext, ih]
      rfl
    · have hlength : (compactBlocks headroom singleMax st own).2.length = own.length :=
        length_compactBlocks st own
      have hblocks : (Message.mk role (.blocks own)).blocks = own := rfl
      rw [hblocks]
      dsimp only
      rw [List.take_left' hlength, List.drop_left' hlength, ih]

/-- No subtraction of the two passes fails. -/
theorem guardPasses_eq (headroom singleMax : ℕ) (results : List ContentBlock) :
    ∃ st, st.totalChars = totalOf (results.map (capBlock singleMax)) ∧
      (st.compacted = results.countP fun b => singleMax < resultChars b) ∧
      guardPasses headroom singleMax results =
        some ((st, results.map (capBlock singleMax)),
          compactBlocks headroom singleMax st results) := by
  have hfirst := @runSteps_capStep singleMax 0 results 0
  rw [Nat.zero_add, Nat.zero_add, Nat.zero_add] at hfirst
  refine ⟨⟨totalOf (results.map (capBlock singleMax)),
    results.countP fun b => singleMax < resultChars b⟩, rfl, rfl, ?_⟩
  have hsecond := (@runSteps_compactStep headroom singleMax 0
    ⟨totalOf (results.map (capBlock singleMax)), results.countP fun b => singleMax < resultChars b⟩
    results (Nat.zero_add _).symm).1
  simp only [guardPasses, hfirst, hsecond, Option.bind_eq_bind, Option.bind_some, Option.pure_def]

/-- The guard is the two passes. -/
theorem guardLoop_eq (messages : List Message) (budget : Budget) :
    guardLoop messages budget = some (applyContextGuard messages budget) := by
  have htotal : ∀ bs, totalOf bs = (bs.map resultChars).sum := fun _ => rfl
  rw [guardLoop, applyContextGuard]
  dsimp only
  rw [← htotal, ← htotal]
  split_ifs
  · rfl
  · obtain ⟨⟨total, n⟩, htotal, hn, hpasses⟩ := guardPasses_eq budget.totalToolHeadroomChars
      budget.singleResultMax (messages.flatMap Message.blocks)
    dsimp only at htotal hn
    rw [hpasses, Option.bind_eq_bind, Option.bind_some, ← htotal, ← hn, compactMessages_eq]
    rfl

/-! ### Lengths -/

theorem findLastNewline_lt {text : List Char} {startChar endChar i : ℕ}
    (h : findLastNewlineInCharWindow text startChar endChar = some i) : i < endChar := by
  unfold findLastNewlineInCharWindow at h
  split_ifs at h with hempty
  obtain ⟨j, hj, rfl⟩ := Option.map_eq_some_iff.1 h
  obtain ⟨xs, y, ys, hwindow, rfl, -⟩ := DescendingInsert.lastIndex_eq_some hj
  have hlength := congrArg List.length hwindow
  simp only [List.length_drop, List.length_take, List.length_append, List.length_cons] at hlength
  omega

/-- The length of a result that is cut: what is shown, the marker, and the two numbers in it. -/
theorem length_truncateTo {content : String} {maxChars : ℕ} (h : maxChars < content.length) :
    ∃ shown ≤ maxChars - 80, shown ≤ content.length ∧
      (truncateTo content maxChars).length =
        shown + 41 + (toString content.length).length + (toString shown).length := by
  have hlen : content.toList.length = content.length := String.length_toList
  rw [truncateTo, if_neg (by omega), hlen]
  dsimp only
  generalize hcut : (findLastNewlineInCharWindow content.toList (maxChars - 80 - 100)
    (maxChars - 80)).getD (maxChars - 80) = cut
  have hle : cut ≤ maxChars - 80 := by
    cases hfind : findLastNewlineInCharWindow content.toList (maxChars - 80 - 100)
        (maxChars - 80) with
    | none =>
      rw [hfind] at hcut
      exact le_of_eq hcut.symm
    | some i =>
      rw [hfind] at hcut
      exact hcut ▸ (findLastNewline_lt hfind).le
  refine ⟨(content.toList.take cut).length, ?_, ?_, ?_⟩
  · rw [List.length_take]
    omega
  · rw [List.length_take]
    omega
  · simp only [String.length_append, String.length_ofList]
    show _ + 14 + _ + 3 + _ + 24 = _
    omega

theorem length_toString_le {n : ℕ} (h : n < 2 ^ 63) : (toString n).length ≤ 19 :=
  Nat.repr_length n 19 (by decide) (lt_trans h (by decide))

theorem length_toString_pos (n : ℕ) : 0 < (toString n).length := Nat.length_repr_pos

theorem length_toString_small {n : ℕ} (h : n < 100) :
    (toString n).length = if n < 10 then 1 else 2 := by
  have hpos := length_toString_pos n
  have hone : (toString n).length ≤ 1 ↔ n < 10 := Nat.length_repr_le_iff Nat.one_pos
  have htwo : (toString n).length ≤ 2 := (Nat.length_repr_le_iff Nat.two_pos).2 h
  split_ifs <;> omega

/-- A result that is cut does not grow exactly if it has 44 characters or more. -/
theorem length_truncateTo_le_iff {content : String} {maxChars : ℕ} (h : maxChars < content.length)
    (hsize : content.length < 2 ^ 63) :
    (truncateTo content maxChars).length ≤ content.length ↔ 43 < content.length := by
  obtain ⟨shown, hkeep, hshown, hlength⟩ := length_truncateTo h
  have hdigits := length_toString_le hsize
  have hdigits' := length_toString_le (lt_of_le_of_lt hshown hsize)
  have hpos := length_toString_pos shown
  rw [hlength]
  by_cases hsmall : content.length < 100
  · have hcontent := length_toString_small hsmall
    have hcut := length_toString_small (lt_of_le_of_lt hshown hsmall)
    split_ifs at hcontent hcut <;> omega
  · refine iff_of_true ?_ (by omega)
    by_cases hzero : shown = 0
    · rw [hzero, show (toString 0).length = 1 from rfl]
      omega
    · omega

/-- What is cut to the target fits it. -/
theorem length_truncateTo_target {content : String} (h : compactTarget < content.length)
    (hsize : content.length < 2 ^ 63) :
    (truncateTo content compactTarget).length ≤ compactTarget := by
  obtain ⟨shown, hkeep, hshown, hlength⟩ := length_truncateTo h
  have hdigits := length_toString_le hsize
  have hdigits' := length_toString_le (lt_of_le_of_lt hshown hsize)
  rw [hlength]
  unfold compactTarget at *
  omega

/-! ### Blocks -/

theorem resultChars_truncateResult_le_iff {maxChars : ℕ} (h : maxChars < resultChars b)
    (hsize : resultChars b < 2 ^ 63) :
    resultChars (truncateResult maxChars b) ≤ resultChars b ↔ 43 < resultChars b := by
  cases b with
  | toolResult id content isError => exact length_truncateTo_le_iff h hsize
  | _ => exact absurd h (Nat.not_lt_zero _)

theorem resultChars_truncateResult_target (h : compactTarget < resultChars b)
    (hsize : resultChars b < 2 ^ 63) :
    resultChars (truncateResult compactTarget b) ≤ compactTarget := by
  cases b with
  | toolResult id content isError => exact length_truncateTo_target h hsize
  | _ => exact absurd h (Nat.not_lt_zero _)

/-- A capped result grows only if it is longer than the cap and has at most 43 characters. -/
theorem resultChars_capBlock_le_iff (hsize : resultChars b < 2 ^ 63) :
    resultChars (capBlock singleMax b) ≤ resultChars b ↔
      resultChars b ≤ singleMax ∨ 43 < resultChars b := by
  rw [capBlock]
  split_ifs with hcap
  · rw [resultChars_truncateResult_le_iff hcap hsize]
    exact ⟨.inr, fun h => h.resolve_left (Nat.not_le_of_lt hcap)⟩
  · exact iff_of_true le_rfl (.inl (Nat.le_of_not_lt hcap))

/-- A result within the target stays within it. -/
theorem resultChars_capBlock_target (h : resultChars b ≤ compactTarget) :
    resultChars (capBlock singleMax b) ≤ compactTarget := by
  rw [capBlock]
  split_ifs with hcap
  · cases b with
    | toolResult id content isError =>
      have hsize : content.length < 2 ^ 63 := lt_of_le_of_lt h (by decide)
      obtain ⟨shown, hkeep, hshown, hlength⟩ := length_truncateTo hcap
      have hdigits := length_toString_le hsize
      have hdigits' := length_toString_le (lt_of_le_of_lt hshown hsize)
      show (truncateTo content singleMax).length ≤ compactTarget
      change content.length ≤ compactTarget at h
      rw [hlength]
      change singleMax < content.length at hcap
      unfold compactTarget at *
      omega
    | _ => exact absurd hcap (Nat.not_lt_zero _)
  · exact h

/-- A step above the headroom leaves a result within the target. -/
theorem compactBlock_target (hsize : resultChars b < 2 ^ 63) (h : headroom < st.totalChars) :
    resultChars (compactBlock headroom singleMax st b).2 ≤ compactTarget := by
  rw [compactBlock]
  dsimp only
  split_ifs with hlong
  · have hcapped : resultChars (capBlock singleMax b) ≤ resultChars b := by
      refine (resultChars_capBlock_le_iff hsize).2 (.inr ?_)
      have := hlong.2.1
      unfold compactTarget at this
      omega
    exact resultChars_truncateResult_target hlong.2.2 (lt_of_le_of_lt hcapped hsize)
  · by_cases hsmall : resultChars b ≤ compactTarget
    · exact resultChars_capBlock_target hsmall
    · exact Nat.le_of_not_lt fun hbig => hlong ⟨h, Nat.lt_of_not_le hsmall, hbig⟩

/-- A step within the headroom changes nothing. -/
theorem compactBlock_of_le (h : st.totalChars ≤ headroom) (b : ContentBlock) :
    compactBlock headroom singleMax st b = (st, capBlock singleMax b) := by
  rw [compactBlock]
  exact if_neg fun hlong => absurd hlong.1 (Nat.not_lt_of_le h)

theorem compactBlocks_of_le (h : st.totalChars ≤ headroom) (bs : List ContentBlock) :
    compactBlocks headroom singleMax st bs = (st, bs.map (capBlock singleMax)) := by
  induction bs with
  | nil => rfl
  | cons b bs ih => rw [compactBlocks, compactBlock_of_le h, ih, List.map_cons]

/-- A step makes a result longer than it was only if the cap does. -/
theorem resultChars_compactBlock_le_iff (hsize : resultChars b < 2 ^ 63) :
    resultChars (compactBlock headroom singleMax st b).2 ≤ resultChars b ↔
      resultChars b ≤ singleMax ∨ 43 < resultChars b := by
  rw [compactBlock]
  dsimp only
  split_ifs with hlong
  · have hbig : 43 < resultChars b := by
      have := hlong.2.1
      unfold compactTarget at this
      omega
    have hcapped : resultChars (capBlock singleMax b) ≤ resultChars b :=
      (resultChars_capBlock_le_iff hsize).2 (.inr hbig)
    refine iff_of_true ?_ (.inr hbig)
    exact (resultChars_truncateResult_target hlong.2.2 (lt_of_le_of_lt hcapped hsize)).trans
      hlong.2.1.le
  · exact resultChars_capBlock_le_iff hsize

/-! ### The whole second pass -/

/-- The results are as long as strings of the program can be. -/
def Sized (bs : List ContentBlock) : Prop := ∀ b ∈ bs, resultChars b < 2 ^ 63

/-- If the total ends above the headroom, every result is within the target. -/
theorem compactBlocks_target (hsize : Sized bs)
    (h : headroom < (compactBlocks headroom singleMax st bs).1.totalChars) :
    ∀ b ∈ (compactBlocks headroom singleMax st bs).2, resultChars b ≤ compactTarget := by
  induction bs generalizing st with
  | nil => exact fun b hb => absurd hb List.not_mem_nil
  | cons b bs ih =>
    obtain ⟨hb, hbs⟩ := List.forall_mem_cons.1 hsize
    rcases Nat.lt_or_ge headroom st.totalChars with hlt | hle
    · exact List.forall_mem_cons.2 ⟨compactBlock_target hb hlt, ih hbs h⟩
    · rw [compactBlocks_of_le hle] at h
      exact absurd h (Nat.not_lt_of_le hle)

/-- If a result is shortened, all results before it are within the target. -/
theorem compactBlocks_oldest_first (hsize : Sized bs) {i j : ℕ} (hij : i < j)
    (hj : (compactBlocks headroom singleMax st bs).2[j]? ≠ (bs.map (capBlock singleMax))[j]?) :
    ∀ b, (compactBlocks headroom singleMax st bs).2[i]? = some b →
      resultChars b ≤ compactTarget := by
  induction bs generalizing st i j with
  | nil => exact absurd rfl hj
  | cons b bs ih =>
    obtain ⟨hb, hbs⟩ := List.forall_mem_cons.1 hsize
    obtain ⟨j, rfl⟩ := Nat.exists_eq_succ_of_ne_zero (Nat.ne_of_gt (Nat.zero_lt_of_lt hij))
    rcases Nat.lt_or_ge headroom st.totalChars with hlt | hle
    · cases i with
      | zero =>
        rintro _ ⟨⟩
        exact compactBlock_target hb hlt
      | succ i => exact ih hbs (Nat.lt_of_succ_lt_succ hij) hj
    · rw [compactBlocks_of_le hle] at hj
      exact absurd rfl hj

/-! ### What the guard is to do -/

/-- The same block, up to the text of a result. -/
inductive SameButContent : ContentBlock → ContentBlock → Prop
  | same (b : ContentBlock) : SameButContent b b
  | result (id content content' : String) (isError : Bool) :
    SameButContent (.toolResult id content' isError) (.toolResult id content isError)

/-- The same message, up to the texts of results. -/
inductive SameMessage : Message → Message → Prop
  | text (role : Role) (s : String) : SameMessage ⟨role, .text s⟩ ⟨role, .text s⟩
  | blocks (role : Role) {bs' bs : List ContentBlock} (h : List.Forall₂ SameButContent bs' bs) :
    SameMessage ⟨role, .blocks bs'⟩ ⟨role, .blocks bs⟩

/-- After any number of steps of either pass the running total is the real one. -/
structure TotalsReal (headroom singleMax : ℕ) (results : List ContentBlock) : Prop where
  first : ∀ k, ∃ st out,
    runSteps (capStep singleMax) ⟨totalOf results, 0⟩ (results.take k) = some (st, out) ∧
      st.totalChars = totalOf (out ++ results.drop k)
  second : ∀ first, runSteps (capStep singleMax) ⟨totalOf results, 0⟩ results = some first →
    ∀ k, ∃ st out,
      runSteps (compactStep headroom) first.1 (((results.map resultChars).zip first.2).take k) =
          some (st, out) ∧
        st.totalChars = totalOf (out ++ first.2.drop k)

/-- If the second pass shortens a result, all older ones are within the target in the end. -/
def OldestFirst (headroom singleMax : ℕ) (results : List ContentBlock) : Prop :=
  ∀ first second, guardPasses headroom singleMax results = some (first, second) →
    ∀ i j : ℕ, i < j → second.2[j]? ≠ first.2[j]? →
      ∀ b, second.2[i]? = some b → resultChars b ≤ compactTarget

/-- What the guard makes of a history. -/
structure GuardRight (messages : List Message) (budget : Budget) (after : List Message) : Prop where
  fits : totalOf (after.flatMap Message.blocks) ≤ budget.totalToolHeadroomChars ∨
    ∀ b ∈ after.flatMap Message.blocks, resultChars b ≤ compactTarget
  totals : TotalsReal budget.totalToolHeadroomChars budget.singleResultMax
    (messages.flatMap Message.blocks)
  shrinks : List.Forall₂ (fun b' b => resultChars b' ≤ resultChars b)
    (after.flatMap Message.blocks) (messages.flatMap Message.blocks)
  others : List.Forall₂ SameMessage after messages
  oldestFirst : OldestFirst budget.totalToolHeadroomChars budget.singleResultMax
    (messages.flatMap Message.blocks)

theorem totalsReal (headroom singleMax : ℕ) (results : List ContentBlock) :
    TotalsReal headroom singleMax results := by
  have hsplit : ∀ (bs : List ContentBlock) k,
      totalOf bs = totalOf (bs.drop k) + totalOf (bs.take k) := fun bs k => by
    conv_lhs => rw [← List.take_append_drop k bs, totalOf_append, Nat.add_comm]
  refine ⟨fun k => ?_, fun first hfirst k => ?_⟩
  · rw [hsplit results k, runSteps_capStep]
    exact ⟨_, _, rfl, by rw [totalOf_append]; exact Nat.add_comm ..⟩
  · have hrun := @runSteps_capStep singleMax 0 results 0
    rw [Nat.zero_add, hfirst] at hrun
    obtain rfl := Option.some.inj hrun
    dsimp only
    have hcapped := hsplit (results.map (capBlock singleMax)) k
    rw [← List.map_take] at hcapped
    obtain ⟨hsecond, htotal⟩ := @runSteps_compactStep headroom singleMax
      (totalOf ((results.map (capBlock singleMax)).drop k))
      ⟨0 + totalOf (results.map (capBlock singleMax)),
        0 + results.countP fun b => singleMax < resultChars b⟩
      (results.take k) ((Nat.zero_add _).trans hcapped)
    rw [List.zip, List.take_zipWith, ← List.map_take, ← List.map_take]
    rw [List.zip] at hsecond
    rw [hsecond]
    exact ⟨_, _, rfl, by rw [htotal, totalOf_append]; exact Nat.add_comm ..⟩

theorem oldestFirst {results : List ContentBlock} (hsize : Sized results)
    (headroom singleMax : ℕ) : OldestFirst headroom singleMax results := by
  intro first second hpasses i j hij hj
  obtain ⟨st, -, -, heq⟩ := guardPasses_eq headroom singleMax results
  obtain ⟨rfl, rfl⟩ := Prod.mk.inj (Option.some.inj (hpasses.symm.trans heq))
  exact compactBlocks_oldest_first hsize hij hj

theorem sameButContent_compactBlock (st : GuardState) (b : ContentBlock) :
    SameButContent (compactBlock headroom singleMax st b).2 b := by
  have htruncate : ∀ n {b' b}, SameButContent b' b → SameButContent (truncateResult n b') b := by
    intro n b' b h
    cases h with
    | same =>
      cases b' with
      | toolResult id content isError => exact .result ..
      | _ => exact .same _
    | result => exact .result ..
  have hcap : SameButContent (capBlock singleMax b) b := by
    rw [capBlock]
    split_ifs
    · exact htruncate _ (.same b)
    · exact .same b
  rw [compactBlock]
  dsimp only
  split_ifs
  · exact htruncate _ hcap
  · exact hcap

theorem forall₂_compactBlocks {R : ContentBlock → ContentBlock → Prop}
    (hR : ∀ st, ∀ b ∈ bs, R (compactBlock headroom singleMax st b).2 b) (st : GuardState) :
    List.Forall₂ R (compactBlocks headroom singleMax st bs).2 bs := by
  induction bs generalizing st with
  | nil => exact .nil
  | cons b bs ih =>
    exact .cons (hR st b List.mem_cons_self)
      (ih (fun st b hb => hR st b (List.mem_cons_of_mem _ hb)) _)

/-- Each block goes through a step of the second pass. -/
theorem exists_step_of_forall₂ {R : ContentBlock → ContentBlock → Prop} {st : GuardState}
    (h : List.Forall₂ R (compactBlocks headroom singleMax st bs).2 bs) :
    ∀ b ∈ bs, ∃ st', R (compactBlock headroom singleMax st' b).2 b := by
  induction bs generalizing st with
  | nil => exact fun b hb => absurd hb List.not_mem_nil
  | cons b bs ih =>
    rw [compactBlocks] at h
    cases h with
    | cons hb hbs => exact List.forall_mem_cons.2 ⟨⟨st, hb⟩, ih hbs⟩

/-- The blocks of the messages after the second pass, and the messages. -/
theorem compactMessages_blocks (st : GuardState) (ms : List Message) :
    (compactMessages headroom singleMax st ms).2.flatMap Message.blocks =
        (compactBlocks headroom singleMax st (ms.flatMap Message.blocks)).2 ∧
      List.Forall₂ SameMessage (compactMessages headroom singleMax st ms).2 ms := by
  induction ms generalizing st with
  | nil => exact ⟨rfl, .nil⟩
  | cons m ms ih =>
    rw [List.flatMap_cons, compactBlocks_append, compactMessages]
    obtain ⟨role, s | own⟩ := m
    · have htext : compactBlocks headroom singleMax st (Message.mk role (.text s)).blocks =
          (st, [.text s]) := by
        show compactBlocks headroom singleMax st [.text s] = _
        rw [compactBlocks, compactBlock_text]
        rfl
      rw [htext]
      refine ⟨?_, .cons (.text role s) (ih st).2⟩
      exact congrArg (List.cons (ContentBlock.text s)) (ih st).1
    · have hblocks : (Message.mk role (.blocks own)).blocks = own := rfl
      rw [hblocks]
      dsimp only
      refine ⟨?_, .cons (.blocks role ?_) (ih _).2⟩
      · rw [List.flatMap_cons, (ih _).1]
        rfl
      · exact forall₂_compactBlocks (fun st b _ => sameButContent_compactBlock st b) st

/-- The guard does what it is to do exactly if it has nothing to do, or no result that is longer
than the cap has 43 characters or less. -/
theorem guard_right_iff {messages : List Message} (budget : Budget)
    (hsize : Sized (messages.flatMap Message.blocks)) :
    (∃ after n, guardLoop messages budget = some (after, n) ∧ GuardRight messages budget after) ↔
      totalOf (messages.flatMap Message.blocks) ≤ budget.totalToolHeadroomChars ∨
        ∀ b ∈ messages.flatMap Message.blocks,
          resultChars b ≤ budget.singleResultMax ∨ 43 < resultChars b := by
  have hreal := totalsReal budget.totalToolHeadroomChars budget.singleResultMax
    (messages.flatMap Message.blocks)
  have holdest := oldestFirst hsize budget.totalToolHeadroomChars budget.singleResultMax
  have hsame : (∃ after n, guardLoop messages budget = some (after, n) ∧
      GuardRight messages budget after) ↔
        GuardRight messages budget (applyContextGuard messages budget).1 := by
    rw [guardLoop_eq]
    constructor
    · rintro ⟨after, n, hrun, hright⟩
      have hafter : (applyContextGuard messages budget).1 = after :=
        congrArg Prod.fst (Option.some.inj hrun)
      rwa [hafter]
    · exact fun hright => ⟨_, _, rfl, hright⟩
  rw [hsame]
  by_cases hfits : totalOf (messages.flatMap Message.blocks) ≤ budget.totalToolHeadroomChars
  · have hafter : (applyContextGuard messages budget).1 = messages := by
      rw [applyContextGuard]
      dsimp only
      exact congrArg Prod.fst (if_pos hfits)
    rw [hafter]
    refine iff_of_true ⟨.inl hfits, hreal, List.forall₂_same.2 fun _ _ => le_rfl,
      List.forall₂_same.2 fun m _ => ?_, holdest⟩ (.inl hfits)
    obtain ⟨role, s | own⟩ := m
    · exact .text role s
    · exact .blocks role (List.forall₂_same.2 fun b _ => .same b)
  · obtain ⟨st, htotal, hafter⟩ : ∃ st : GuardState,
        st.totalChars = 0 + totalOf ((messages.flatMap Message.blocks).map
          (capBlock budget.singleResultMax)) ∧
        (applyContextGuard messages budget).1 = (compactMessages budget.totalToolHeadroomChars
          budget.singleResultMax st messages).2 := by
      rw [applyContextGuard]
      dsimp only
      exact ⟨_, (Nat.zero_add _).symm, congrArg Prod.fst (if_neg hfits)⟩
    obtain ⟨hblocks, hmessages⟩ := @compactMessages_blocks budget.totalToolHeadroomChars
      budget.singleResultMax st messages
    have hlast := (@runSteps_compactStep budget.totalToolHeadroomChars budget.singleResultMax 0 st
      (messages.flatMap Message.blocks) htotal).2
    rw [Nat.zero_add] at hlast
    constructor
    · intro hright
      have hshrinks := hright.shrinks
      rw [hafter, hblocks] at hshrinks
      refine .inr fun b hb => ?_
      obtain ⟨st', hst'⟩ := exists_step_of_forall₂ hshrinks b hb
      exact (resultChars_compactBlock_le_iff (hsize b hb)).1 hst'
    · intro hcond
      rw [hafter]
      refine ⟨?_, hreal, ?_, hmessages, holdest⟩
      · rw [hblocks, ← hlast]
        rcases Nat.lt_or_ge budget.totalToolHeadroomChars (compactBlocks
          budget.totalToolHeadroomChars budget.singleResultMax st
            (messages.flatMap Message.blocks)).1.totalChars with hlt | hle
        · exact .inr (compactBlocks_target hsize hlt)
        · exact .inl hle
      · rw [hblocks]
        exact forall₂_compactBlocks (fun st b hb => (resultChars_compactBlock_le_iff
          (hsize b hb)).2 ((hcond.resolve_left hfits) b hb)) st

/-- A history with one result. -/
def oneResult (content : String) : List Message :=
  [⟨.user, .blocks [.toolResult "a" content false]⟩]

theorem sized_oneResult {content : String} (h : content.length < 2 ^ 63) :
    Sized ((oneResult content).flatMap Message.blocks) := List.forall_mem_singleton.2 h

/-- In a window of 1000 tokens a short result is left alone. -/
theorem guard_right_small : ∃ after n,
    guardLoop (oneResult "ok") ⟨1000⟩ = some (after, n) ∧
      GuardRight (oneResult "ok") ⟨1000⟩ after :=
  (guard_right_iff ⟨1000⟩ (sized_oneResult (by decide))).2 (.inl (by decide))

/-- In a window of 10 tokens a result of 20 characters is replaced by a marker of 44. -/
theorem guard_grows_result :
    ¬ ∀ (messages : List Message) (budget : Budget),
      ∃ after n, guardLoop messages budget = some (after, n) ∧
        GuardRight messages budget after := by
  intro h
  obtain ⟨after, n, hrun, hright⟩ := h (oneResult "01234567890123456789") ⟨10⟩
  rw [guardLoop_eq] at hrun
  have hshrinks := hright.shrinks
  rw [← show (applyContextGuard (oneResult "01234567890123456789") ⟨10⟩).1 = after from
    congrArg Prod.fst (Option.some.inj hrun)] at hshrinks
  exact absurd hshrinks (by decide)

end ContextBudget
end RustyHand
