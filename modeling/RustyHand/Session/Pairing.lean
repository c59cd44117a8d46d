import RustyHand.Types.Message
import Mathlib.Data.List.Chain

/-!
# Paired histories

The form of a history that the providers accept: roles alternate, every `ToolUse` is answered in
the next message, and every `ToolResult` answers a use of the message before it.  `WellPaired`
states it by position; `ResultsFollow` and `Answered` are the two halves as recursions over the
history, each message seeing the uses of the one before it.
-/

namespace RustyHand
namespace Pairing

/-- Every `ToolUse` is answered in the next message, every `ToolResult` answers a use of the
message before it, and roles alternate. -/
structure WellPaired (messages : List Message) : Prop where
  answered : ∀ i m, messages[i]? = some m → ∀ id ∈ m.useIds,
    ∃ n, messages[i + 1]? = some n ∧ id ∈ n.resultIds
  follow : ∀ j n, messages[j]? = some n → ∀ id ∈ n.resultIds,
    ∃ i m, j = i + 1 ∧ messages[i]? = some m ∧ id ∈ m.useIds
  alternate : messages.IsChain fun m n => m.role ≠ n.role

/-- Every result answers a use of the message before it (`prev` for the first message). -/
def ResultsFollow : List String → List Message → Prop
  | _, [] => True
  | prev, m :: ms => (∀ id ∈ m.resultIds, id ∈ prev) ∧ ResultsFollow m.useIds ms

/-- Every use is answered in the next message (those of `prev` in the first). -/
def Answered : List String → List Message → Prop
  | prev, [] => prev = []
  | prev, m :: ms => (∀ id ∈ prev, id ∈ m.resultIds) ∧ Answered m.useIds ms

instance decidableResultsFollow : (prev : List String) → (messages : List Message) →
    Decidable (ResultsFollow prev messages)
  | _, [] => inferInstanceAs (Decidable True)
  | prev, m :: ms =>
    have := decidableResultsFollow m.useIds ms
    inferInstanceAs (Decidable ((∀ id ∈ m.resultIds, id ∈ prev) ∧ ResultsFollow m.useIds ms))

instance decidableAnswered : (prev : List String) → (messages : List Message) →
    Decidable (Answered prev messages)
  | prev, [] => inferInstanceAs (Decidable (prev = []))
  | prev, m :: ms =>
    have := decidableAnswered m.useIds ms
    inferInstanceAs (Decidable ((∀ id ∈ prev, id ∈ m.resultIds) ∧ Answered m.useIds ms))

@[simp] theorem resultsFollow_nil (prev : List String) : ResultsFollow prev [] := trivial

@[simp] theorem resultsFollow_cons (prev : List String) (m : Message) (l : List Message) :
    ResultsFollow prev (m :: l) ↔ (∀ id ∈ m.resultIds, id ∈ prev) ∧ ResultsFollow m.useIds l :=
  Iff.rfl

@[simp] theorem answered_nil (prev : List String) : Answered prev [] ↔ prev = [] := Iff.rfl

@[simp] theorem answered_cons (prev : List String) (m : Message) (l : List Message) :
    Answered prev (m :: l) ↔ (∀ id ∈ prev, id ∈ m.resultIds) ∧ Answered m.useIds l := Iff.rfl

theorem ResultsFollow.mono {prev prev' : List String} (hsub : ∀ id ∈ prev, id ∈ prev')
    {l : List Message} (h : ResultsFollow prev l) : ResultsFollow prev' l := by
  cases l with
  | nil => trivial
  | cons m l => exact ⟨fun id hid => hsub id (h.1 id hid), h.2⟩

/-- The pairing of a tail sees only the message in front of it. -/
theorem ResultsFollow.append_congr {prev : List String} {X l l' : List Message} {m : Message}
    (h : ResultsFollow prev (X ++ m :: l))
    (hl : ResultsFollow m.useIds l → ResultsFollow m.useIds l') :
    ResultsFollow prev (X ++ m :: l') := by
  induction X generalizing prev with
  | nil => exact ⟨h.1, hl h.2⟩
  | cons x X ih => exact ⟨h.1, ih h.2⟩

/-- Behind a history with all uses answered another one may stand. -/
theorem Answered.append {prev : List String} {l l' : List Message} (h : Answered prev l)
    (h' : Answered [] l') : Answered prev (l ++ l') := by
  induction l generalizing prev with
  | nil =>
    obtain rfl : prev = [] := h
    exact h'
  | cons m l ih => exact ⟨h.1, ih h.2⟩

theorem ResultsFollow.append {prev : List String} {l l' : List Message}
    (h : ResultsFollow prev l) (h' : ResultsFollow [] l') : ResultsFollow prev (l ++ l') := by
  induction l generalizing prev with
  | nil => exact h'.mono fun id hid => absurd hid List.not_mem_nil
  | cons m l ih => exact ⟨h.1, ih h.2⟩

/-- A message without uses and results can go. -/
theorem Answered.erase {prev : List String} {m : Message} {l l' : List Message}
    (huse : m.useIds = []) (hres : m.resultIds = []) (h : Answered prev (l ++ m :: l')) :
    Answered prev (l ++ l') := by
  induction l generalizing prev with
  | nil =>
    obtain rfl : prev = [] := by
      rw [List.eq_nil_iff_forall_not_mem]
      intro id hid
      have := h.1 id hid
      rw [hres] at this
      cases this
    have htail := h.2
    rwa [huse] at htail
  | cons n l ih => exact ⟨h.1, ih h.2⟩

theorem ResultsFollow.erase {prev : List String} {m : Message} {l l' : List Message}
    (huse : m.useIds = []) (h : ResultsFollow prev (l ++ m :: l')) :
    ResultsFollow prev (l ++ l') := by
  induction l generalizing prev with
  | nil =>
    have htail := h.2
    rw [huse] at htail
    exact htail.mono fun id hid => absurd hid List.not_mem_nil
  | cons n l ih => exact ⟨h.1, ih h.2⟩

/-- Dropping messages without uses keeps results behind their uses. -/
theorem ResultsFollow.filter {q : Message → Bool} {l : List Message}
    (hq : ∀ m ∈ l, q m = false → m.useIds = []) {prev : List String}
    (h : ResultsFollow prev l) : ResultsFollow prev (l.filter q) := by
  induction l generalizing prev with
  | nil => trivial
  | cons m l ih =>
    have ih : ∀ {prev}, ResultsFollow prev l → ResultsFollow prev (l.filter q) :=
      ih fun n hn => hq n (List.mem_cons_of_mem m hn)
    cases hm : q m with
    | true =>
      rw [List.filter_cons_of_pos hm]
      exact ⟨h.1, ih h.2⟩
    | false =>
      rw [List.filter_cons_of_neg (by simp [hm])]
      have hnil : m.useIds = [] := hq m List.mem_cons_self hm
      refine (ih h.2).mono fun id hid => ?_
      simp [hnil] at hid

theorem resultsFollow_iff {prev : List String} {l : List Message} :
    ResultsFollow prev l ↔ ∀ j n, l[j]? = some n → ∀ id ∈ n.resultIds,
      (j = 0 ∧ id ∈ prev) ∨ ∃ i m, j = i + 1 ∧ l[i]? = some m ∧ id ∈ m.useIds := by
  induction l generalizing prev with
  | nil => simp
  | cons m l ih =>
    rw [resultsFollow_cons, ih]
    constructor
    · rintro ⟨hhead, htail⟩ j n hj id hid
      cases j with
      | zero =>
        obtain rfl : m = n := by simpa using hj
        exact Or.inl ⟨rfl, hhead id hid⟩
      | succ j =>
        rcases htail j n (by simpa using hj) id hid with ⟨rfl, hm⟩ | ⟨i, p, rfl, hp, hidp⟩
        · exact Or.inr ⟨0, m, rfl, rfl, hm⟩
        · exact Or.inr ⟨i + 1, p, rfl, by simpa using hp, hidp⟩
    · intro h
      refine ⟨fun id hid => ?_, fun j n hj id hid => ?_⟩
      · rcases h 0 m rfl id hid with ⟨-, hp⟩ | ⟨i, p, hi, -⟩
        · exact hp
        · exact absurd hi (by omega)
      · rcases h (j + 1) n (by simpa using hj) id hid with ⟨hj0, -⟩ | ⟨i, p, hi, hp, hidp⟩
        · exact absurd hj0 (by omega)
        · obtain rfl : j = i := by omega
          cases j with
          | zero =>
            obtain rfl : m = p := by simpa using hp
            exact Or.inl ⟨rfl, hidp⟩
          | succ j => exact Or.inr ⟨j, p, rfl, by simpa using hp, hidp⟩

theorem resultsFollow_nil_iff {l : List Message} :
    ResultsFollow [] l ↔ ∀ j n, l[j]? = some n → ∀ id ∈ n.resultIds,
      ∃ i m, j = i + 1 ∧ l[i]? = some m ∧ id ∈ m.useIds := by
  rw [resultsFollow_iff]
  simp

theorem answered_iff {prev : List String} {l : List Message} :
    Answered prev l ↔ (∀ id ∈ prev, ∃ n, l[0]? = some n ∧ id ∈ n.resultIds) ∧
      ∀ i m, l[i]? = some m → ∀ id ∈ m.useIds, ∃ n, l[i + 1]? = some n ∧ id ∈ n.resultIds := by
  induction l generalizing prev with
  | nil => simp [List.eq_nil_iff_forall_not_mem]
  | cons m l ih =>
    rw [answered_cons, ih]
    constructor
    · rintro ⟨hprev, hnext, htail⟩
      refine ⟨fun id hid => ⟨m, rfl, hprev id hid⟩, fun i n hi id hid => ?_⟩
      cases i with
      | zero =>
        obtain rfl : m = n := by simpa using hi
        simpa using hnext id hid
      | succ i => simpa using htail i n (by simpa using hi) id hid
    · rintro ⟨hprev, h⟩
      refine ⟨fun id hid => ?_, fun id hid => ?_, fun i n hi id hid => ?_⟩
      · obtain ⟨n, hn, hidn⟩ := hprev id hid
        obtain rfl : m = n := by simpa using hn
        exact hidn
      · simpa using h 0 m rfl id hid
      · simpa using h (i + 1) n (by simpa using hi) id hid

theorem wellPaired_iff {l : List Message} :
    WellPaired l ↔ Answered [] l ∧ ResultsFollow [] l ∧ l.IsChain fun m n => m.role ≠ n.role := by
  rw [answered_iff, resultsFollow_nil_iff]
  constructor
  · rintro ⟨ha, hf, hc⟩
    exact ⟨⟨by simp, ha⟩, hf, hc⟩
  · rintro ⟨⟨-, ha⟩, hf, hc⟩
    exact ⟨ha, hf, hc⟩

/-! ### What pairing looks at -/

/-- The role of a message and the ids of its uses and results. -/
def shape (m : Message) : Role × List String × List String := (m.role, m.useIds, m.resultIds)

/-- The blocks are a use of one id, a result for one id, or neither. -/
def SameIds (b b' : ContentBlock) : Prop := b.useId? = b'.useId? ∧ b.resultId? = b'.resultId?

theorem SameIds.refl (b : ContentBlock) : SameIds b b := ⟨rfl, rfl⟩

theorem shape_blocks_congr (r : Role) {bs bs' : List ContentBlock}
    (h : List.Forall₂ SameIds bs bs') : shape ⟨r, .blocks bs⟩ = shape ⟨r, .blocks bs'⟩ := by
  have hids : bs.filterMap ContentBlock.useId? = bs'.filterMap ContentBlock.useId? ∧
      bs.filterMap ContentBlock.resultId? = bs'.filterMap ContentBlock.resultId? := by
    induction h with
    | nil => exact ⟨rfl, rfl⟩
    | cons hb _ ih => simp [List.filterMap_cons, hb.1, hb.2, ih.1, ih.2]
  simp [shape, Message.useIds, Message.resultIds, hids.1, hids.2]

theorem getElem?_of_shape {l l' : List Message} (h : l.map shape = l'.map shape) {i : ℕ}
    {m : Message} (hm : l'[i]? = some m) : ∃ n : Message, l[i]? = some n ∧ shape n = shape m := by
  have := congrArg (fun s => s[i]?) h
  simpa [hm] using this

theorem WellPaired.congr {l l' : List Message} (h : l.map shape = l'.map shape)
    (hl : WellPaired l) : WellPaired l' where
  answered := by
    intro i m hm id hid
    obtain ⟨n, hn, hshape⟩ := getElem?_of_shape h hm
    simp only [shape, Prod.mk.injEq] at hshape
    obtain ⟨u, hu, hidu⟩ := hl.answered i n hn id (by rwa [hshape.2.1])
    obtain ⟨u', hu', hshape'⟩ := getElem?_of_shape h.symm hu
    simp only [shape, Prod.mk.injEq] at hshape'
    exact ⟨u', hu', by rwa [hshape'.2.2]⟩
  follow := by
    intro j n hn id hid
    obtain ⟨m, hm, hshape⟩ := getElem?_of_shape h hn
    simp only [shape, Prod.mk.injEq] at hshape
    obtain ⟨i, u, rfl, hu, hidu⟩ := hl.follow j m hm id (by rwa [hshape.2.2])
    obtain ⟨u', hu', hshape'⟩ := getElem?_of_shape h.symm hu
    simp only [shape, Prod.mk.injEq] at hshape'
    exact ⟨i, u', rfl, hu', by rwa [hshape'.2.1]⟩
  alternate := by
    have hchain : (l.map shape).IsChain fun a b => a.1 ≠ b.1 := by
      rw [List.isChain_map]
      exact hl.alternate
    rw [h, List.isChain_map] at hchain
    exact hchain

theorem wellPaired_congr {l l' : List Message} (h : l.map shape = l'.map shape) :
    WellPaired l ↔ WellPaired l' := ⟨.congr h, .congr h.symm⟩

/-- A suffix of a well-paired history is well paired unless it starts with orphaned results. -/
theorem wellPaired_drop {l : List Message} (h : WellPaired l) (k : ℕ) :
    WellPaired (l.drop k) ↔ ∀ m, (l.drop k).head? = some m → m.resultIds = [] := by
  rw [List.head?_eq_getElem?]
  constructor
  · intro hd m hm
    rw [List.eq_nil_iff_forall_not_mem]
    intro id hid
    obtain ⟨i, -, hi, -⟩ := hd.follow 0 m hm id hid
    exact absurd hi (by omega)
  · intro hhead
    refine ⟨fun i m hm id hid => ?_, fun j n hn id hid => ?_,
      h.alternate.suffix (List.drop_suffix k l)⟩
    · rw [List.getElem?_drop] at hm ⊢
      exact h.answered (k + i) m hm id hid
    · cases j with
      | zero =>
        rw [hhead n hn] at hid
        cases hid
      | succ j =>
        rw [List.getElem?_drop] at hn
        obtain ⟨i, m, hi, hm, hidm⟩ := h.follow (k + (j + 1)) n hn id hid
        obtain rfl : i = k + j := by omega
        exact ⟨j, m, rfl, by rwa [List.getElem?_drop], hidm⟩

/-- In front of a well-paired history a text message of another role may stand, and only such a
one, if the history has no results to answer. -/
theorem wellPaired_text_cons {l : List Message} (r : Role) (s : String) :
    WellPaired (⟨r, .text s⟩ :: l) ↔
      WellPaired l ∧ ∀ m, l.head? = some m → m.role ≠ r := by
  have huse : (⟨r, .text s⟩ : Message).useIds = [] := rfl
  have hres : (⟨r, .text s⟩ : Message).resultIds = [] := rfl
  rw [wellPaired_iff, wellPaired_iff, List.isChain_cons, answered_cons, resultsFollow_cons, huse,
    hres]
  simp only [List.not_mem_nil, false_implies, implies_true, true_and, and_assoc, Option.mem_def]
  constructor
  · rintro ⟨ha, hf, hhead, hc⟩
    exact ⟨ha, hf, hc, fun m hm => (hhead m hm).symm⟩
  · rintro ⟨ha, hf, hc, hhead⟩
    exact ⟨ha, hf, fun m hm => (hhead m hm).symm, hc⟩

end Pairing
end RustyHand
