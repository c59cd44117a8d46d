import Mathlib.Data.List.Flatten
import RustyHand.Session.RepairFixed
import RustyHand.Session.RepairSpec
import RustyHand.Session.RepairRoles

/-!
# Repairing a repaired history

The first run may leave a result where the second looks for it elsewhere: a use without a result is
answered behind every assistant message that has it, and the first of these answers is kept, while
results belong behind the last of these messages.

* `InPlace`: a result stands right behind the last use of its id;
* `InPlace.sublist`, `inPlace_attach`, `inPlace_mergeInto`: what keeps it so;
* `inPlace_validateAndRepair`: when the results of an id are in place after a run;
* `validateAndRepair_idempotent_iff`: the histories on which the repair is idempotent.
-/

namespace RustyHand
namespace SessionRepair

open DescendingInsert Pairing

variable {h l R : List Message} {m : Message} {id : String} {bs : List ContentBlock}

/-! ### Uses and answers of an id -/

/-- Is `m` a user message with a result for `id`? -/
def Answers (id : String) (m : Message) : Prop := m.role = .user ∧ id ∈ m.resultIds

/-- Does an assistant message use `id`? -/
def Used (id : String) (l : List Message) : Prop := ∃ m ∈ l, usesTool id m = true

/-- No answer in front of a use, and none behind the last use but right behind it. -/
def InPlace (id : String) : List Message → Prop
  | [] => True
  | m :: l => (Answers id m → ¬ Used id l) ∧
      (usesTool id m = true → ¬ Used id l → ∀ n ∈ l.tail, ¬ Answers id n) ∧ InPlace id l

@[simp] theorem used_cons : Used id (m :: l) ↔ usesTool id m = true ∨ Used id l := by
  simp [Used]

@[simp] theorem used_append : Used id (l ++ R) ↔ Used id l ∨ Used id R := by
  simp [Used, or_and_right, exists_or]

theorem used_iff_countP : Used id l ↔ 0 < l.countP (usesTool id) := by
  rw [List.countP_pos_iff]
  rfl

theorem used_congr (hc : l.countP (usesTool id) = R.countP (usesTool id)) :
    Used id l ↔ Used id R := by
  rw [used_iff_countP, used_iff_countP, hc]

theorem used_iff_mem_assistantUseIds : Used id l ↔ id ∈ assistantUseIds l := by
  rw [← toolUseIndex_isSome_iff, Option.isSome_iff_ne_none, Ne, toolUseIndex, lastIndex_eq_none]
  simp [Used]

theorem Answers.not_usesTool (ha : Answers id m) : usesTool id m = false := by
  rw [← Bool.not_eq_true, usesTool_iff]
  rintro ⟨hr, -⟩
  rw [ha.1] at hr
  cases hr

theorem inPlace_of_not_used (hu : ¬ Used id l) : InPlace id l := by
  induction l with
  | nil => trivial
  | cons m l ih =>
    rw [used_cons, not_or] at hu
    exact ⟨fun _ => hu.2, fun hm => absurd hm hu.1, ih hu.2⟩

theorem InPlace.tail (hl : InPlace id (m :: l)) : InPlace id l := hl.2.2

/-! ### Taking messages out -/

theorem mem_tail_of_sublist {α : Type*} {xs ys : List α} (hs : xs.Sublist ys) {x : α}
    (hx : x ∈ xs.tail) : x ∈ ys.tail := hs.tail.subset hx

/-- Messages that do not use the tool may go. -/
theorem InPlace.sublist (hs : R.Sublist l)
    (hc : R.countP (usesTool id) = l.countP (usesTool id)) (hl : InPlace id l) : InPlace id R := by
  induction hs with
  | slnil => exact hl
  | @cons R l m hs ih =>
    refine ih ?_ hl.tail
    have := hs.countP_le (p := usesTool id)
    rw [List.countP_cons] at hc
    omega
  | @cons_cons R l m hs ih =>
    have hc' : R.countP (usesTool id) = l.countP (usesTool id) := by
      rw [List.countP_cons, List.countP_cons] at hc
      omega
    obtain ⟨hbefore, hbehind, hl⟩ := hl
    refine ⟨fun hm => ?_, fun hm hu n hn => ?_, ih hc' hl⟩
    · rw [used_congr hc']
      exact hbefore hm
    · rw [used_congr hc'] at hu
      exact hbehind hm hu n (mem_tail_of_sublist hs hn)

theorem usesTool_of_isEmpty (hm : m.content.isEmpty = true) : usesTool id m = false := by
  simp [usesTool, useIds_of_isEmpty hm]

theorem countP_retainNonEmpty (l : List Message) :
    (retainNonEmpty l).countP (usesTool id) = l.countP (usesTool id) := by
  rw [retainNonEmpty, List.countP_filter]
  refine List.countP_congr fun m _ => ?_
  by_cases hm : m.content.isEmpty
  · simp [hm, usesTool_of_isEmpty hm]
  · simp [hm]

theorem InPlace.retainNonEmpty (hl : InPlace id l) : InPlace id (retainNonEmpty l) :=
  hl.sublist List.filter_sublist (countP_retainNonEmpty l)

theorem usesTool_of_isAborted (hm : isAborted m = true) : usesTool id m = false := by
  simp [usesTool, (isEmptyOrBlankContent_blocks (isAborted_iff.1 hm).2).1]

theorem countP_removeAborted (l : List Message) :
    (removeAbortedAssistantMessages l).countP (usesTool id) = l.countP (usesTool id) := by
  fun_induction removeAbortedAssistantMessages l with
  | case1 => rfl
  | case2 m => rfl
  | case3 m n ms hm ih =>
    exact ih.trans (List.countP_cons_of_neg (by simp [usesTool_of_isAborted hm])).symm
  | case4 m n ms _ ih => rw [List.countP_cons, List.countP_cons, ih]

/-! ### Trimmed messages -/

theorem Trimmed.usesTool {m' : Message} (hm : Trimmed m m') : usesTool id m' = usesTool id m := by
  rw [SessionRepair.usesTool, SessionRepair.usesTool, hm.role, hm.useIds]

theorem Trimmed.answers {m' : Message} (hm : Trimmed m m') (ha : Answers id m') : Answers id m :=
  ⟨hm.role ▸ ha.1, hm.resultIds ha.2⟩

theorem countP_trimmed (ht : List.Forall₂ Trimmed l R) :
    R.countP (usesTool id) = l.countP (usesTool id) := by
  induction ht with
  | nil => rfl
  | cons hm _ ih => rw [List.countP_cons, List.countP_cons, ih, hm.usesTool]

theorem InPlace.trimmed (ht : List.Forall₂ Trimmed l R) (hl : InPlace id l) : InPlace id R := by
  induction ht with
  | nil => exact hl
  | @cons m m' l R hm ht ih =>
    obtain ⟨hbefore, hbehind, hl⟩ := hl
    refine ⟨fun ha => ?_, fun hu hnot n hn ha => ?_, ih hl⟩
    · rw [used_congr (countP_trimmed ht)]
      exact hbefore (hm.answers ha)
    · rw [used_congr (countP_trimmed ht)] at hnot
      rw [hm.usesTool] at hu
      cases ht with
      | nil => cases hn
      | @cons n₁ n₂ l R hn₁ ht =>
        obtain ⟨i, hi⟩ := List.mem_iff_getElem?.1 hn
        have hlt : i < l.length := by
          rw [ht.length_eq]
          exact (List.getElem?_eq_some_iff.1 hi).1
        obtain ⟨hi₂, rfl⟩ := List.getElem?_eq_some_iff.1 hi
        exact hbehind hu hnot l[i] (List.getElem_mem hlt) ((ht.get hlt hi₂).answers ha)

/-! ### Merging -/

theorem used_mergeInto {last : Message} : Used id (mergeInto last l) ↔ Used id (last :: l) := by
  have hflat := flatMap_mergeInto (f := fun m => if m.role = .assistant then m.useIds else [])
    (fun r c c' => by by_cases hr : r = .assistant <;> simp [hr, Message.useIds, Message.blocks])
    last l
  rw [used_iff_mem_assistantUseIds, used_iff_mem_assistantUseIds, assistantUseIds,
    assistantUseIds, hflat]
  rfl

theorem not_answers_tail_mergeInto {last : Message} (hl : ∀ n ∈ l, ¬ Answers id n) :
    ∀ n ∈ (mergeInto last l).tail, ¬ Answers id n := by
  have hall : ∀ (l : List Message) (last : Message), ¬ Answers id last →
      (∀ n ∈ l, ¬ Answers id n) → ∀ n ∈ mergeInto last l, ¬ Answers id n := by
    intro l last
    fun_induction mergeInto last l with
    | case1 last => exact fun hlast _ n hn => by rwa [List.mem_singleton.1 hn]
    | case2 last m ms hr ih =>
      intro hlast hms
      rw [List.forall_mem_cons] at hms
      refine ih (fun ha => ?_) hms.2
      obtain ⟨hrole, hres⟩ := ha
      simp only [Message.resultIds, Message.blocks, toBlocks_mergeContent, List.filterMap_append,
        List.mem_append] at hres
      rcases hres with hres | hres
      · exact hlast ⟨hrole, hres⟩
      · exact hms.1 ⟨hr ▸ hrole, hres⟩
    | case3 last m ms hr ih =>
      intro hlast hms
      rw [List.forall_mem_cons] at hms ⊢
      exact ⟨hlast, ih hms.1 hms.2⟩
  fun_induction mergeInto last l with
  | case1 last => simp
  | case2 last m ms hr ih => exact ih fun n hn => hl n (List.mem_cons_of_mem m hn)
  | case3 last m ms hr ih =>
    rw [List.forall_mem_cons] at hl
    exact hall ms m hl.1 hl.2

theorem answers_merged {last : Message} (hr : last.role = m.role) :
    Answers id ⟨last.role, mergeContent last.content m.content⟩ ↔
      Answers id last ∨ Answers id m := by
  simp [Answers, Message.resultIds, Message.blocks, hr, and_or_left]

theorem usesTool_merged {last : Message} (hr : last.role = m.role) :
    usesTool id ⟨last.role, mergeContent last.content m.content⟩ = true ↔
      usesTool id last = true ∨ usesTool id m = true := by
  simp [usesTool_iff, Message.useIds, Message.blocks, hr, and_or_left]

theorem Answers.not_used_of_role {last : Message} (hr : last.role = m.role)
    (ha : Answers id last ∨ Answers id m) : ¬ (usesTool id last = true ∨ usesTool id m = true) := by
  have huser : last.role = .user ∧ m.role = .user := by
    rcases ha with ha | ha
    · exact ⟨ha.1, hr ▸ ha.1⟩
    · exact ⟨hr.trans ha.1, ha.1⟩
  simp [usesTool_iff, huser.1, huser.2]

theorem InPlace.mergeInto {last : Message} (hl : InPlace id (last :: l)) :
    InPlace id (mergeInto last l) := by
  fun_induction SessionRepair.mergeInto last l with
  | case1 last => exact hl
  | case2 last m ms hr ih =>
    obtain ⟨hbefore, hbehind, hbefore', hbehind', hms⟩ := hl
    refine ih ⟨fun ha hu => ?_, fun hu hnot n hn => ?_, hms⟩
    · rcases (answers_merged hr).1 ha with ha | ha
      · exact hbefore ha (used_cons.2 (.inr hu))
      · exact hbefore' ha hu
    · by_cases hm : usesTool id m = true
      · exact hbehind' hm hnot n hn
      · refine hbehind (((usesTool_merged hr).1 hu).resolve_right hm) ?_ n (List.mem_of_mem_tail hn)
        rw [used_cons, not_or]
        exact ⟨hm, hnot⟩
  | case3 last m ms hr ih =>
    obtain ⟨hbefore, hbehind, hms⟩ := hl
    refine ⟨fun ha => ?_, fun hu hnot => ?_, ih hms⟩
    · rw [used_mergeInto]
      exact hbefore ha
    · rw [used_mergeInto] at hnot
      exact not_answers_tail_mergeInto (hbehind hu hnot)

theorem InPlace.mergeConsecutive (hl : InPlace id l) : InPlace id (mergeConsecutive l) := by
  cases l with
  | nil => exact hl
  | cons m l => exact hl.mergeInto

/-! ### Placing results -/

theorem countP_attach (bs : List ContentBlock) (R : List Message) :
    (attach bs R).countP (usesTool id) = R.countP (usesTool id) := by
  have huser : ∀ {m : Message}, m.role = .user → usesTool id m = false := by
    intro m hm
    simp [usesTool, hm]
  cases R with
  | nil => simp [attach, usesTool]
  | cons n R =>
    by_cases hn : n.role = .user
    · rw [attach_user hn, List.countP_cons, List.countP_cons, huser hn, huser rfl]
    · rw [attach_not_user hn, List.countP_cons, huser rfl]
      simp

theorem used_attach : Used id (attach bs R) ↔ Used id R := used_congr (countP_attach bs R)

theorem answers_results_iff : Answers id ⟨.user, .blocks bs⟩ ↔ ∃ b ∈ bs, b.answers id = true := by
  simp [Answers, Message.resultIds, ContentBlock.answers_iff]

/-- The results stand in a user message that is new, or in the one that was there. -/
theorem attach_cases (id : String) (bs : List ContentBlock) (R : List Message) :
    ∃ v, v.role = .user ∧
      ((attach bs R = v :: R ∧ (∀ n ∈ R.head?, n.role ≠ .user) ∧
          (Answers id v ↔ ∃ b ∈ bs, b.answers id = true)) ∨
        ∃ n R', R = n :: R' ∧ n.role = .user ∧ attach bs R = v :: R' ∧
          (Answers id v ↔ Answers id n ∨ ∃ b ∈ bs, b.answers id = true)) := by
  cases R with
  | nil => exact ⟨_, rfl, .inl ⟨rfl, by simp, answers_results_iff⟩⟩
  | cons n R =>
    by_cases hn : n.role = .user
    · refine ⟨_, rfl, .inr ⟨n, R, rfl, hn, attach_user hn bs R, ?_⟩⟩
      simp [Answers, Message.resultIds, ContentBlock.answers_iff, hn]
    · exact ⟨_, rfl, .inl ⟨attach_not_user hn bs R, by simpa using hn, answers_results_iff⟩⟩

theorem not_answers_attach (hno : ¬ ∃ b ∈ bs, b.answers id = true)
    (hR : ∀ n ∈ R, ¬ Answers id n) : ∀ n ∈ attach bs R, ¬ Answers id n := by
  obtain ⟨v, -, ⟨heq, -, hv⟩ | ⟨n, R, rfl, -, heq, hv⟩⟩ := attach_cases id bs R
  · rw [heq, List.forall_mem_cons, hv]
    exact ⟨hno, hR⟩
  · rw [List.forall_mem_cons] at hR
    rw [heq, List.forall_mem_cons, hv, not_or]
    exact ⟨⟨hR.1, hno⟩, hR.2⟩

/-- Behind the last use of their id, results are in place. -/
theorem inPlace_attach {X : List Message}
    (hid : (∃ b ∈ bs, b.answers id = true) → usesTool id m = true ∧ ¬ Used id R)
    (hl : InPlace id (X ++ m :: R)) : InPlace id (X ++ m :: attach bs R) := by
  induction X with
  | nil =>
    obtain ⟨hbefore, hbehind, hR⟩ := hl
    refine ⟨fun ha => ?_, fun hu hnot => ?_, ?_⟩
    · rw [used_attach]
      exact hbefore ha
    · rw [used_attach] at hnot
      have htail := hbehind hu hnot
      obtain ⟨v, -, ⟨heq, hhead, -⟩ | ⟨n, R', rfl, -, heq, -⟩⟩ := attach_cases id bs R
      · rw [heq]
        intro n hn ha
        cases R with
        | nil => cases hn
        | cons n' R =>
          rcases List.mem_cons.1 hn with rfl | hn
          · exact hhead n rfl ha.1
          · exact htail n hn ha
      · rw [heq]
        exact htail
    · by_cases hbs : ∃ b ∈ bs, b.answers id = true
      · refine inPlace_of_not_used ?_
        rw [used_attach]
        exact (hid hbs).2
      · obtain ⟨v, hv, ⟨heq, -, hans⟩ | ⟨n, R', rfl, hn, heq, hans⟩⟩ := attach_cases id bs R
        · rw [heq]
          refine ⟨fun ha => absurd (hans.1 ha) hbs, fun hu => ?_, hR⟩
          simp [usesTool, hv] at hu
        · rw [heq]
          refine ⟨fun ha => hR.1 ((hans.1 ha).resolve_right hbs), fun hu => ?_, hR.tail⟩
          simp [usesTool, hv] at hu
  | cons x X ih =>
    have hused : Used id (X ++ m :: attach bs R) ↔ Used id (X ++ m :: R) := by
      rw [used_append, used_append, used_cons, used_cons, used_attach]
    obtain ⟨hbefore, hbehind, hX⟩ := hl
    refine ⟨fun ha => ?_, fun hu hnot n hn => ?_, ih hX⟩
    · rw [List.append_eq, hused]
      exact hbefore ha
    · rw [List.append_eq, hused] at hnot
      have htail := hbehind hu hnot
      -- `m` does not use the id, so the results are for others
      rw [used_append, used_cons, not_or, not_or] at hnot
      have hR : ∀ z ∈ R, ¬ Answers id z := by
        intro z hz
        cases X with
        | nil => exact htail z hz
        | cons y X => exact htail z (List.mem_append_right X (List.mem_cons_of_mem m hz))
      have hattach := not_answers_attach (fun hbs => hnot.2.1 (hid hbs).1) hR
      cases X with
      | nil => exact hattach n hn
      | cons y X =>
        rcases List.mem_append.1 hn with hn | hn
        · exact htail n (List.mem_append_left _ hn)
        · rcases List.mem_cons.1 hn with rfl | hn
          · exact htail n (List.mem_append_right X List.mem_cons_self)
          · exact hattach n hn

/-! ### The reordering pass -/

/-- In place by index: an answer stands right behind the last use. -/
theorem inPlace_iff : InPlace id l ↔ ∀ i m a, l[i]? = some m → Answers id m →
    toolUseIndex l id = some a → i = a + 1 := by
  induction l with
  | nil => simp [InPlace]
  | cons x l ih =>
    rw [InPlace, ih]
    cases ha : toolUseIndex l id with
    | none =>
      have hidx : toolUseIndex (x :: l) id = if usesTool id x then some 0 else none := by
        rw [toolUseIndex] at ha
        simp [toolUseIndex, lastIndex, ha]
      rw [hidx]
      have hnot : ¬ Used id l := by simpa [Used] using lastIndex_eq_none.1 ha
      constructor
      · rintro ⟨-, hbehind, -⟩ i m a hi hm ha
        by_cases hx : usesTool id x = true
        · obtain rfl : 0 = a := by simpa [hx] using ha
          have htail := hbehind hx hnot
          rcases i with _ | _ | i
          · obtain rfl : x = m := by simpa using hi
            rw [hm.not_usesTool] at hx
            cases hx
          · rfl
          · refine absurd hm (htail m (List.mem_of_getElem? (i := i) ?_))
            simpa using hi
        · simp [hx] at ha
      · intro hall
        refine ⟨fun _ => hnot, fun hx _ n hn hans => ?_, fun i m a _ _ ha => by cases ha⟩
        obtain ⟨i, hi⟩ := List.mem_iff_getElem?.1 hn
        have := hall (i + 2) n 0 (by simpa using hi) hans (by simp [hx])
        omega
    | some b =>
      have hidx : toolUseIndex (x :: l) id = some (b + 1) := by
        rw [toolUseIndex] at ha
        simp [toolUseIndex, lastIndex, ha]
      rw [hidx]
      have hused : Used id l := by
        rw [Used]
        by_contra hnot
        rw [toolUseIndex, lastIndex_eq_none.2 (by simpa using hnot)] at ha
        cases ha
      constructor
      · rintro ⟨hbefore, -, hall⟩ i m a hi hm ha
        obtain rfl : b + 1 = a := Option.some.inj ha
        cases i with
        | zero =>
          obtain rfl : x = m := by simpa using hi
          exact absurd hused (hbefore hm)
        | succ i => rw [hall i m b (by simpa using hi) hm rfl]
      · intro hall
        refine ⟨fun hx => ?_, fun _ hnot => absurd hused hnot, fun i m a hi hm ha => ?_⟩
        · have := hall 0 x (b + 1) rfl hx rfl
          omega
        · obtain rfl : b = a := Option.some.inj ha
          have := hall (i + 1) m (b + 1) (by simpa using hi) hm rfl
          omega

theorem misplaced_eq_nil_iff : misplaced l = [] ↔ ∀ id, InPlace id l := by
  simp only [inPlace_iff]
  constructor
  · intro hnil id i m a hi ⟨hr, hres⟩ ha
    by_contra hne
    obtain ⟨b, hb, hbid⟩ := Message.mem_resultIds.1 hres
    have := mem_misplaced.2 ⟨i, m, b, hi, hr, hb,
      misplacedBlock_eq_some.2 ⟨id, a, hbid, ha, hne, rfl⟩⟩
    rw [hnil] at this
    cases this
  · intro hall
    rw [List.eq_nil_iff_forall_not_mem]
    intro e he
    obtain ⟨i, m, b, hi, hr, hb, hmis⟩ := mem_misplaced.1 he
    obtain ⟨id, a, hbid, ha, hne, -⟩ := misplacedBlock_eq_some.1 hmis
    exact hne (hall id i m a hi ⟨hr, Message.mem_resultIds.2 ⟨b, hb, hbid⟩⟩ ha)

theorem map_usesTool_settle (l : List Message) (id : String) :
    (settle l).map (usesTool id) = l.map (usesTool id) := by
  refine List.ext_getElem? fun i => ?_
  rw [settle, List.getElem?_map, List.getElem?_map, List.getElem?_mapIdx, Option.map_map]
  congr 1
  funext m
  simp [usesTool, settled_role, settled_useIds]

theorem toolUseIndex_settle (l : List Message) (id : String) :
    toolUseIndex (settle l) id = toolUseIndex l id := lastIndex_congr (map_usesTool_settle l id)

/-- The results that stay are those that are in place. -/
theorem inPlace_settle (l : List Message) (id : String) : InPlace id (settle l) := by
  rw [inPlace_iff]
  intro i m a hi ⟨hr, hres⟩ ha
  rw [toolUseIndex_settle] at ha
  rw [settle, List.getElem?_mapIdx, Option.map_eq_some_iff] at hi
  obtain ⟨m, hm, rfl⟩ := hi
  rw [settled_role] at hr
  by_contra hne
  have hnil := settled_resultsFor_of_ne ha hne m
  rw [if_pos hr] at hnil
  exact Message.mem_resultIds_iff_resultsFor.1 hres hnil

theorem countP_behindKey {a : ℕ} (ha : toolUseIndex l id = some a) :
    (behindKey l a).countP (usesTool id) = 0 := by
  rw [List.countP_eq_zero]
  intro z hz hu
  obtain ⟨hr, hid⟩ := usesTool_iff.1 hu
  obtain ⟨k, hak, hk⟩ := getElem?_of_mem_behindKey hz (by rw [hr]; decide)
  have := le_of_lastIndex_eq_some ha hk hu
  omega

/-- **After the reordering every result is in place.** -/
theorem inPlace_reorder (hne : NoEmpty l) (id : String) : InPlace id (reorderToolResults l).1 := by
  refine (reorder_induction (P := fun _ l' => InPlace id l' ∧
    l'.countP (usesTool id) = (afterRemoval l).countP (usesTool id)) hne
    ⟨(inPlace_settle l id).retainNonEmpty, rfl⟩ ?_).1
  rintro a ks m R - hm - - hsplit ⟨hin, hcount⟩
  refine ⟨inPlace_attach (fun hbs => ?_) hin, ?_⟩
  · obtain ⟨b, hb, hans⟩ := hbs
    obtain ⟨id', hid', ha⟩ := insertionsFor_spec hb
    obtain rfl : id' = id := Option.some.inj (hid'.symm.trans (ContentBlock.answers_iff.1 hans))
    obtain ⟨m', hm', hr, hid, -⟩ := afterRemoval_split ha
    obtain rfl : m' = m := Option.some.inj (hm'.symm.trans hm)
    refine ⟨usesTool_iff.2 ⟨hr, hid⟩, ?_⟩
    rw [hsplit, List.countP_append, List.countP_append, List.countP_cons, List.countP_cons,
      countP_behindKey ha] at hcount
    rw [used_iff_countP]
    omega
  · rw [← hcount, List.countP_append, List.countP_append, List.countP_cons, List.countP_cons,
      countP_attach]

/-! ### The other passes -/

theorem countP_map_of_useIds {f : Message → Message} (hf : ∀ m, (f m).role = m.role)
    (hf' : ∀ m, (f m).useIds = m.useIds) (l : List Message) :
    (l.map f).countP (usesTool id) = l.countP (usesTool id) := by
  rw [List.countP_map]
  refine List.countP_congr fun m _ => ?_
  simp [usesTool, hf, hf']

theorem countP_removeOrphans (h : List Message) :
    (removeOrphans h).countP (usesTool id) = h.countP (usesTool id) := by
  rw [removeOrphans, countP_retainNonEmpty]
  exact countP_map_of_useIds (retainBlocks_role _) (retainBlocks_useIds (hasUse_of_plain _)) h

theorem countP_settle (l : List Message) :
    (settle l).countP (usesTool id) = l.countP (usesTool id) := by
  have hcount := congrArg (List.countP fun b : Bool => b) (map_usesTool_settle l id)
  simpa [List.countP_map, Function.comp_def] using hcount

theorem countP_reorder (hne : NoEmpty l) :
    (reorderToolResults l).1.countP (usesTool id) = l.countP (usesTool id) := by
  refine reorder_induction (P := fun _ l' => l'.countP (usesTool id) = l.countP (usesTool id)) hne
    ?_ ?_
  · rw [afterRemoval, countP_retainNonEmpty, countP_settle]
  · intro a ks m R _ _ _ _ _ hP
    rw [← hP, List.countP_append, List.countP_append, List.countP_cons, List.countP_cons,
      countP_attach]

/-- A message that uses the id of a result for it is the last to use it, if it is the only one. -/
theorem inPlace_synthetic (hid : resultsOf id l = [] → l.countP (usesTool id) ≤ 1)
    (hl : InPlace id l) : InPlace id (insertSyntheticResults l).1 := by
  refine (insert_induction (P := fun _ l' => InPlace id l' ∧
    l'.countP (usesTool id) = l.countP (usesTool id)) ⟨hl, rfl⟩ ?_).1
  rintro a ks X m R - - hm - ⟨hin, hcount⟩
  refine ⟨inPlace_attach (fun hbs => ?_) hin, ?_⟩
  · obtain ⟨b, hb, hans⟩ := hbs
    obtain ⟨id', hid', rfl⟩ := mem_syntheticFor.1 hb
    obtain rfl : id' = id := answers_syntheticResult.1 hans
    obtain ⟨m', hm', hr, hidm, hres⟩ := mem_orphanedUses.1 hid'
    obtain rfl : m' = m := Option.some.inj (hm'.symm.trans hm)
    have huse : usesTool id' m' = true := usesTool_iff.2 ⟨hr, hidm⟩
    refine ⟨huse, ?_⟩
    have hone := hid hres
    rw [← hcount, List.countP_append, List.countP_cons, if_pos huse] at hone
    rw [used_iff_countP]
    omega
  · rw [← hcount, List.countP_append, List.countP_append, List.countP_cons, List.countP_cons,
      countP_attach]

theorem InPlace.deduplicate (hl : InPlace id l) : InPlace id (deduplicateToolResults l).1 :=
  (hl.trimmed (dedupMessages_trimmed [] l)).retainNonEmpty

theorem InPlace.removeAborted (hl : InPlace id l) :
    InPlace id (removeAbortedAssistantMessages l) :=
  hl.sublist (removeAborted_sublist l) (countP_removeAborted l)

theorem resultsOf_reorder_eq_nil (hne : NoEmpty l) :
    resultsOf id (reorderToolResults l).1 = [] ↔ resultsOf id l = [] := by
  have hperm := repairOrder_perm l id
  rw [resultsOf_reorder hne]
  exact ⟨fun hnil => (hnil ▸ hperm).nil_eq.symm, fun hnil => (hnil ▸ hperm).eq_nil⟩

theorem mem_toolUseIds_of_used (hu : Used id l) : id ∈ toolUseIds l := by
  obtain ⟨m, hm, hid⟩ := hu
  exact mem_toolUseIds.2 ⟨m, hm, (usesTool_iff.1 hid).2⟩

/-- **A run puts the results of an id in place**, if there are any or the id is used once. -/
theorem inPlace_validateAndRepair (hid : resultsOf id h = [] → h.countP (usesTool id) ≤ 1) :
    InPlace id (validateAndRepair h) := by
  have hne := noEmpty_removeOrphans h
  have hplace := inPlace_synthetic (fun hnil => ?_) (inPlace_reorder hne id)
  · rw [validateAndRepair_eq, pairUp]
    exact hplace.deduplicate.removeAborted.mergeConsecutive
  · rw [countP_reorder hne, countP_removeOrphans]
    rw [resultsOf_reorder_eq_nil hne] at hnil
    by_cases hu : Used id h
    · rw [resultsOf_removeOrphans (mem_toolUseIds_of_used hu)] at hnil
      exact hid hnil
    · rw [used_iff_countP] at hu
      omega

/-! ### What a run leaves nothing to do for -/

theorem removeAborted_of_dropLast (hl : ∀ m ∈ l.dropLast, isAborted m = false) :
    removeAbortedAssistantMessages l = l := by
  fun_induction removeAbortedAssistantMessages l with
  | case1 => rfl
  | case2 m => rfl
  | case3 m n ms hm ih =>
    rw [hl m (by simp)] at hm
    cases hm
  | case4 m n ms _ ih => rw [ih fun z hz => hl z (by simp [hz])]

theorem dropLast_cons_subset {α : Type*} {x y : α} {xs : List α} (hy : y ∈ (x :: xs).dropLast) :
    y = x ∧ xs ≠ [] ∨ y ∈ xs.dropLast := by
  cases xs with
  | nil => cases hy
  | cons z xs => simpa using hy

theorem not_aborted_removeAborted (l : List Message) :
    ∀ m ∈ (removeAbortedAssistantMessages l).dropLast, isAborted m = false := by
  fun_induction removeAbortedAssistantMessages l with
  | case1 => simp
  | case2 m => simp
  | case3 m n ms hm ih => exact ih
  | case4 m n ms hm ih =>
    intro z hz
    rcases dropLast_cons_subset hz with ⟨rfl, -⟩ | hz
    · simpa using hm
    · exact ih z hz

theorem isEmptyOrBlankContent_merge (c c' : MessageContent) :
    isEmptyOrBlankContent (mergeContent c c') =
      (isEmptyOrBlankContent c && isEmptyOrBlankContent c') := by
  have hblocks : ∀ c : MessageContent,
      isEmptyOrBlankContent (.blocks c.toBlocks) = isEmptyOrBlankContent c := by
    intro c
    cases c <;> simp [isEmptyOrBlankContent]
  rw [← hblocks c, ← hblocks c', mergeContent]
  simp [isEmptyOrBlankContent]

theorem not_aborted_mergeInto {last : Message}
    (hl : ∀ m ∈ (last :: l).dropLast, isAborted m = false) :
    ∀ m ∈ (mergeInto last l).dropLast, isAborted m = false := by
  fun_induction mergeInto last l with
  | case1 last => exact hl
  | case2 last m ms hr ih =>
    refine ih fun z hz => ?_
    rcases dropLast_cons_subset hz with ⟨rfl, hms⟩ | hz
    · have hlast := hl last (by simp)
      rw [isAborted, Bool.and_eq_false_iff] at hlast ⊢
      rw [isEmptyOrBlankContent_merge, Bool.and_eq_false_iff]
      exact hlast.imp_right .inl
    · exact hl z (by cases ms <;> simp_all)
  | case3 last m ms hr ih =>
    intro z hz
    rcases dropLast_cons_subset hz with ⟨rfl, -⟩ | hz
    · exact hl z (by simp)
    · exact ih (fun z hz => hl z (by simp [hz])) z hz

/-- **The fixed points of the repair.** -/
theorem validateAndRepair_eq_self (hne : NoEmpty l)
    (horph : ∀ id, resultsOf id l ≠ [] → id ∈ toolUseIds l)
    (hplace : ∀ id, InPlace id l) (hans : ∀ id, Used id l → resultsOf id l ≠ [])
    (hone : ∀ id, (resultsOf id l).length ≤ 1)
    (hlast : ∀ m ∈ l.dropLast, isAborted m = false)
    (halt : l.IsChain fun m n => m.role ≠ n.role) : validateAndRepair l = l := by
  have horphans : removeOrphans l = l := by
    have hmap : l.map (retainBlocks (hasUse (toolUseIds l))) = l := by
      conv_rhs => rw [← List.map_id l]
      refine List.map_congr_left fun m hm => retainBlocks_of_all fun b hb => ?_
      cases hid : b.resultId? with
      | none => simp [hasUse, hid]
      | some id =>
        have := horph id (resultsOf_ne_nil.2 ⟨m, hm, Message.mem_resultIds.2 ⟨b, hb, hid⟩⟩)
        simpa [hasUse, hid] using this
    rw [removeOrphans, hmap, retainNonEmpty_of_noEmpty hne]
  have hreorder : (reorderToolResults l).1 = l := by
    simp [reorderToolResults, misplaced_eq_nil_iff.2 hplace]
  have horphaned : orphanedUses l = [] := by
    rw [List.eq_nil_iff_forall_not_mem]
    rintro ⟨a, id⟩ hmem
    obtain ⟨m, hm, hr, hid, hres⟩ := mem_orphanedUses.1 hmem
    exact hans id ⟨m, List.mem_of_getElem? hm, usesTool_iff.2 ⟨hr, hid⟩⟩ hres
  have hsynthetic : (insertSyntheticResults l).1 = l := by
    simp [insertSyntheticResults, horphaned]
  have hdedup : (deduplicateToolResults l).1 = l := by
    rw [deduplicateToolResults, dedupMessages_of_unique (by simp) hone,
      retainNonEmpty_of_noEmpty hne]
  rw [validateAndRepair_eq, pairUp, horphans, hreorder, hsynthetic, hdedup,
    removeAborted_of_dropLast hlast, mergeConsecutive_of_alternate halt]

/-! ### A result in front of a use -/

/-- No answer stands in front of a use. -/
def UsesFirst (id : String) (l : List Message) : Prop :=
  l.Pairwise fun m n => Answers id m → usesTool id n = false

@[simp] theorem usesFirst_cons :
    UsesFirst id (m :: l) ↔ (Answers id m → ¬ Used id l) ∧ UsesFirst id l := by
  rw [UsesFirst, List.pairwise_cons]
  refine and_congr_left fun _ => ⟨fun hall ha ⟨n, hn, hu⟩ => ?_, fun hall n hn ha => ?_⟩
  · rw [hall n hn ha] at hu
    cases hu
  · by_contra hu
    exact hall ha ⟨n, hn, by simpa using hu⟩

theorem usesFirst_of_not_used (hu : ¬ Used id l) : UsesFirst id l := by
  induction l with
  | nil => exact List.Pairwise.nil
  | cons m l ih =>
    rw [used_cons, not_or] at hu
    exact usesFirst_cons.2 ⟨fun _ => hu.2, ih hu.2⟩

theorem InPlace.usesFirst (hl : InPlace id l) : UsesFirst id l := by
  induction l with
  | nil => exact List.Pairwise.nil
  | cons m l ih => exact usesFirst_cons.2 ⟨hl.1, ih hl.tail⟩

theorem UsesFirst.of_mergeInto {last : Message} (hl : UsesFirst id (mergeInto last l)) :
    UsesFirst id (last :: l) := by
  fun_induction mergeInto last l with
  | case1 last => exact hl
  | case2 last m ms hr ih =>
    obtain ⟨hmerged, hms⟩ := usesFirst_cons.1 (ih hl)
    rw [answers_merged hr] at hmerged
    refine usesFirst_cons.2 ⟨fun ha => ?_, usesFirst_cons.2 ⟨fun ha => hmerged (.inr ha), hms⟩⟩
    rw [used_cons, not_or]
    exact ⟨fun hm => Answers.not_used_of_role hr (.inl ha) (.inr hm), hmerged (.inl ha)⟩
  | case3 last m ms hr ih =>
    rw [usesFirst_cons, used_mergeInto] at hl
    exact usesFirst_cons.2 ⟨hl.1, ih hl.2⟩

/-- Messages that neither use nor answer the id may be put back. -/
theorem UsesFirst.of_sublist (hs : R.Sublist l)
    (hc : R.countP (usesTool id) = l.countP (usesTool id)) (hr : resultsOf id R = resultsOf id l)
    (hl : UsesFirst id R) : UsesFirst id l := by
  induction hs with
  | slnil => exact hl
  | @cons R l m hs ih =>
    have hcount := hs.countP_le (p := usesTool id)
    have hlength : (resultsOf id R).length ≤ (resultsOf id l).length := (hs.flatMap _).length_le
    have hlength' := congrArg List.length hr
    rw [List.countP_cons] at hc
    rw [resultsOf_cons, List.length_append] at hlength'
    have hnil : m.resultsFor id = [] := List.length_eq_zero_iff.1 (by omega)
    refine usesFirst_cons.2 ⟨fun ha => ?_, ih (by omega) ?_ hl⟩
    · exact absurd hnil (Message.mem_resultIds_iff_resultsFor.1 ha.2)
    · rw [hr, resultsOf_cons, hnil, List.nil_append]
  | @cons_cons R l m hs ih =>
    have hc' : R.countP (usesTool id) = l.countP (usesTool id) := by
      rw [List.countP_cons, List.countP_cons] at hc
      omega
    rw [usesFirst_cons, used_congr hc'] at hl
    exact usesFirst_cons.2 ⟨hl.1, ih hc' (List.append_cancel_left hr) hl.2⟩

/-- The first result is the one that is kept. -/
theorem UsesFirst.of_dedup {seen : List String}
    (hrole : ∀ m ∈ l, id ∈ m.resultIds → m.role = .user) (hseen : id ∉ seen)
    (hl : UsesFirst id (dedupMessages seen l)) : UsesFirst id l := by
  induction l generalizing seen with
  | nil => exact hl
  | cons m l ih =>
    rw [List.forall_mem_cons] at hrole
    obtain ⟨r, c⟩ := m
    cases c with
    | text s =>
      rw [dedupMessages, usesFirst_cons, used_congr (countP_trimmed (dedupMessages_trimmed _ l))]
        at hl
      exact usesFirst_cons.2 ⟨hl.1, ih hrole.2 hseen hl.2⟩
    | blocks bs =>
      rw [dedupMessages, usesFirst_cons, used_congr (countP_trimmed (dedupMessages_trimmed _ l))]
        at hl
      by_cases hid : id ∈ (⟨r, .blocks bs⟩ : Message).resultIds
      · have hkept : Answers id ⟨r, .blocks (dedupBlocks seen bs).1⟩ := by
          refine ⟨hrole.1 hid, Message.mem_resultIds_iff_resultsFor.2 ?_⟩
          have hne := Message.mem_resultIds_iff_resultsFor.1 hid
          rw [Message.resultsFor, Message.blocks_mk_blocks] at hne ⊢
          rw [(dedupBlocks_answers seen bs).2, if_neg hseen]
          simpa using hne
        exact usesFirst_cons.2 ⟨fun _ => hl.1 hkept, usesFirst_of_not_used (hl.1 hkept)⟩
      · refine usesFirst_cons.2 ⟨fun ha => absurd ha.2 hid, ih hrole.2 ?_ hl.2⟩
        rw [(dedupBlocks_answers seen bs).1, not_or, not_not]
        refine ⟨hseen, ?_⟩
        rw [Message.mem_resultIds_iff_resultsFor, not_not] at hid
        exact hid

theorem UsesFirst.of_attach {X : List Message} (hl : UsesFirst id (X ++ m :: attach bs R)) :
    UsesFirst id (X ++ m :: R) := by
  induction X with
  | nil =>
    rw [List.nil_append, usesFirst_cons, used_attach] at hl
    refine usesFirst_cons.2 ⟨hl.1, ?_⟩
    obtain ⟨v, -, ⟨heq, -, -⟩ | ⟨n, R, rfl, -, heq, hv⟩⟩ := attach_cases id bs R
    · rw [heq, usesFirst_cons] at hl
      exact hl.2.2
    · rw [heq, usesFirst_cons, hv] at hl
      exact usesFirst_cons.2 ⟨fun ha => hl.2.1 (.inl ha), hl.2.2⟩
  | cons x X ih =>
    rw [List.cons_append, usesFirst_cons, used_append, used_cons, used_attach] at hl
    rw [List.cons_append, usesFirst_cons, used_append, used_cons]
    exact ⟨hl.1, ih hl.2⟩

theorem results_user_synthetic (hres : resultsOf id l = []) :
    ∀ m ∈ (insertSyntheticResults l).1, id ∈ m.resultIds → m.role = .user := by
  refine insert_induction (P := fun _ l' => ∀ m ∈ l', id ∈ m.resultIds → m.role = .user) ?_ ?_
  · intro m hm hid
    exact absurd hres (resultsOf_ne_nil.2 ⟨m, hm, hid⟩)
  · intro a ks X m R _ _ _ _ hP
    rw [List.forall_mem_append, List.forall_mem_cons] at hP ⊢
    refine ⟨hP.1, hP.2.1, ?_⟩
    obtain ⟨v, hv, ⟨heq, -, -⟩ | ⟨n, R, rfl, -, heq, -⟩⟩ := attach_cases id
      (syntheticFor (orphanedUses l) a) R
    · rw [heq, List.forall_mem_cons]
      exact ⟨fun _ => hv, hP.2.2⟩
    · rw [heq, List.forall_mem_cons]
      exact ⟨fun _ => hv, (List.forall_mem_cons.1 hP.2.2).2⟩

theorem exists_split_of_used_twice (hc : 2 ≤ l.countP (usesTool id)) :
    ∃ A u B, l = A ++ u :: B ∧ usesTool id u = true ∧ Used id B := by
  induction l with
  | nil => cases hc
  | cons m l ih =>
    by_cases hm : usesTool id m = true
    · refine ⟨[], m, l, rfl, hm, ?_⟩
      rw [List.countP_cons, if_pos hm] at hc
      rw [used_iff_countP]
      omega
    · rw [List.countP_cons, if_neg hm] at hc
      obtain ⟨A, u, B, rfl, hu, hB⟩ := ih hc
      exact ⟨m :: A, u, B, rfl, hu, hB⟩

/-- Behind the first of two messages that use the id, the result stands in front of the second. -/
theorem not_usesFirst_attach {A : List Message} {u : Message} (hu : Used id R)
    (hbs : ∃ b ∈ bs, b.answers id = true) : ¬ UsesFirst id (A ++ u :: attach bs R) := by
  intro hall
  have hrest : UsesFirst id (attach bs R) :=
    (List.pairwise_cons.1 (List.pairwise_append.1 hall).2.1).2
  obtain ⟨v, -, ⟨heq, -, hv⟩ | ⟨n, R, rfl, hn, heq, hv⟩⟩ := attach_cases id bs R
  · rw [heq, usesFirst_cons] at hrest
    exact hrest.1 (hv.2 hbs) hu
  · rw [heq, usesFirst_cons] at hrest
    refine hrest.1 (hv.2 (.inr hbs)) ((used_cons.1 hu).resolve_left ?_)
    simp [usesTool, hn]

theorem not_usesFirst_synthetic (hres : resultsOf id l = [])
    (hc : 2 ≤ l.countP (usesTool id)) : ¬ UsesFirst id (insertSyntheticResults l).1 := by
  obtain ⟨A, u, B, hl, hu, hB⟩ := exists_split_of_used_twice hc
  have hget : l[A.length]? = some u := by rw [hl]; simp
  have hmem : (A.length, id) ∈ orphanedUses l :=
    mem_orphanedUses.2 ⟨u, hget, (usesTool_iff.1 hu).1, (usesTool_iff.1 hu).2, hres⟩
  -- until the round of the first message, a use stands behind it
  refine (insert_induction (P := fun ks l' =>
    (A.length ∈ ks → ∃ R, l' = A ++ u :: R ∧ Used id R) ∧ (A.length ∉ ks → ¬ UsesFirst id l'))
    ⟨fun _ => ⟨B, hl, hB⟩, fun hno => absurd (mem_answerKeys.2 ⟨id, hmem⟩) hno⟩ ?_).2 (by simp)
  intro a ks X m R hsuf hX _ _ ⟨hin, hout⟩
  have hpair := (descendingKeys_pairwise _).sublist hsuf.sublist
  by_cases ha : a = A.length
  · obtain ⟨R', heq, hR⟩ := hin (ha ▸ List.mem_cons_self)
    obtain ⟨rfl, hrest⟩ := List.append_inj heq (hX.trans ha)
    obtain ⟨rfl, rfl⟩ := List.cons.inj hrest
    subst ha
    refine ⟨fun hks => absurd (List.rel_of_pairwise_cons hpair hks) (lt_irrefl _), fun _ => ?_⟩
    exact not_usesFirst_attach hR
      ⟨_, mem_syntheticFor.2 ⟨id, hmem, rfl⟩, answers_syntheticResult.2 rfl⟩
  · refine ⟨fun hks => ?_, fun hks hfirst => ?_⟩
    · obtain ⟨R', heq, hR⟩ := hin (List.mem_cons_of_mem a hks)
      have hlt : A.length < a := List.rel_of_pairwise_cons hpair hks
      -- the round is for a later message
      obtain ⟨Y, rfl, hY⟩ | ⟨Y, hA, -⟩ := List.append_eq_append_iff.1 heq.symm
      · cases Y with
        | nil => simp [← hX] at hlt
        | cons y Y =>
          obtain ⟨rfl, rfl⟩ := List.cons.inj hY
          have hY : Used id (Y ++ m :: R) := hR
          refine ⟨Y ++ m :: attach (syntheticFor (orphanedUses l) a) R, by simp, ?_⟩
          rw [used_append, used_cons] at hY ⊢
          rwa [used_attach]
      · rw [hA, List.length_append] at hlt
        omega
    · exact hout (fun hmem' => (List.mem_cons.1 hmem').elim (fun e => ha e.symm) hks)
        hfirst.of_attach

theorem not_usesFirst_validateAndRepair (hres : resultsOf id h = [])
    (hc : 2 ≤ h.countP (usesTool id)) : ¬ UsesFirst id (validateAndRepair h) := by
  have hne := noEmpty_removeOrphans h
  have hnil : resultsOf id (reorderToolResults (removeOrphans h)).1 = [] := by
    rw [resultsOf_reorder_eq_nil hne, resultsOf_removeOrphans, hres]
    exact mem_toolUseIds_of_used (used_iff_countP.2 (by omega))
  have hcount : 2 ≤ (reorderToolResults (removeOrphans h)).1.countP (usesTool id) := by
    rwa [countP_reorder hne, countP_removeOrphans]
  intro hfirst
  rw [validateAndRepair_eq] at hfirst
  have hpair : UsesFirst id (pairUp h) := by
    refine UsesFirst.of_sublist (removeAborted_sublist _) (countP_removeAborted _)
      (resultsOf_removeAborted id _) ?_
    cases hkept : removeAbortedAssistantMessages (pairUp h) with
    | nil => exact List.Pairwise.nil
    | cons m l =>
      rw [hkept] at hfirst
      exact hfirst.of_mergeInto
  refine not_usesFirst_synthetic hnil hcount
    (UsesFirst.of_dedup (results_user_synthetic hnil) List.not_mem_nil ?_)
  exact UsesFirst.of_sublist List.filter_sublist (countP_retainNonEmpty _)
    (resultsOf_retainNonEmpty id _) hpair

/-! ### Idempotence -/

theorem usesFirst_validateAndRepair (hid : resultsOf id h = [] → h.countP (usesTool id) ≤ 1) :
    UsesFirst id (validateAndRepair h) := InPlace.usesFirst (inPlace_validateAndRepair hid)

theorem used_validateAndRepair (h : List Message) :
    Used id (validateAndRepair h) ↔ Used id h := by
  have hne := noEmpty_removeOrphans h
  have hpair : Used id (pairUp h) ↔ Used id h := by
    rw [used_iff_mem_assistantUseIds, assistantUseIds_eq_skeleton, pairUp,
      skeleton_dedup (content_ne_synthetic (content_ne_reorder hne)), skeleton_synthetic,
      skeleton_reorder hne, ← assistantUseIds_eq_skeleton, assistantUseIds_removeOrphans,
      ← used_iff_mem_assistantUseIds]
  rw [validateAndRepair_eq, ← hpair, ← used_congr (countP_removeAborted (pairUp h))]
  cases removeAbortedAssistantMessages (pairUp h) with
  | nil => rfl
  | cons m l => exact used_mergeInto

theorem toolUseIds_validateAndRepair (h : List Message) :
    toolUseIds (validateAndRepair h) = toolUseIds h := by
  rw [validateAndRepair_eq, toolUseIds_merge, toolUseIds_removeAborted, toolUseIds_pairUp]

theorem resultsOf_attach_perm (id : String) (bs : List ContentBlock) (R : List Message) :
    (resultsOf id (attach bs R)).Perm (bs.filter (ContentBlock.answers id) ++ resultsOf id R) := by
  cases R with
  | nil => simp [attach, Message.resultsFor]
  | cons n R =>
    by_cases hn : n.role = .user
    · rw [attach_user hn, resultsOf_cons, resultsOf_cons, ← List.append_assoc, Message.resultsFor,
        Message.blocks_mk_blocks, List.filter_append]
      exact List.perm_append_comm.append_right _
    · rw [attach_not_user hn, resultsOf_cons]
      exact .refl _

theorem resultsOf_placed_ne_nil {X : List Message} : resultsOf id (X ++ m :: attach bs R) ≠ [] ↔
    (∃ b ∈ bs, b.answers id = true) ∨ resultsOf id (X ++ m :: R) ≠ [] := by
  have hattach : resultsOf id (attach bs R) = [] ↔
      (¬ ∃ b ∈ bs, b.answers id = true) ∧ resultsOf id R = [] := by
    have hperm := resultsOf_attach_perm id bs R
    rw [← List.length_eq_zero_iff, hperm.length_eq, List.length_eq_zero_iff,
      List.append_eq_nil_iff, List.filter_eq_nil_iff]
    simp
  rw [Ne, Ne, resultsOf_append, resultsOf_cons, resultsOf_append, resultsOf_cons,
    List.append_eq_nil_iff, List.append_eq_nil_iff, List.append_eq_nil_iff,
    List.append_eq_nil_iff, hattach]
  by_cases hbs : ∃ b ∈ bs, b.answers id = true
  · simp [hbs]
  · simp [hbs]

/-- After the insertion the ids with a result are those that had one and those that are used. -/
theorem resultsOf_synthetic_ne_nil :
    resultsOf id (insertSyntheticResults l).1 ≠ [] ↔ resultsOf id l ≠ [] ∨ Used id l := by
  constructor
  · refine insert_induction (P := fun _ l' => resultsOf id l' ≠ [] →
      resultsOf id l ≠ [] ∨ Used id l) .inl ?_
    intro a ks X m R _ _ _ _ hP hne
    rcases resultsOf_placed_ne_nil.1 hne with ⟨b, hb, hans⟩ | hne
    · obtain ⟨id', hid', rfl⟩ := mem_syntheticFor.1 hb
      obtain rfl : id' = id := answers_syntheticResult.1 hans
      obtain ⟨m', hm', hr, hidm, -⟩ := mem_orphanedUses.1 hid'
      exact .inr ⟨m', List.mem_of_getElem? hm', usesTool_iff.2 ⟨hr, hidm⟩⟩
    · exact hP hne
  · intro hor
    refine (insert_induction (P := fun ks l' => resultsOf id l' ≠ [] ∨
      ∃ a ∈ ks, (a, id) ∈ orphanedUses l) ?_ ?_).resolve_right (by simp)
    · by_cases hres : resultsOf id l = []
      · obtain ⟨m, hm, hu⟩ := hor.resolve_left (not_not.2 hres)
        obtain ⟨a, ha⟩ := List.mem_iff_getElem?.1 hm
        have hmem := mem_orphanedUses.2
          ⟨m, ha, (usesTool_iff.1 hu).1, (usesTool_iff.1 hu).2, hres⟩
        exact .inr ⟨a, mem_answerKeys.2 ⟨id, hmem⟩, hmem⟩
      · exact .inl hres
    · intro a ks X m R _ _ _ _ hP
      rw [resultsOf_placed_ne_nil]
      rcases hP with hne | ⟨a', ha', hmem⟩
      · exact .inl (.inr hne)
      · rcases List.mem_cons.1 ha' with rfl | ha'
        · exact .inl (.inl ⟨_, mem_syntheticFor.2 ⟨id, hmem, rfl⟩,
            answers_syntheticResult.2 rfl⟩)
        · exact .inr ⟨a', ha', hmem⟩

/-- The ids with a result after a run: those that are used by an assistant message, and those that
had a result and a use. -/
theorem resultsOf_validateAndRepair_ne_nil : resultsOf id (validateAndRepair h) ≠ [] ↔
    Used id h ∨ (resultsOf id h ≠ [] ∧ id ∈ toolUseIds h) := by
  have hne := noEmpty_removeOrphans h
  have hpair : resultsOf id (validateAndRepair h) = (resultsOf id
      (insertSyntheticResults (reorderToolResults (removeOrphans h)).1).1).take 1 := by
    rw [validateAndRepair_eq, resultsOf_merge, resultsOf_removeAborted, pairUp, resultsOf_dedup]
  have hused : Used id (reorderToolResults (removeOrphans h)).1 ↔ Used id h :=
    used_congr (by rw [countP_reorder hne, countP_removeOrphans])
  have htake : ∀ xs : List ContentBlock, xs.take 1 ≠ [] ↔ xs ≠ [] := fun xs => by simp
  rw [hpair, htake, resultsOf_synthetic_ne_nil, hused, Ne, resultsOf_reorder_eq_nil hne, or_comm]
  by_cases hid : id ∈ toolUseIds h
  · rw [resultsOf_removeOrphans hid]
    simp [hid]
  · have hnil : resultsOf id (removeOrphans h) = [] := by
      by_contra hres
      obtain ⟨m, hm, hidm⟩ := resultsOf_ne_nil.1 hres
      exact hid (mem_toolUseIds_of_removeOrphans hm hidm)
    simp [hid, hnil]

/-- **The repair is idempotent** on a history if and only if every id that two assistant messages
use has a result somewhere. -/
theorem validateAndRepair_idempotent_iff (h : List Message) :
    validateAndRepair (validateAndRepair h) = validateAndRepair h ↔
      ∀ id, 2 ≤ h.countP (usesTool id) → id ∈ existingResultIds h := by
  constructor
  · intro hfixed id hc
    by_contra hno
    rw [mem_existingResultIds, not_not] at hno
    refine not_usesFirst_validateAndRepair hno hc ?_
    -- the second run finds the result of the first, and puts it in place
    have hused : Used id h := used_iff_countP.2 (Nat.zero_lt_two.trans_le hc)
    have hres : resultsOf id (validateAndRepair h) ≠ [] :=
      resultsOf_validateAndRepair_ne_nil.2 (.inl hused)
    have hfirst : UsesFirst id (validateAndRepair (validateAndRepair h)) :=
      usesFirst_validateAndRepair fun hnil => absurd hnil hres
    rwa [hfixed] at hfirst
  · intro hall
    refine validateAndRepair_eq_self (noEmpty_validateAndRepair h) (fun id hres => ?_)
      (fun id => inPlace_validateAndRepair fun hnil => ?_) (fun id hu => ?_) (fun id => ?_) ?_ ?_
    · rw [toolUseIds_validateAndRepair]
      exact (resultsOf_validateAndRepair_ne_nil.1 hres).elim mem_toolUseIds_of_used And.right
    · by_contra hc
      exact mem_existingResultIds.1 (hall id (by omega)) hnil
    · exact resultsOf_validateAndRepair_ne_nil.2 (.inl ((used_validateAndRepair h).1 hu))
    · rw [validateAndRepair_eq, resultsOf_merge, resultsOf_removeAborted, pairUp, resultsOf_dedup]
      exact List.length_take_le 1 _
    · rw [validateAndRepair_eq]
      have hlast := not_aborted_removeAborted (pairUp h)
      cases hkept : removeAbortedAssistantMessages (pairUp h) with
      | nil => simp [mergeConsecutive]
      | cons m l => exact not_aborted_mergeInto (hkept ▸ hlast)
    · rw [validateAndRepair_eq]
      exact mergeConsecutive_alternate _

/-- Two assistant messages with one id, and no result for it: the first run answers behind the
first of them, the second behind the last. -/
theorem not_all_idempotent :
    ¬ ∀ h : List Message, validateAndRepair (validateAndRepair h) = validateAndRepair h := by
  intro hall
  have hfixed := hall [⟨.assistant, .blocks [.toolUse "a" "ls" .null]⟩, .user "go on",
    ⟨.assistant, .blocks [.toolUse "a" "ls" .null]⟩]
  revert hfixed
  decide

end SessionRepair
end RustyHand
