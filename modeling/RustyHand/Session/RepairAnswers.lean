import RustyHand.Session.RepairReorder

/-!
# One result for each use, and merging

The last passes of the repair.  `insert_synthetic_results` answers the uses that have no result, in
the same kind of loop as the reordering pass; `deduplicate_tool_results` keeps the first result of
each id, aborted messages are removed, and neighbours of one role are merged.
-/

namespace RustyHand
namespace SessionRepair

open DescendingInsert Pairing

variable {l : List Message} {id : String} {a : ℕ}

/-! ### Uses without a result -/

theorem mem_existingResultIds : id ∈ existingResultIds l ↔ resultsOf id l ≠ [] := by
  rw [resultsOf_ne_nil, existingResultIds, List.mem_flatMap]

theorem mem_orphanedUses : (a, id) ∈ orphanedUses l ↔
    ∃ m, l[a]? = some m ∧ m.role = .assistant ∧ id ∈ m.useIds ∧ resultsOf id l = [] := by
  simp only [orphanedUses, List.mem_flatMap, Prod.exists, List.mk_mem_zipIdx_iff_getElem?]
  constructor
  · rintro ⟨m, i, hi, he⟩
    split at he
    · simp only [List.mem_map, List.mem_filter, Bool.not_eq_true', List.contains_eq_mem,
        decide_eq_false_iff_not, mem_existingResultIds, not_not] at he
      obtain ⟨id', ⟨hid, hres⟩, he⟩ := he
      cases he
      exact ⟨m, hi, ‹_›, hid, hres⟩
    · simp at he
  · rintro ⟨m, hi, hr, hid, hres⟩
    refine ⟨m, a, hi, ?_⟩
    rw [if_pos hr]
    simp [mem_existingResultIds, hid, hres]

theorem orphanedUses_map_snd_sublist (l : List Message) :
    ((orphanedUses l).map Prod.snd).Sublist (toolUseIds l) := by
  have hgen : ∀ (q : String → Bool) (L : List Message) (k : ℕ),
      (((L.zipIdx k).flatMap fun e =>
        if e.1.role = .assistant then (e.1.useIds.filter q).map fun id => (e.2, id)
        else []).map Prod.snd).Sublist (toolUseIds L) := by
    intro q L
    induction L with
    | nil => intro k; simp
    | cons m L ih =>
      intro k
      rw [List.zipIdx_cons, List.flatMap_cons, List.map_append, toolUseIds_cons]
      refine List.Sublist.append ?_ (ih (k + 1))
      by_cases hr : m.role = .assistant
      · simp [hr, Function.comp_def]
      · simp [hr]
  exact hgen (fun id => !(existingResultIds l).contains id) l 0

/-- The keys of the loop, last first. -/
def answerKeys (l : List Message) : List ℕ := descendingKeys ((orphanedUses l).map Prod.fst)

theorem mem_answerKeys : a ∈ answerKeys l ↔ ∃ id, (a, id) ∈ orphanedUses l := by
  simp [answerKeys]

theorem insertSyntheticResults_eq (l : List Message) :
    (insertSyntheticResults l).1 = (answerKeys l).foldl
      (insertBehind some (syntheticFor (orphanedUses l))) l := by
  unfold insertSyntheticResults
  by_cases h : orphanedUses l = []
  · simp [h, answerKeys, descendingKeys]
  · simp only [List.isEmpty_iff, h, if_false]
    rfl

/-- **The loop over unanswered uses**, with the keys still to come. -/
theorem insert_induction {P : List ℕ → List Message → Prop} (h0 : P (answerKeys l) l)
    (hstep : ∀ a ks X m R, (a :: ks) <:+ answerKeys l → X.length = a → l[a]? = some m →
      m.role = .assistant → P (a :: ks) (X ++ m :: R) →
      P ks (X ++ m :: attach (syntheticFor (orphanedUses l) a) R)) :
    P [] (insertSyntheticResults l).1 := by
  rw [insertSyntheticResults_eq]
  have hkey : ∀ a ∈ answerKeys l, ∃ m, l[a]? = some m ∧ m.role = .assistant := by
    intro a ha
    obtain ⟨id, hid⟩ := mem_answerKeys.1 ha
    obtain ⟨m, hm, hr, -⟩ := mem_orphanedUses.1 hid
    exact ⟨m, hm, hr⟩
  refine foldl_insertBehind (fun a ha => ?_) ?_ h0 fun a ks X m R₀ R hsuf ha hl₀ hP => ?_
  · obtain ⟨m, hm, -⟩ := hkey a ha
    obtain ⟨hlt, heq⟩ := List.getElem?_eq_some_iff.1 hm
    refine ⟨l.take a, m, l.drop (a + 1), ?_, ?_⟩
    · rw [List.length_take, min_eq_left hlt.le]
    · rw [← heq, ← List.drop_eq_getElem_cons hlt, List.take_append_drop]
  · exact (descendingKeys_pairwise _).imp fun hab => hab.le
  · obtain ⟨m', hm', hr⟩ := hkey a (hsuf.subset List.mem_cons_self)
    obtain rfl : a = X.length := Option.some.inj ha
    obtain rfl : m = m' := by
      rw [hl₀] at hm'
      simpa using hm'
    exact hstep _ ks X m R hsuf rfl hm' hr hP

theorem mem_syntheticFor {b : ContentBlock} :
    b ∈ syntheticFor (orphanedUses l) a ↔
      ∃ id, (a, id) ∈ orphanedUses l ∧ b = syntheticResult id := by
  simp only [syntheticFor, List.mem_map, List.mem_filter, decide_eq_true_eq, Prod.exists]
  constructor
  · rintro ⟨i, id, ⟨hmem, rfl⟩, rfl⟩
    exact ⟨id, hmem, rfl⟩
  · rintro ⟨id, hmem, rfl⟩
    exact ⟨a, id, ⟨hmem, rfl⟩, rfl⟩

theorem syntheticFor_isToolResult {b : ContentBlock}
    (hb : b ∈ syntheticFor (orphanedUses l) a) : b.isToolResult = true := by
  obtain ⟨id, -, rfl⟩ := mem_syntheticFor.1 hb
  rfl

/-! ### What the insertion keeps -/

theorem toolUseIds_synthetic (l : List Message) :
    toolUseIds (insertSyntheticResults l).1 = toolUseIds l := by
  refine insert_induction (P := fun _ l' => toolUseIds l' = toolUseIds l) rfl ?_
  intro a ks X m R _ _ _ _ hP
  rw [← hP]
  simp [toolUseIds_attach fun b => syntheticFor_isToolResult (b := b)]

theorem skeleton_synthetic (l : List Message) :
    skeleton (insertSyntheticResults l).1 = skeleton l := by
  refine insert_induction (P := fun _ l' => skeleton l' = skeleton l) rfl ?_
  intro a ks X m R _ _ _ _ hP
  rw [← hP]
  simp [skeleton_attach fun b => syntheticFor_isToolResult (b := b)]

theorem content_ne_synthetic (h : ∀ m ∈ l, m.content ≠ .text "") :
    ∀ m ∈ (insertSyntheticResults l).1, m.content ≠ .text "" := by
  refine insert_induction (P := fun _ l' => ∀ m ∈ l', m.content ≠ .text "") h ?_
  intro a ks X m R _ _ _ _ hP
  rw [List.forall_mem_append, List.forall_mem_cons] at hP ⊢
  exact ⟨hP.1, hP.2.1, content_ne_attach hP.2.2⟩

theorem resultsFollow_synthetic (hd : Disciplined l) (hf : ResultsFollow [] l) :
    Disciplined (insertSyntheticResults l).1 ∧ ResultsFollow [] (insertSyntheticResults l).1 := by
  refine insert_induction (P := fun _ l' => Disciplined l' ∧ ResultsFollow [] l') ⟨hd, hf⟩ ?_
  rintro a ks X m R - - hget - ⟨hdR, hfR⟩
  refine attach_round (fun b => syntheticFor_isToolResult) (fun b hb id hid => ?_) hdR hfR
  obtain ⟨id', hid', rfl⟩ := mem_syntheticFor.1 hb
  obtain rfl : id' = id := by simpa [syntheticResult] using hid
  obtain ⟨m', hm', -, hidm, -⟩ := mem_orphanedUses.1 hid'
  rw [Option.some.inj (hget.symm.trans hm')]
  exact hidm

/-! ### The results after the insertion -/

/-- The results for `id`, or a synthetic one for a use of an assistant message without any. -/
def answersOr (l : List Message) (id : String) : List ContentBlock :=
  if resultsOf id l = [] ∧ (toolUseIndex l id).isSome then [syntheticResult id]
  else resultsOf id l

theorem answers_syntheticResult {id id' : String} :
    (syntheticResult id').answers id = true ↔ id' = id := by
  simp [syntheticResult, ContentBlock.answers]

theorem filter_snd_of_nodup {xs : List (ℕ × String)} (hx : (xs.map Prod.snd).Nodup)
    (hmem : (a, id) ∈ xs) : xs.filter (fun e => e.2 = id) = [(a, id)] := by
  induction xs with
  | nil => simp at hmem
  | cons x xs ih =>
    rw [List.map_cons, List.nodup_cons] at hx
    rcases List.mem_cons.1 hmem with rfl | hmem
    · have hnone : xs.filter (fun e => e.2 = id) = [] := by
        rw [List.filter_eq_nil_iff]
        intro e he hid
        exact hx.1 (List.mem_map.2 ⟨e, he, of_decide_eq_true hid⟩)
      simp [hnone]
    · have hne : x.2 ≠ id := fun hid => hx.1 (hid ▸ List.mem_map_of_mem (f := Prod.snd) hmem)
      simp [hne, ih hx.2 hmem]

theorem orphanedUses_key (hn : (toolUseIds l).Nodup) (hmem : (a, id) ∈ orphanedUses l) :
    toolUseIndex l id = some a := by
  obtain ⟨m, hm, hr, hid, -⟩ := mem_orphanedUses.1 hmem
  exact toolUseIndex_of_getElem? hn hm hr hid

theorem synthetic_answers_key (hn : (toolUseIds l).Nodup) (hmem : (a, id) ∈ orphanedUses l) :
    (syntheticFor (orphanedUses l) a).filter (ContentBlock.answers id) = [syntheticResult id] := by
  have hkey := filter_snd_of_nodup (hn.sublist (orphanedUses_map_snd_sublist l)) hmem
  have hcomp : (fun e : ℕ × String => (syntheticResult e.2).answers id) =
      fun e => decide (e.2 = id) := by
    funext e
    rw [Bool.eq_iff_iff, answers_syntheticResult, decide_eq_true_eq]
  rw [syntheticFor, List.filter_map, Function.comp_def, hcomp, List.filter_comm, hkey]
  simp

theorem synthetic_answers_not (h : ∀ a, (a, id) ∉ orphanedUses l) :
    ∀ b ∈ syntheticFor (orphanedUses l) a, b.answers id = false := by
  intro b hb
  obtain ⟨id', hid', rfl⟩ := mem_syntheticFor.1 hb
  rw [← Bool.not_eq_true, answers_syntheticResult]
  rintro rfl
  exact h a hid'

theorem resultsOf_synthetic (hn : (toolUseIds l).Nodup) (id : String) :
    resultsOf id (insertSyntheticResults l).1 = answersOr l id := by
  by_cases h : resultsOf id l = [] ∧ (toolUseIndex l id).isSome
  · obtain ⟨hres, hidx⟩ := h
    obtain ⟨a, ha⟩ := Option.isSome_iff_exists.1 hidx
    obtain ⟨A, u, B, hl, rfl, hr, hid⟩ := toolUseIndex_eq_some ha
    have hget : l[A.length]? = some u := by rw [hl]; simp
    have hmem : (A.length, id) ∈ orphanedUses l := mem_orphanedUses.2 ⟨u, hget, hr, hid, hres⟩
    rw [answersOr, if_pos ⟨hres, hidx⟩]
    refine (insert_induction (P := fun ks l' =>
      (A.length ∈ ks → resultsOf id l' = []) ∧
        (A.length ∉ ks → resultsOf id l' = [syntheticResult id]))
      ⟨fun _ => hres, fun hno => absurd (mem_answerKeys.2 ⟨id, hmem⟩) hno⟩ ?_).2 (by simp)
    intro c ks X m R hsuf _ _ _ ⟨hin, hout⟩
    by_cases hc : c = A.length
    · subst hc
      have hnil := hin List.mem_cons_self
      rw [resultsOf_append, resultsOf_cons, List.append_eq_nil_iff, List.append_eq_nil_iff] at hnil
      have hno : ∀ n ∈ R, n.role = .user → n.resultsFor id = [] := fun n hn _ =>
        List.flatMap_eq_nil_iff.1 hnil.2.2 n hn
      have hpair := (descendingKeys_pairwise _).sublist hsuf.sublist
      refine ⟨fun hks => absurd (List.rel_of_pairwise_cons hpair hks) (lt_irrefl _), fun _ => ?_⟩
      rw [resultsOf_append, resultsOf_cons, resultsOf_attach_of_no_user hno,
        synthetic_answers_key hn hmem, hnil.1, hnil.2.1, hnil.2.2]
      rfl
    · have hbs : ∀ b ∈ syntheticFor (orphanedUses l) c, b.answers id = false := by
        intro b hb
        obtain ⟨id', hid', rfl⟩ := mem_syntheticFor.1 hb
        rw [← Bool.not_eq_true, answers_syntheticResult]
        rintro rfl
        exact hc (Option.some.inj ((orphanedUses_key hn hid').symm.trans ha))
      refine ⟨fun hks => ?_, fun hks => ?_⟩
      · rw [← hin (List.mem_cons_of_mem c hks)]
        simp [resultsOf_attach_of_not hbs]
      · rw [← hout fun hmem' => (List.mem_cons.1 hmem').elim (fun e => hc e.symm) hks]
        simp [resultsOf_attach_of_not hbs]
  · have hno : ∀ a, (a, id) ∉ orphanedUses l := by
      intro a hmem
      obtain ⟨m, hm, hr, hid, hres⟩ := mem_orphanedUses.1 hmem
      exact h ⟨hres, toolUseIndex_isSome ⟨m, List.mem_of_getElem? hm, hr, hid⟩⟩
    rw [answersOr, if_neg h]
    refine insert_induction (P := fun _ l' => resultsOf id l' = resultsOf id l) rfl ?_
    intro c ks X m R _ _ _ _ hP
    rw [← hP]
    simp [resultsOf_attach_of_not (synthetic_answers_not hno)]

end SessionRepair
end RustyHand

/-!
## Duplicates, aborted messages and merging

None of these passes moves a block from one message to another place of the history: the
deduplication and the removal of aborted messages thin it out, and merging joins neighbours.
-/

namespace RustyHand
namespace SessionRepair

open Pairing

variable {l : List Message} {id : String}

/-! ### Duplicates -/

/-- `m'` is `m` with some of its results taken out. -/
structure Trimmed (m m' : Message) : Prop where
  role : m'.role = m.role
  useIds : m'.useIds = m.useIds
  plainBlocks : m'.plainBlocks = m.plainBlocks
  resultIds : m'.resultIds ⊆ m.resultIds
  content : m'.content = .text "" → m.content = .text ""

theorem Trimmed.refl (m : Message) : Trimmed m m :=
  ⟨rfl, rfl, rfl, List.Subset.refl _, fun h => h⟩

theorem dedupBlocks_fst_sublist (seen : List String) (bs : List ContentBlock) :
    (dedupBlocks seen bs).1.Sublist bs := by
  induction bs generalizing seen with
  | nil => simp [dedupBlocks]
  | cons b bs ih =>
    unfold dedupBlocks
    split
    · split
      · exact (ih _).cons b
      · exact (ih _).cons_cons b
    · exact (ih _).cons_cons b

theorem dedupBlocks_filterMap {β : Type*} {f : ContentBlock → Option β}
    (hf : ∀ b, b.resultId?.isSome → f b = none) (seen : List String) (bs : List ContentBlock) :
    (dedupBlocks seen bs).1.filterMap f = bs.filterMap f := by
  induction bs generalizing seen with
  | nil => simp [dedupBlocks]
  | cons b bs ih =>
    cases hb : b.resultId? with
    | none => simp [dedupBlocks, hb, List.filterMap_cons, ih]
    | some id =>
      have hnone : f b = none := hf b (by simp [hb])
      by_cases hid : id ∈ seen <;> simp [dedupBlocks, hb, hid, hnone, ih]

theorem dedupMessages_trimmed (seen : List String) (l : List Message) :
    List.Forall₂ Trimmed l (dedupMessages seen l) := by
  induction l generalizing seen with
  | nil => exact .nil
  | cons m l ih =>
    obtain ⟨r, c⟩ := m
    cases c with
    | text s => exact .cons (Trimmed.refl _) (ih seen)
    | blocks bs =>
      refine .cons ⟨rfl, ?_, ?_, ?_, fun h => by cases h⟩ (ih _)
      · refine dedupBlocks_filterMap (fun b hb => ?_) seen bs
        cases b <;> simp_all [ContentBlock.resultId?, ContentBlock.useId?]
      · simp only [Message.plainBlocks, Message.blocks_mk_blocks, ← List.filterMap_eq_filter]
        refine dedupBlocks_filterMap (fun b hb => ?_) seen bs
        simp [Option.guard, ContentBlock.isToolResult, hb]
      · exact (dedupBlocks_fst_sublist seen bs).filterMap _ |>.subset

/-- The ids that have been seen, and the results of an id that are kept. -/
theorem dedupBlocks_answers (seen : List String) (bs : List ContentBlock) :
    (id ∈ (dedupBlocks seen bs).2 ↔ id ∈ seen ∨ bs.filter (ContentBlock.answers id) ≠ []) ∧
      (dedupBlocks seen bs).1.filter (ContentBlock.answers id) =
        if id ∈ seen then [] else (bs.filter (ContentBlock.answers id)).take 1 := by
  induction bs generalizing seen with
  | nil => simp [dedupBlocks]
  | cons b bs ih =>
    cases hb : b.resultId? with
    | none => simp [dedupBlocks, hb, ih, ContentBlock.answers]
    | some id' =>
      by_cases hid : id' = id
      · subst hid
        by_cases hseen : id' ∈ seen <;> simp [dedupBlocks, hb, hseen, ih, ContentBlock.answers]
      · by_cases hseen : id' ∈ seen <;>
          simp [dedupBlocks, hb, hseen, ih, ContentBlock.answers, hid, Ne.symm hid]

/-- The first result of each id is kept. -/
theorem resultsOf_dedupMessages (seen : List String) (l : List Message) :
    resultsOf id (dedupMessages seen l) = if id ∈ seen then [] else (resultsOf id l).take 1 := by
  induction l generalizing seen with
  | nil => simp [dedupMessages]
  | cons m l ih =>
    obtain ⟨r, c⟩ := m
    cases c with
    | text s => simp [dedupMessages, Message.resultsFor, ContentBlock.answers,
        ContentBlock.resultId?, ih]
    | blocks bs =>
      simp only [dedupMessages, resultsOf_cons, Message.resultsFor, Message.blocks_mk_blocks,
        (dedupBlocks_answers _ _).2, ih, (dedupBlocks_answers _ _).1]
      by_cases hseen : id ∈ seen
      · simp [hseen]
      · cases hbs : bs.filter (ContentBlock.answers id) <;> simp [hseen]

section Trimmed

variable {l' : List Message} (h : List.Forall₂ Trimmed l l')
include h

theorem flatMap_of_trimmed {β : Type*} {f : Message → List β}
    (hf : ∀ m m', Trimmed m m' → f m' = f m) : l'.flatMap f = l.flatMap f := by
  induction h with
  | nil => rfl
  | cons hm _ ih => rw [List.flatMap_cons, List.flatMap_cons, hf _ _ hm, ih]

theorem Disciplined.trimmed (hd : Disciplined l) : Disciplined l' := by
  induction h with
  | nil => exact hd
  | cons hm _ ih =>
    obtain ⟨⟨hu, hr⟩, hd⟩ := Disciplined.cons.1 hd
    refine Disciplined.cons.2 ⟨⟨fun hne => ?_, fun hne => ?_⟩, ih hd⟩
    · rw [hm.role]
      exact hu (hm.useIds ▸ hne)
    · rw [hm.role]
      exact hr fun hnil => hne (List.eq_nil_of_subset_nil (hnil ▸ hm.resultIds))

theorem resultsFollow_trimmed {prev : List String} (hf : ResultsFollow prev l) :
    ResultsFollow prev l' := by
  induction h generalizing prev with
  | nil => exact hf
  | cons hm _ ih =>
    refine ⟨fun id hid => hf.1 id (hm.resultIds hid), ?_⟩
    rw [hm.useIds]
    exact ih hf.2

theorem content_ne_trimmed (hl : ∀ m ∈ l, m.content ≠ .text "") :
    ∀ m ∈ l', m.content ≠ .text "" := by
  induction h with
  | nil => exact hl
  | cons hm _ ih =>
    rw [List.forall_mem_cons] at hl ⊢
    exact ⟨fun he => hl.1 (hm.content he), ih hl.2⟩

end Trimmed

theorem toolUseIds_dedup (l : List Message) :
    toolUseIds (deduplicateToolResults l).1 = toolUseIds l := by
  rw [deduplicateToolResults, toolUseIds_retainNonEmpty]
  exact flatMap_of_trimmed (dedupMessages_trimmed [] l) fun _ _ hm => hm.useIds

theorem skeleton_dedup (hl : ∀ m ∈ l, m.content ≠ .text "") :
    skeleton (deduplicateToolResults l).1 = skeleton l := by
  have htrim := dedupMessages_trimmed [] l
  rw [deduplicateToolResults, skeleton_retainNonEmpty (content_ne_trimmed htrim hl)]
  exact flatMap_of_trimmed htrim fun _ _ hm => spoken_congr hm.role hm.plainBlocks

theorem resultsOf_dedup (l : List Message) (id : String) :
    resultsOf id (deduplicateToolResults l).1 = (resultsOf id l).take 1 := by
  rw [deduplicateToolResults, resultsOf_retainNonEmpty, resultsOf_dedupMessages]
  simp

theorem resultsFollow_dedup (hd : Disciplined l) (hf : ResultsFollow [] l) :
    Disciplined (deduplicateToolResults l).1 ∧ ResultsFollow [] (deduplicateToolResults l).1 := by
  have htrim := dedupMessages_trimmed [] l
  refine ⟨(Disciplined.trimmed htrim hd).sublist List.filter_sublist, ?_⟩
  exact (resultsFollow_trimmed htrim hf).filter fun m _ hm => useIds_of_isEmpty (by simpa using hm)

/-! ### Aborted assistant messages -/

theorem isEmptyOrBlankContent_blocks {m : Message} (h : isEmptyOrBlankContent m.content = true) :
    m.useIds = [] ∧ m.resultIds = [] := by
  obtain ⟨r, c⟩ := m
  cases c with
  | text s => exact ⟨rfl, rfl⟩
  | blocks bs =>
    have hall := List.all_eq_true.1 h
    constructor <;> refine List.filterMap_eq_nil_iff.2 fun b hb => ?_ <;> have := hall b hb <;>
      cases b <;> simp_all [ContentBlock.useId?, ContentBlock.resultId?]

theorem isAborted_iff {m : Message} : isAborted m = true ↔
    m.role = .assistant ∧ isEmptyOrBlankContent m.content = true := by
  simp [isAborted]

theorem removeAborted_sublist (l : List Message) :
    (removeAbortedAssistantMessages l).Sublist l := by
  fun_induction removeAbortedAssistantMessages l with
  | case1 => exact List.Sublist.refl _
  | case2 m => exact List.Sublist.refl _
  | case3 m n ms _ ih => exact ih.cons m
  | case4 m n ms _ ih => exact ih.cons_cons m

/-- What aborted messages do not hold, the pass leaves alone. -/
theorem flatMap_removeAborted {β : Type*} {f : Message → List β}
    (hf : ∀ m, isAborted m = true → f m = []) (l : List Message) :
    (removeAbortedAssistantMessages l).flatMap f = l.flatMap f := by
  fun_induction removeAbortedAssistantMessages l with
  | case1 => rfl
  | case2 m => rfl
  | case3 m n ms hm ih => rw [List.flatMap_cons, hf m hm, ih, List.nil_append]
  | case4 m n ms _ ih => rw [List.flatMap_cons, List.flatMap_cons, ih]

theorem toolUseIds_removeAborted (l : List Message) :
    toolUseIds (removeAbortedAssistantMessages l) = toolUseIds l :=
  flatMap_removeAborted (fun _ hm => (isEmptyOrBlankContent_blocks (isAborted_iff.1 hm).2).1) l

theorem resultsOf_removeAborted (id : String) (l : List Message) :
    resultsOf id (removeAbortedAssistantMessages l) = resultsOf id l := by
  refine flatMap_removeAborted (fun m hm => ?_) l
  by_contra hne
  have := Message.mem_resultIds_iff_resultsFor.2 hne
  simp [(isEmptyOrBlankContent_blocks (isAborted_iff.1 hm).2).2] at this

theorem resultsFollow_removeAborted {prev : List String} (hf : ResultsFollow prev l) :
    ResultsFollow prev (removeAbortedAssistantMessages l) := by
  fun_induction removeAbortedAssistantMessages l generalizing prev with
  | case1 => exact hf
  | case2 m => exact hf
  | case3 m n ms hm ih =>
    refine ih (hf.2.mono fun id hid => ?_)
    simp [(isEmptyOrBlankContent_blocks (isAborted_iff.1 hm).2).1] at hid
  | case4 m n ms _ ih => exact ⟨hf.1, ih hf.2⟩

/-! ### Merging -/

/-- Merging joins blocks, so anything read off the blocks in order stays. -/
theorem flatMap_mergeInto {β : Type*} {f : Message → List β}
    (hf : ∀ r c c', f ⟨r, mergeContent c c'⟩ = f ⟨r, c⟩ ++ f ⟨r, c'⟩) (last : Message)
    (l : List Message) : (mergeInto last l).flatMap f = f last ++ l.flatMap f := by
  fun_induction mergeInto last l with
  | case1 last => simp
  | case2 last m ms hr ih =>
    have hm : (⟨last.role, m.content⟩ : Message) = m := by rw [hr]
    rw [ih, hf, hm, List.flatMap_cons, List.append_assoc]
  | case3 last m ms _ ih => rw [List.flatMap_cons, List.flatMap_cons, ih]

theorem flatMap_mergeConsecutive {β : Type*} {f : Message → List β}
    (hf : ∀ r c c', f ⟨r, mergeContent c c'⟩ = f ⟨r, c⟩ ++ f ⟨r, c'⟩) (l : List Message) :
    (mergeConsecutive l).flatMap f = l.flatMap f := by
  cases l with
  | nil => rfl
  | cons m l => exact flatMap_mergeInto hf m l

@[simp] theorem toBlocks_mergeContent (c c' : MessageContent) :
    (mergeContent c c').toBlocks = c.toBlocks ++ c'.toBlocks := rfl

theorem toolUseIds_merge (l : List Message) : toolUseIds (mergeConsecutive l) = toolUseIds l :=
  flatMap_mergeConsecutive (fun r c c' => by simp [Message.useIds, Message.blocks]) l

theorem resultsOf_merge (id : String) (l : List Message) :
    resultsOf id (mergeConsecutive l) = resultsOf id l :=
  flatMap_mergeConsecutive (fun r c c' => by simp [Message.resultsFor, Message.blocks]) l

theorem plain_merge (l : List Message) : plain (mergeConsecutive l) = plain l :=
  flatMap_mergeConsecutive (fun r c c' => by simp [Message.plainBlocks, Message.blocks]) l

theorem mergeInto_alternate (last : Message) (l : List Message) :
    ∃ m l', mergeInto last l = m :: l' ∧ m.role = last.role ∧
      (m :: l').IsChain fun m n => m.role ≠ n.role := by
  fun_induction mergeInto last l with
  | case1 last => exact ⟨last, [], rfl, rfl, List.isChain_singleton _⟩
  | case2 last m ms hr ih => exact ih
  | case3 last m ms hr ih =>
    obtain ⟨m', l', heq, hrole, hchain⟩ := ih
    refine ⟨last, m' :: l', by rw [heq], rfl, List.IsChain.cons_cons ?_ hchain⟩
    rw [hrole]
    exact hr

theorem mergeConsecutive_alternate (l : List Message) :
    (mergeConsecutive l).IsChain fun m n => m.role ≠ n.role := by
  cases l with
  | nil => exact List.isChain_nil
  | cons m l =>
    obtain ⟨m', l', heq, -, hchain⟩ := mergeInto_alternate m l
    rw [mergeConsecutive, heq]
    exact hchain

theorem resultsFollow_mergeInto {last : Message} {prev : List String}
    (hd : Disciplined (last :: l)) (hf : ResultsFollow prev (last :: l)) :
    Disciplined (mergeInto last l) ∧ ResultsFollow prev (mergeInto last l) := by
  fun_induction mergeInto last l generalizing prev with
  | case1 last => exact ⟨hd, hf⟩
  | case2 last m ms hr ih =>
    obtain ⟨⟨hu, hres⟩, hd⟩ := Disciplined.cons.1 hd
    obtain ⟨⟨hu', hres'⟩, hd⟩ := Disciplined.cons.1 hd
    obtain ⟨hf1, hf2, hf3⟩ := hf
    have huse : (⟨last.role, mergeContent last.content m.content⟩ : Message).useIds =
        last.useIds ++ m.useIds := by simp [Message.useIds, Message.blocks]
    have hresult : (⟨last.role, mergeContent last.content m.content⟩ : Message).resultIds =
        last.resultIds ++ m.resultIds := by simp [Message.resultIds, Message.blocks]
    refine ih (Disciplined.cons.2 ⟨⟨fun hne => ?_, fun hne => ?_⟩, hd⟩) ⟨fun id hid => ?_, ?_⟩
    · rw [huse, Ne, List.append_eq_nil_iff, not_and_or] at hne
      exact hne.elim hu fun h => hr.trans (hu' h)
    · rw [hresult, Ne, List.append_eq_nil_iff, not_and_or] at hne
      exact hne.elim hres fun h => hr.trans (hres' h)
    · -- results in the second message answer uses of the first, which then has another role
      rw [hresult] at hid
      rcases List.mem_append.1 hid with hid | hid
      · exact hf1 id hid
      · have huser := hres' (List.ne_nil_of_mem hid)
        have hassistant := hu (List.ne_nil_of_mem (hf2 id hid))
        rw [hr, huser] at hassistant
        cases hassistant
    · rw [huse]
      exact hf3.mono fun id hid => List.mem_append_right _ hid
  | case3 last m ms hr ih =>
    obtain ⟨hd0, hd⟩ := Disciplined.cons.1 hd
    obtain ⟨hd', hf'⟩ := ih hd hf.2
    exact ⟨Disciplined.cons.2 ⟨hd0, hd'⟩, hf.1, hf'⟩

theorem resultsFollow_merge (hd : Disciplined l) (hf : ResultsFollow [] l) :
    Disciplined (mergeConsecutive l) ∧ ResultsFollow [] (mergeConsecutive l) := by
  cases l with
  | nil => exact ⟨hd, hf⟩
  | cons m l => exact resultsFollow_mergeInto hd hf

end SessionRepair
end RustyHand
