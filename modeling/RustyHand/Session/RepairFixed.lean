import RustyHand.Session.RepairAnswers

/-!
# Histories the repair leaves alone

A history that is well formed already, with no id used by two assistant messages, passes every
repair pass untouched, with one exception that is meant: a blank assistant message that is not the
last one is taken for an aborted answer.
-/

namespace RustyHand
namespace SessionRepair

open DescendingInsert Pairing

variable {h l : List Message} {id : String}

/-- Roles alternate, no message is empty, the uses of every assistant message are distinct and
answered exactly once each by the user message that follows, and there are no other results. -/
structure WellFormed (h : List Message) : Prop where
  alternate : h.IsChain fun m n => m.role ≠ n.role
  noEmpty : NoEmpty h
  distinct : ∀ m ∈ h, m.role = .assistant → m.useIds.Nodup
  answered : ∀ i m, h[i]? = some m → m.role = .assistant → ∀ id ∈ m.useIds,
    ∃ n, h[i + 1]? = some n ∧ n.role = .user ∧ (n.resultsFor id).length = 1
  follow : ∀ j n, h[j]? = some n → ∀ id ∈ n.resultIds, n.role = .user ∧
    ∃ i m, j = i + 1 ∧ h[i]? = some m ∧ m.role = .assistant ∧ id ∈ m.useIds

/-- No id is used by two assistant messages. -/
def UsedOnce (h : List Message) : Prop :=
  ∀ (i j : ℕ) (m n : Message) (id : String), h[i]? = some m → h[j]? = some n →
    m.role = .assistant → n.role = .assistant →
    id ∈ m.useIds → id ∈ n.useIds → i = j

theorem retainBlocks_of_all {p : ContentBlock → Bool} {m : Message}
    (hp : ∀ b ∈ m.blocks, p b = true) : retainBlocks p m = m := by
  obtain ⟨r, c⟩ := m
  cases c with
  | text s => rfl
  | blocks bs => simpa [retainBlocks] using hp

theorem useIndex_of_usedOnce (hu : UsedOnce h) {i : ℕ} {m : Message} (hm : h[i]? = some m)
    (hr : m.role = .assistant) (hid : id ∈ m.useIds) : toolUseIndex h id = some i := by
  obtain ⟨a, ha⟩ := Option.isSome_iff_exists.1
    (toolUseIndex_isSome ⟨m, List.mem_of_getElem? hm, hr, hid⟩)
  obtain ⟨A, n, B, hl, rfl, hr', hid'⟩ := toolUseIndex_eq_some ha
  have hn : h[A.length]? = some n := by rw [hl]; simp
  rw [ha, hu i A.length m n id hm hn hr hr' hid hid']

namespace WellFormed

variable (hw : WellFormed h)
include hw

theorem mem_toolUseIds_of_result {m : Message} (hm : m ∈ h) (hid : id ∈ m.resultIds) :
    id ∈ toolUseIds h := by
  obtain ⟨j, hj⟩ := List.mem_iff_getElem?.1 hm
  obtain ⟨-, i, u, -, hu, -, hidu⟩ := hw.follow j m hj id hid
  exact mem_toolUseIds.2 ⟨u, List.mem_of_getElem? hu, hidu⟩

theorem hasUse_of_mem {m : Message} (hm : m ∈ h) {b : ContentBlock} (hb : b ∈ m.blocks) :
    hasUse (toolUseIds h) b = true := by
  cases hid : b.resultId? with
  | none => simp [hasUse, hid]
  | some id =>
    have := hw.mem_toolUseIds_of_result hm (Message.mem_resultIds.2 ⟨b, hb, hid⟩)
    simpa [hasUse, hid] using this

theorem removeOrphans_eq : removeOrphans h = h := by
  have hmap : h.map (retainBlocks (hasUse (toolUseIds h))) = h := by
    conv_rhs => rw [← List.map_id h]
    exact List.map_congr_left fun m hm => retainBlocks_of_all fun b => hw.hasUse_of_mem hm
  rw [removeOrphans, hmap, retainNonEmpty_of_noEmpty hw.noEmpty]

theorem orphanCount_eq : orphanCount h = 0 := by
  rw [orphanCount, List.countP_eq_zero]
  intro b hb
  obtain ⟨m, hm, hb⟩ := List.mem_flatMap.1 hb
  simp [hw.hasUse_of_mem hm hb]

variable (hu : UsedOnce h)
include hu

theorem misplaced_eq : misplaced h = [] := by
  rw [List.eq_nil_iff_forall_not_mem]
  intro e he
  obtain ⟨j, n, b, hj, -, hb, hmis⟩ := mem_misplaced.1 he
  obtain ⟨id, a, hbid, ha, hja, -⟩ := misplacedBlock_eq_some.1 hmis
  obtain ⟨-, i, m, rfl, hm, hr, hid⟩ :=
    hw.follow j n hj id (Message.mem_resultIds.2 ⟨b, hb, hbid⟩)
  rw [useIndex_of_usedOnce hu hm hr hid] at ha
  exact hja (by rw [Option.some.inj ha])

theorem reorder_eq : reorderToolResults h = (h, 0) := by
  simp [reorderToolResults, hw.misplaced_eq hu]

omit hu in
theorem orphanedUses_eq : orphanedUses h = [] := by
  rw [List.eq_nil_iff_forall_not_mem]
  rintro ⟨a, id⟩ hmem
  obtain ⟨m, hm, hr, hid, hres⟩ := mem_orphanedUses.1 hmem
  obtain ⟨n, hn, -, hone⟩ := hw.answered a m hm hr id hid
  rw [resultsOf, List.flatMap_eq_nil_iff] at hres
  rw [hres n (List.mem_of_getElem? hn)] at hone
  cases hone

omit hu in
theorem synthetic_eq : insertSyntheticResults h = (h, 0) := by
  simp [insertSyntheticResults, hw.orphanedUses_eq]

end WellFormed

/-! ### No duplicates -/

theorem dedupBlocks_of_unique {seen : List String} {bs : List ContentBlock}
    (hs : ∀ id ∈ seen, bs.filter (ContentBlock.answers id) = [])
    (hone : ∀ id, (bs.filter (ContentBlock.answers id)).length ≤ 1) :
    (dedupBlocks seen bs).1 = bs := by
  induction bs generalizing seen with
  | nil => rfl
  | cons b bs ih =>
    have hone' : ∀ id, (bs.filter (ContentBlock.answers id)).length ≤ 1 := fun id =>
      (List.Sublist.length_le ((List.sublist_cons_self b bs).filter _)).trans (hone id)
    have hs' : ∀ id ∈ seen, bs.filter (ContentBlock.answers id) = [] := fun id hid =>
      List.eq_nil_of_subset_nil (hs id hid ▸ ((List.sublist_cons_self b bs).filter _).subset)
    cases hb : b.resultId? with
    | none => simp [dedupBlocks, hb, ih hs' hone']
    | some id =>
      have hans : b.answers id = true := ContentBlock.answers_iff.2 hb
      have hseen : id ∉ seen := by
        intro hmem
        have := hs id hmem
        rw [List.filter_cons_of_pos hans] at this
        cases this
      have hrest : bs.filter (ContentBlock.answers id) = [] := by
        have := hone id
        rw [List.filter_cons_of_pos hans, List.length_cons] at this
        exact List.length_eq_zero_iff.1 (by omega)
      have hs'' : ∀ id' ∈ id :: seen, bs.filter (ContentBlock.answers id') = [] := by
        intro id' hid'
        rcases List.mem_cons.1 hid' with rfl | hid'
        · exact hrest
        · exact hs' id' hid'
      simp [dedupBlocks, hb, hseen, ih hs'' hone']

/-- With at most one result for each id there is nothing to deduplicate. -/
theorem dedupMessages_of_unique {seen : List String} (hs : ∀ id ∈ seen, resultsOf id l = [])
    (hone : ∀ id, (resultsOf id l).length ≤ 1) : dedupMessages seen l = l := by
  induction l generalizing seen with
  | nil => rfl
  | cons m l ih =>
    simp only [resultsOf_cons, List.append_eq_nil_iff, List.length_append] at hs hone
    have hone' : ∀ id, (resultsOf id l).length ≤ 1 := fun id => by
      have := hone id
      omega
    obtain ⟨r, c⟩ := m
    cases c with
    | text t => simp [dedupMessages, ih (fun id hid => (hs id hid).2) hone']
    | blocks bs =>
      have hbs : (dedupBlocks seen bs).1 = bs := by
        refine dedupBlocks_of_unique (fun id hid => (hs id hid).1) fun id => ?_
        have := hone id
        simp only [Message.resultsFor, Message.blocks_mk_blocks] at this
        omega
      have hs' : ∀ id ∈ (dedupBlocks seen bs).2, resultsOf id l = [] := by
        intro id hid
        rcases (dedupBlocks_answers seen bs).1.1 hid with hid | hid
        · exact (hs id hid).2
        · have hpos := List.length_pos_iff.2 hid
          have := hone id
          simp only [Message.resultsFor, Message.blocks_mk_blocks] at this
          exact List.length_eq_zero_iff.1 (by omega)
      simp [dedupMessages, hbs, ih hs' hone']

theorem WellFormed.one_result (hw : WellFormed h) (hu : UsedOnce h) (id : String) :
    (resultsOf id h).length ≤ 1 := by
  by_cases hnil : resultsOf id h = []
  · simp [hnil]
  obtain ⟨n, hn, hidn⟩ := resultsOf_ne_nil.1 hnil
  obtain ⟨j, hj⟩ := List.mem_iff_getElem?.1 hn
  obtain ⟨-, i, m, rfl, hm, hr, hid⟩ := hw.follow j n hj id hidn
  obtain ⟨n', hn', -, hlen⟩ := hw.answered i m hm hr id hid
  obtain rfl : n = n' := Option.some.inj (hj.symm.trans hn')
  -- every other message with a result for `id` would follow the same use
  have hother : ∀ k n', h[k]? = some n' → k ≠ i + 1 → n'.resultsFor id = [] := by
    intro k n' hk hne
    by_contra hres
    obtain ⟨-, i', m', rfl, hm', hr', hid'⟩ :=
      hw.follow k n' hk id (Message.mem_resultIds_iff_resultsFor.2 hres)
    exact hne (by rw [hu i i' m m' id hm hm' hr hr' hid hid'])
  obtain ⟨hlt, heq⟩ := List.getElem?_eq_some_iff.1 hj
  have hsplit : h = h.take (i + 1) ++ n :: h.drop (i + 2) := by
    rw [← heq, ← List.drop_eq_getElem_cons hlt, List.take_append_drop]
  have hbefore : resultsOf id (h.take (i + 1)) = [] := by
    refine List.flatMap_eq_nil_iff.2 fun n' hn' => ?_
    obtain ⟨k, hk⟩ := List.mem_iff_getElem?.1 hn'
    rw [List.getElem?_take] at hk
    split at hk
    · exact hother k n' hk (by omega)
    · cases hk
  have hafter : resultsOf id (h.drop (i + 2)) = [] := by
    refine List.flatMap_eq_nil_iff.2 fun n' hn' => ?_
    obtain ⟨k, hk⟩ := List.mem_iff_getElem?.1 hn'
    rw [List.getElem?_drop] at hk
    exact hother _ n' hk (by omega)
  rw [hsplit, resultsOf_append, resultsOf_cons, hbefore, hafter]
  simpa using hlen.le

theorem WellFormed.dedup_eq (hw : WellFormed h) (hu : UsedOnce h) :
    deduplicateToolResults h = (h, 0) := by
  have heq : dedupMessages [] h = h := dedupMessages_of_unique (by simp) (hw.one_result hu)
  simp [deduplicateToolResults, heq, retainNonEmpty_of_noEmpty hw.noEmpty]

/-! ### Aborted messages and merging -/

/-- The removal leaves a history alone exactly when only its last message may be blank. -/
theorem removeAborted_eq_self_iff : removeAbortedAssistantMessages l = l ↔
    ∀ i m, l[i]? = some m → i + 1 < l.length → isAborted m = false := by
  fun_induction removeAbortedAssistantMessages l with
  | case1 => simp
  | case2 m => simp
  | case3 m n ms hm ih =>
    constructor
    · intro heq
      have hlen := (removeAborted_sublist (n :: ms)).length_le
      rw [heq, List.length_cons] at hlen
      omega
    · intro hall
      have := hall 0 m rfl (by simp)
      rw [hm] at this
      cases this
  | case4 m n ms hm ih =>
    rw [List.cons.injEq, ih]
    constructor
    · rintro ⟨-, hall⟩ i m' hi hlt
      cases i with
      | zero =>
        obtain rfl : m = m' := by simpa using hi
        simpa using hm
      | succ i => exact hall i m' (by simpa using hi) (by simpa using hlt)
    · exact fun hall => ⟨rfl, fun i m' hi hlt => hall (i + 1) m' (by simpa using hi)
        (by simpa using hlt)⟩

theorem mergeInto_of_alternate {last : Message}
    (hc : (last :: l).IsChain fun m n => m.role ≠ n.role) : mergeInto last l = last :: l := by
  induction l generalizing last with
  | nil => rfl
  | cons m l ih =>
    obtain ⟨hne, hc⟩ := List.isChain_cons_cons.1 hc
    rw [mergeInto, if_neg hne, ih hc]

theorem mergeConsecutive_of_alternate (hc : l.IsChain fun m n => m.role ≠ n.role) :
    mergeConsecutive l = l := by
  cases l with
  | nil => rfl
  | cons m l => exact mergeInto_of_alternate hc

/-- **Well-formed histories are fixed points**, with all counters zero, exactly when no assistant
message but the last is blank. -/
theorem validateAndRepairWithStats_eq_self_iff {h : List Message} (hw : WellFormed h)
    (hu : UsedOnce h) : validateAndRepairWithStats h = (h, {}) ↔
      ∀ i m, h[i]? = some m → i + 1 < h.length → isAborted m = false := by
  rw [← removeAborted_eq_self_iff]
  have hrun : validateAndRepairWithStats h =
      (mergeConsecutive (removeAbortedAssistantMessages h),
        { emptyMessagesRemoved := h.length - (removeAbortedAssistantMessages h).length
          messagesMerged := (removeAbortedAssistantMessages h).length -
            (mergeConsecutive (removeAbortedAssistantMessages h)).length }) := by
    simp [validateAndRepairWithStats, hw.removeOrphans_eq, hw.orphanCount_eq, hw.reorder_eq hu,
      hw.synthetic_eq, hw.dedup_eq hu]
  rw [hrun]
  constructor
  · intro heq
    have hcount := congrArg (fun r => r.2.emptyMessagesRemoved) heq
    have hsub := removeAborted_sublist h
    exact hsub.eq_of_length_le (by simpa [Nat.sub_eq_zero_iff_le] using hcount)
  · intro heq
    simp [heq, mergeConsecutive_of_alternate hw.alternate]

/-- A turn with one tool call, and its answer. -/
def toolTurn (id result : String) : List Message :=
  [⟨.assistant, .blocks [.toolUse id "read" .null]⟩,
    ⟨.user, .blocks [.toolResult id result false]⟩]

theorem toolTurn_wellFormed (id result : String) : WellFormed (toolTurn id result) where
  alternate := by simp [toolTurn]
  noEmpty := by simp [NoEmpty, toolTurn, MessageContent.isEmpty]
  distinct := by simp [toolTurn, Message.useIds, ContentBlock.useId?]
  answered := by
    rintro (_ | _ | i) m hm <;> simp [toolTurn] at hm <;> subst hm <;>
      simp [toolTurn, Message.useIds, ContentBlock.useId?, Message.resultsFor,
        ContentBlock.answers]
  follow := by
    rintro (_ | _ | j) n hn <;>
      simp [toolTurn] at hn <;> subst hn <;>
      simp [toolTurn, Message.useIds, ContentBlock.resultId?, Message.resultIds]

/-- One tool turn is left alone. -/
theorem toolTurn_fixed : validateAndRepairWithStats (toolTurn "a" "ok") = (toolTurn "a" "ok", {}) :=
  (validateAndRepairWithStats_eq_self_iff (toolTurn_wellFormed "a" "ok") (by
    rintro (_ | _ | i) (_ | _ | j) m n id hm hn <;> simp [toolTurn] at hm hn <;> subst hm hn <;>
      simp)).2 (by
    rintro (_ | _ | i) m hm <;> simp [toolTurn] at hm ⊢
    subst hm
    decide)

theorem toolTurn_twice_wellFormed (id r r' : String) :
    WellFormed (toolTurn id r ++ toolTurn id r') where
  alternate := by simp [toolTurn]
  noEmpty := by simp [NoEmpty, toolTurn, MessageContent.isEmpty]
  distinct := by simp [toolTurn, Message.useIds, ContentBlock.useId?]
  answered := by
    rintro (_ | _ | _ | _ | i) m hm <;> simp [toolTurn] at hm <;> subst hm <;>
      simp [toolTurn, Message.useIds, ContentBlock.useId?, Message.resultsFor,
        ContentBlock.answers]
  follow := by
    rintro (_ | _ | _ | _ | j) n hn <;> simp [toolTurn] at hn <;> subst hn <;>
      simp [toolTurn, Message.useIds, ContentBlock.resultId?, Message.resultIds]

theorem blank_wellFormed : WellFormed [.user "hi", .assistant " ", .user "still there?"] where
  alternate := by simp [Message.user, Message.assistant]
  noEmpty := by simp [NoEmpty, Message.user, Message.assistant, MessageContent.isEmpty]
  distinct := by
    simp [Message.user, Message.assistant, Message.useIds, List.filterMap_cons,
      ContentBlock.useId?]
  answered := by
    rintro (_ | _ | _ | i) m hm <;> simp at hm <;> subst hm <;>
      simp [Message.user, Message.assistant, Message.useIds, ContentBlock.useId?]
  follow := by
    rintro (_ | _ | _ | j) n hn <;> simp at hn <;> subst hn <;>
      simp [Message.user, Message.assistant, ContentBlock.resultId?, Message.resultIds]

/-- A blank answer in the middle, or an id used by two turns, is enough for the repair to act. -/
theorem not_all_wellFormed_fixed :
    (∃ h, WellFormed h ∧ UsedOnce h ∧ validateAndRepairWithStats h ≠ (h, {})) ∧
      ∃ h, WellFormed h ∧ (∀ m ∈ h, isAborted m = false) ∧
        validateAndRepairWithStats h ≠ (h, {}) := by
  refine ⟨⟨_, blank_wellFormed, ?_, fun heq => ?_⟩,
    ⟨_, toolTurn_twice_wellFormed "call_0" "1" "2", ?_, fun heq => ?_⟩⟩
  · rintro (_ | _ | _ | i) (_ | _ | _ | j) m n id hm hn <;> simp at hm hn <;> subst hm hn <;>
      simp [Message.user, Message.assistant, Message.useIds, ContentBlock.useId?]
  · exact absurd (congrArg (fun r => r.2.emptyMessagesRemoved) heq) (by decide)
  · simp [toolTurn, isAborted, isEmptyOrBlankContent]
  · exact absurd (congrArg (fun r => r.2.duplicatesRemoved) heq) (by decide)

end SessionRepair
end RustyHand
