import RustyHand.Session.RepairOrder
import RustyHand.Session.RepairAnswers

/-!
# The repair as a whole

For histories whose `ToolUse` ids are pairwise distinct: the output pairs every use with exactly
one result in the next message (`validateAndRepair_paired`), and no content is lost or invented on
the way (`validateAndRepair_conserves`).
-/

namespace RustyHand
namespace SessionRepair

open Pairing

variable {h l : List Message} {id : String}

/-! ### Pairing -/

/-- Every use has exactly one result, and every result follows its use. -/
structure Resolved (l : List Message) : Prop where
  nodup : (toolUseIds l).Nodup
  disciplined : Disciplined l
  follow : ResultsFollow [] l
  one : ∀ id ∈ toolUseIds l, (resultsOf id l).length = 1

theorem nodup_removeOrphans (hn : (toolUseIds h).Nodup) : (toolUseIds (removeOrphans h)).Nodup := by
  rwa [toolUseIds_removeOrphans]

theorem toolUseIds_pairUp : toolUseIds (pairUp h) = toolUseIds h := by
  rw [pairUp, toolUseIds_dedup, toolUseIds_synthetic,
    toolUseIds_reorder (noEmpty_removeOrphans h), toolUseIds_removeOrphans]

theorem resultsOf_pairUp (hn : (toolUseIds h).Nodup) (id : String) :
    resultsOf id (pairUp h) = (answersOr (reorderToolResults (removeOrphans h)).1 id).take 1 := by
  rw [pairUp, resultsOf_dedup, resultsOf_synthetic]
  rw [toolUseIds_reorder (noEmpty_removeOrphans h)]
  exact nodup_removeOrphans hn

theorem answersOr_ne_nil (hd : Disciplined l) (hid : id ∈ toolUseIds l) : answersOr l id ≠ [] := by
  obtain ⟨m, hm, hidm⟩ := mem_toolUseIds.1 hid
  have hidx := toolUseIndex_isSome ⟨m, hm, hd.uses m hm (List.ne_nil_of_mem hidm), hidm⟩
  by_cases hnil : resultsOf id l = []
  · rw [answersOr, if_pos ⟨hnil, hidx⟩]
    exact List.cons_ne_nil _ _
  · rw [answersOr, if_neg fun h => hnil h.1]
    exact hnil

theorem pairUp_resolved (hd : Disciplined h) (hn : (toolUseIds h).Nodup) :
    Resolved (pairUp h) := by
  have hne := noEmpty_removeOrphans h
  obtain ⟨hd₁, hf₁⟩ := resultsFollow_reorder hne (disciplined_removeOrphans hd)
    fun m hm id hid => by
      rw [toolUseIds_removeOrphans]
      exact mem_toolUseIds_of_removeOrphans hm hid
  obtain ⟨hd₂, hf₂⟩ := resultsFollow_synthetic hd₁ hf₁
  obtain ⟨hd₃, hf₃⟩ := resultsFollow_dedup hd₂ hf₂
  refine ⟨by rwa [toolUseIds_pairUp], hd₃, hf₃, fun id hid => ?_⟩
  have hans : answersOr (reorderToolResults (removeOrphans h)).1 id ≠ [] := by
    refine answersOr_ne_nil hd₁ ?_
    rwa [toolUseIds_reorder hne, toolUseIds_removeOrphans, ← toolUseIds_pairUp]
  rw [resultsOf_pairUp hn, List.length_take]
  have := List.length_pos_iff.2 hans
  omega

theorem Resolved.removeAborted (hl : Resolved l) : Resolved (removeAbortedAssistantMessages l) where
  nodup := by rw [toolUseIds_removeAborted]; exact hl.nodup
  disciplined := hl.disciplined.sublist (removeAborted_sublist l)
  follow := resultsFollow_removeAborted hl.follow
  one := by
    intro id hid
    rw [resultsOf_removeAborted]
    exact hl.one id (by rwa [toolUseIds_removeAborted] at hid)

theorem Resolved.merge (hl : Resolved l) : Resolved (mergeConsecutive l) where
  nodup := by rw [toolUseIds_merge]; exact hl.nodup
  disciplined := (resultsFollow_merge hl.disciplined hl.follow).1
  follow := (resultsFollow_merge hl.disciplined hl.follow).2
  one := by
    intro id hid
    rw [resultsOf_merge]
    exact hl.one id (by rwa [toolUseIds_merge] at hid)

theorem length_resultsFor_le {n : Message} (hn : n ∈ l) (id : String) :
    (n.resultsFor id).length ≤ (resultsOf id l).length := by
  obtain ⟨A, B, rfl⟩ := List.append_of_mem hn
  simp only [resultsOf_append, resultsOf_cons, List.length_append]
  omega

/-- In a resolved history the result of a use stands in the next message, which is the user's. -/
theorem Resolved.next (hl : Resolved l) {i : ℕ} {m : Message} (hm : l[i]? = some m)
    (hid : id ∈ m.useIds) :
    ∃ n, l[i + 1]? = some n ∧ n.role = .user ∧ (n.resultsFor id).length = 1 := by
  have hml := List.mem_of_getElem? hm
  have hone := hl.one id (mem_toolUseIds.2 ⟨m, hml, hid⟩)
  have hsome : resultsOf id l ≠ [] := by
    intro hnil
    rw [hnil] at hone
    cases hone
  obtain ⟨n, hnl, hidn⟩ := resultsOf_ne_nil.1 hsome
  obtain ⟨j, hj⟩ := List.mem_iff_getElem?.1 hnl
  obtain ⟨i', m', rfl, hm', hid'⟩ := resultsFollow_nil_iff.1 hl.follow j n hj id hidn
  have hrole := fun m (hm : m ∈ l) (hid : id ∈ m.useIds) =>
    hl.disciplined.uses m hm (List.ne_nil_of_mem hid)
  -- both messages hold the use, so they are one
  have hidx := toolUseIndex_of_getElem? hl.nodup hm (hrole m hml hid) hid
  have hidx' := toolUseIndex_of_getElem? hl.nodup hm'
    (hrole m' (List.mem_of_getElem? hm') hid') hid'
  obtain rfl : i' = i := Option.some.inj (hidx'.symm.trans hidx)
  refine ⟨n, hj, hl.disciplined.results n hnl (List.ne_nil_of_mem hidn), ?_⟩
  have hpos := List.length_pos_iff.2 (Message.mem_resultIds_iff_resultsFor.1 hidn)
  have hle := length_resultsFor_le hnl id
  omega

theorem validateAndRepair_eq (h : List Message) :
    validateAndRepair h = mergeConsecutive (removeAbortedAssistantMessages (pairUp h)) := rfl

theorem validateAndRepair_resolved (hd : Disciplined h) (hn : (toolUseIds h).Nodup) :
    Resolved (validateAndRepair h) := (pairUp_resolved hd hn).removeAborted.merge

/-- **The repaired history is well paired**: roles alternate, every use in message `i` is answered
in message `i + 1`, which is the user's, by exactly one result, and there is no other result. -/
theorem validateAndRepair_paired {h : List Message} (hd : Disciplined h)
    (hn : (toolUseIds h).Nodup) :
    WellPaired (validateAndRepair h) ∧
      ∀ i m, (validateAndRepair h)[i]? = some m → ∀ id ∈ m.useIds,
        ∃ n, (validateAndRepair h)[i + 1]? = some n ∧ n.role = .user ∧
          (n.resultsFor id).length = 1 := by
  have hl := validateAndRepair_resolved hd hn
  refine ⟨⟨fun i m hm id hid => ?_, resultsFollow_nil_iff.1 hl.follow, ?_⟩,
    fun i m hm id hid => hl.next hm hid⟩
  · obtain ⟨n, hn, -, hone⟩ := hl.next hm hid
    refine ⟨n, hn, Message.mem_resultIds_iff_resultsFor.2 fun hnil => ?_⟩
    rw [hnil] at hone
    cases hone
  · rw [validateAndRepair_eq]
    exact mergeConsecutive_alternate _

/-- A history whose only result stands one message too late. -/
theorem validateAndRepair_paired_late :
    WellPaired (validateAndRepair
      [⟨.assistant, .blocks [.toolUse "a" "read" .null, .toolUse "b" "read" .null]⟩,
        ⟨.user, .text "and?"⟩, ⟨.user, .blocks [.toolResult "b" "late" false]⟩]) :=
  (validateAndRepair_paired ⟨by simp [Message.useIds, ContentBlock.useId?],
    by simp [Message.resultIds, ContentBlock.resultId?]⟩ (by decide)).1

/-! ### Conservation -/

/-- `l'` is `l` without some of the elements that satisfy `p`. -/
inductive DropsOnly {α : Type*} (p : α → Prop) : List α → List α → Prop
  | nil : DropsOnly p [] []
  | keep (x : α) {l l' : List α} : DropsOnly p l l' → DropsOnly p (x :: l) (x :: l')
  | drop {x : α} {l l' : List α} : p x → DropsOnly p l l' → DropsOnly p (x :: l) l'

theorem DropsOnly.refl {α : Type*} {p : α → Prop} : ∀ l : List α, DropsOnly p l l
  | [] => .nil
  | x :: l => .keep x (.refl l)

theorem DropsOnly.append {α : Type*} {p : α → Prop} {l₁ l₁' l₂ l₂' : List α}
    (h₁ : DropsOnly p l₁ l₁') (h₂ : DropsOnly p l₂ l₂') : DropsOnly p (l₁ ++ l₂) (l₁' ++ l₂') := by
  induction h₁ with
  | nil => exact h₂
  | keep x _ ih => exact .keep x ih
  | drop hx _ ih => exact .drop hx ih

/-- A block that says nothing: blank text or an unknown block. -/
def isBlankBlock : ContentBlock → Bool
  | .text t => Text.isBlank t
  | .unknown => true
  | _ => false

/-- What the removal of aborted messages may drop: an assistant's blank blocks. -/
def BlankTurn (e : Role × List ContentBlock) : Prop :=
  e.1 = .assistant ∧ ∀ b ∈ e.2, isBlankBlock b = true

theorem isAborted_spoken {m : Message} (hm : isAborted m = true) :
    ∀ e ∈ spoken m, BlankTurn e := by
  obtain ⟨hr, hc⟩ := isAborted_iff.1 hm
  intro e he
  rw [spoken] at he
  split at he
  · simp at he
  · obtain rfl := List.mem_singleton.1 he
    refine ⟨hr, fun b hb => ?_⟩
    have hb := List.mem_of_mem_filter hb
    obtain ⟨r, c⟩ := m
    cases c with
    | text s =>
      obtain rfl : b = .text s := by simpa [Message.blocks] using hb
      exact hc
    | blocks bs => exact List.all_eq_true.1 hc b hb

theorem dropsOnly_removeAborted (l : List Message) :
    DropsOnly BlankTurn (skeleton l) (skeleton (removeAbortedAssistantMessages l)) := by
  fun_induction removeAbortedAssistantMessages l with
  | case1 => exact .refl _
  | case2 m => exact .refl _
  | case3 m n ms hm ih =>
    have hspoken : DropsOnly BlankTurn (spoken m) [] := by
      have hblank := isAborted_spoken hm
      unfold spoken at hblank ⊢
      split
      · exact .nil
      · rename_i hne
        exact .drop (hblank _ (by simp [hne])) .nil
    exact hspoken.append ih
  | case4 m n ms _ ih => exact (DropsOnly.refl (spoken m)).append ih

/-- An assistant message whose blocks, apart from results, say nothing. -/
def IsBlankAssistant (m : Message) : Prop :=
  m.role = .assistant ∧ ∀ b ∈ m.plainBlocks, isBlankBlock b = true

/-- Dropping from the skeleton is dropping messages. -/
theorem dropsOnly_of_skeleton {s : List (Role × List ContentBlock)}
    (hs : DropsOnly BlankTurn (skeleton l) s) :
    ∃ kept, DropsOnly IsBlankAssistant l kept ∧ skeleton kept = s := by
  induction l generalizing s with
  | nil =>
    cases hs
    exact ⟨[], .nil, rfl⟩
  | cons m l ih =>
    rw [skeleton_cons] at hs
    by_cases hm : m.plainBlocks.isEmpty = true
    · have hspoken : spoken m = [] := if_pos hm
      rw [hspoken, List.nil_append] at hs
      obtain ⟨kept, hkept, rfl⟩ := ih hs
      exact ⟨m :: kept, .keep m hkept, by rw [skeleton_cons, hspoken, List.nil_append]⟩
    · have hspoken : spoken m = [(m.role, m.plainBlocks)] := if_neg hm
      rw [hspoken, List.singleton_append] at hs
      cases hs with
      | keep _ hs =>
        obtain ⟨kept, hkept, rfl⟩ := ih hs
        exact ⟨m :: kept, .keep m hkept, by rw [skeleton_cons, hspoken, List.singleton_append]⟩
      | drop hblank hs =>
        obtain ⟨kept, hkept, rfl⟩ := ih hs
        exact ⟨kept, .drop hblank hkept, rfl⟩

theorem skeleton_pairUp (h : List Message) :
    skeleton (pairUp h) = skeleton (h.filter fun m => !droppedAsEmpty (toolUseIds h) m) := by
  have hne := noEmpty_removeOrphans h
  rw [pairUp, skeleton_dedup (content_ne_synthetic (content_ne_reorder hne)),
    skeleton_synthetic, skeleton_reorder hne, skeleton_removeOrphans]

/-- The uses of assistant messages, read off the skeleton. -/
def assistantUseIds (l : List Message) : List String :=
  l.flatMap fun m => if m.role = .assistant then m.useIds else []

theorem toolUseIndex_isSome_iff : (toolUseIndex l id).isSome ↔ id ∈ assistantUseIds l := by
  constructor
  · intro hsome
    obtain ⟨a, ha⟩ := Option.isSome_iff_exists.1 hsome
    obtain ⟨A, m, B, rfl, -, hr, hid⟩ := toolUseIndex_eq_some ha
    exact List.mem_flatMap.2 ⟨m, by simp, by simpa [hr] using hid⟩
  · intro hmem
    obtain ⟨m, hm, hid⟩ := List.mem_flatMap.1 hmem
    split at hid
    · exact toolUseIndex_isSome ⟨m, hm, ‹_›, hid⟩
    · simp at hid

theorem useIds_eq_plainBlocks (m : Message) :
    m.useIds = m.plainBlocks.filterMap ContentBlock.useId? := by
  rw [Message.useIds, Message.plainBlocks, List.filterMap_filter]
  refine List.filterMap_congr fun b _ => ?_
  cases b <;> simp [ContentBlock.isToolResult, ContentBlock.resultId?, ContentBlock.useId?]

theorem assistantUseIds_eq_skeleton (l : List Message) : assistantUseIds l =
    (skeleton l).flatMap fun e =>
      if e.1 = .assistant then e.2.filterMap ContentBlock.useId? else [] := by
  rw [assistantUseIds, skeleton, List.flatMap_assoc]
  refine List.flatMap_congr fun m _ => ?_
  rw [useIds_eq_plainBlocks]
  cases hm : m.plainBlocks <;> simp [spoken, hm]

theorem assistantUseIds_removeOrphans (h : List Message) :
    assistantUseIds (removeOrphans h) = assistantUseIds h := by
  rw [removeOrphans, retainNonEmpty, assistantUseIds, flatMap_filter_of_nil fun m _ hm => by
    simp [useIds_of_isEmpty (by simpa using hm : m.content.isEmpty = true)], List.flatMap_map]
  refine List.flatMap_congr fun m _ => ?_
  rw [retainBlocks_role, retainBlocks_useIds (hasUse_of_plain _)]

/-- The result the repair keeps for `id`: the first in `repairOrder`, else a synthetic one. -/
def keptResult (h : List Message) (id : String) : List ContentBlock :=
  match repairOrder (removeOrphans h) id with
  | b :: _ => [b]
  | [] => if id ∈ assistantUseIds h then [syntheticResult id] else []

theorem resultsOf_validateAndRepair (hn : (toolUseIds h).Nodup) (id : String) :
    resultsOf id (validateAndRepair h) = keptResult h id := by
  have hne := noEmpty_removeOrphans h
  have hidx : (toolUseIndex (reorderToolResults (removeOrphans h)).1 id).isSome ↔
      id ∈ assistantUseIds h := by
    rw [toolUseIndex_isSome_iff, assistantUseIds_eq_skeleton, skeleton_reorder hne,
      ← assistantUseIds_eq_skeleton, assistantUseIds_removeOrphans]
  rw [validateAndRepair_eq, resultsOf_merge, resultsOf_removeAborted, resultsOf_pairUp hn,
    answersOr, resultsOf_reorder hne, keptResult]
  simp only [hidx]
  cases repairOrder (removeOrphans h) id with
  | nil => by_cases hid : id ∈ assistantUseIds h <;> simp [hid]
  | cons b bs => simp

theorem userResults_fixedResults_perm (id : String) (l : List Message) :
    (userResults id l ++ fixedResults id l).Perm (resultsOf id l) := by
  induction l with
  | nil => simp
  | cons m l ih =>
    rw [userResults_cons, fixedResults_cons, resultsOf_cons]
    by_cases hr : m.role = .user
    · simpa [hr] using ih.append_left _
    · simp only [hr, if_false, List.nil_append]
      refine (List.perm_append_comm_assoc _ _ _).trans (ih.append_left _)

/-- The results of an id are rearranged, none is lost. -/
theorem repairOrder_perm (l : List Message) (id : String) :
    (repairOrder l id).Perm (resultsOf id l) := by
  unfold repairOrder
  split
  · exact List.Perm.refl _
  · rename_i a _
    have htail : l.drop (a + 2) = (l.drop (a + 1)).drop 1 := by rw [List.drop_drop]
    have hsplit : l = l.take (a + 1) ++ ((l.drop (a + 1)).take 1 ++ l.drop (a + 2)) := by
      rw [htail, List.take_append_drop, List.take_append_drop]
    have hbefore := userResults_fixedResults_perm id (l.take (a + 1))
    have hnext := userResults_fixedResults_perm id ((l.drop (a + 1)).take 1)
    have hafter := userResults_fixedResults_perm id (l.drop (a + 2))
    refine List.Perm.trans ?_ (((hbefore.append (hnext.append hafter))).trans
      (List.Perm.of_eq ?_))
    · classical
      rw [List.perm_iff_count]
      intro b
      simp only [List.count_append]
      omega
    · rw [← resultsOf_append, ← resultsOf_append, ← hsplit]

theorem plain_validateAndRepair (h : List Message) :
    plain (validateAndRepair h) = plain (removeAbortedAssistantMessages (pairUp h)) := by
  rw [validateAndRepair_eq, plain_merge]

/-- **The repair loses and invents no content.**  The blocks other than results are those of the
input, in order, but for messages that are empty once orphaned results are gone and for blank
assistant messages; and each id keeps one of its results, the first in `repairOrder`, or gets a
synthetic one when it has none. -/
theorem validateAndRepair_conserves {h : List Message} (hn : (toolUseIds h).Nodup) :
    (∃ kept, DropsOnly IsBlankAssistant
        (h.filter fun m => !droppedAsEmpty (toolUseIds h) m) kept ∧
      plain (validateAndRepair h) = plain kept) ∧
    (∀ id ∈ toolUseIds h, resultsOf id (validateAndRepair h) = keptResult h id) ∧
    ∀ id ∈ toolUseIds h, (repairOrder (removeOrphans h) id).Perm (resultsOf id h) := by
  refine ⟨?_, fun id _ => resultsOf_validateAndRepair hn id, fun id hid => ?_⟩
  · have hdrops := dropsOnly_removeAborted (pairUp h)
    rw [skeleton_pairUp] at hdrops
    obtain ⟨kept, hkept, hskel⟩ := dropsOnly_of_skeleton hdrops
    refine ⟨kept, hkept, ?_⟩
    rw [plain_validateAndRepair, plain_eq_skeleton, plain_eq_skeleton, hskel]
  · rw [← resultsOf_removeOrphans hid]
    exact repairOrder_perm _ id

/-- A text message before a pair. -/
theorem validateAndRepair_conserves_pair :
    resultsOf "a" (validateAndRepair
        [⟨.user, .text "go"⟩, ⟨.assistant, .blocks [.toolUse "a" "read" .null]⟩]) =
      keptResult [⟨.user, .text "go"⟩, ⟨.assistant, .blocks [.toolUse "a" "read" .null]⟩] "a" :=
  (validateAndRepair_conserves (by decide)).2.1 "a" (by decide)

/-- The kept result need not be the first of the input: one right behind its use comes first. -/
theorem not_first_result_kept : ¬ ∀ h : List Message, (toolUseIds h).Nodup →
    ∀ id ∈ toolUseIds h, ∀ b, (resultsOf id h).head? = some b →
      resultsOf id (validateAndRepair h) = [b] := by
  intro hall
  have := hall [⟨.user, .blocks [.toolResult "a" "early" false]⟩,
    ⟨.assistant, .blocks [.toolUse "a" "read" .null]⟩,
    ⟨.user, .blocks [.toolResult "a" "right behind" false]⟩] (by decide) "a" (by decide) _ rfl
  rw [show resultsOf "a" _ = [.toolResult "a" "right behind" false] from rfl] at this
  simp at this

end SessionRepair
end RustyHand
