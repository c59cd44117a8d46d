import RustyHand.Session.RepairSpec

/-!
# Where the repaired history begins and ends

The first and the last role of a repaired history, read off the history that is given: it begins
with the first message that says something, and ends with the message of the user that stands last.
The repair leaves no empty message and brings in no message of the system.

* `speaks`, `FirstSpeaker`: the messages that the repair keeps in any case, and the first of them;
* `head_validateAndRepair`, `getLast_validateAndRepair`: the first and the last role.
-/

namespace RustyHand
namespace SessionRepair

open Pairing DescendingInsert

variable {h l : List Message} {m : Message}

/-! ### Messages of the system -/

/-- No message is the system's. -/
def NoSystem (messages : List Message) : Prop := ∀ m ∈ messages, m.role ≠ .system

theorem noSystem_placeResults (hl : NoSystem l) (i : ℕ) (bs : List ContentBlock) :
    NoSystem (placeResults l i bs) := by
  unfold placeResults
  split
  · split_ifs
    · intro n hn
      rcases List.mem_or_eq_of_mem_set hn with hn | rfl
      · exact hl n hn
      · simp
    · intro n hn
      rcases List.eq_or_mem_of_mem_insertIdx hn with rfl | hn
      · simp
      · exact hl n hn
  · intro n hn
    rcases List.mem_append.1 hn with hn | hn
    · exact hl n hn
    · obtain rfl := List.mem_singleton.1 hn
      simp

theorem noSystem_insertBehind (pos : ℕ → Option ℕ) (ins : ℕ → List ContentBlock) (ks : List ℕ)
    (hl : NoSystem l) : NoSystem (ks.foldl (insertBehind pos ins) l) := by
  induction ks generalizing l with
  | nil => exact hl
  | cons a ks ih =>
    refine ih ?_
    unfold insertBehind
    split
    · exact noSystem_placeResults hl _ _
    · exact hl

theorem noSystem_retainNonEmpty (hl : NoSystem l) : NoSystem (retainNonEmpty l) :=
  fun m hm => hl m (List.mem_of_mem_filter hm)

theorem noSystem_removeOrphans (hh : NoSystem h) : NoSystem (removeOrphans h) := by
  refine noSystem_retainNonEmpty fun m hm => ?_
  obtain ⟨n, hn, rfl⟩ := List.mem_map.1 hm
  rw [retainBlocks_role]
  exact hh n hn

theorem noSystem_reorder (hl : NoSystem l) : NoSystem (reorderToolResults l).1 := by
  dsimp only [reorderToolResults]
  split_ifs
  · exact hl
  · refine noSystem_insertBehind _ _ _ (noSystem_retainNonEmpty fun m hm => ?_)
    obtain ⟨i, hi, rfl⟩ := List.mem_mapIdx.1 hm
    split_ifs
    · rw [retainBlocks_role]
      exact hl _ (List.getElem_mem hi)
    · exact hl _ (List.getElem_mem hi)

theorem noSystem_trimmed {l' : List Message} (htrim : List.Forall₂ Trimmed l l')
    (hl : NoSystem l) : NoSystem l' := by
  induction htrim with
  | nil => exact hl
  | cons hm _ ih =>
    rw [NoSystem, List.forall_mem_cons] at hl ⊢
    exact ⟨hm.role ▸ hl.1, ih hl.2⟩

theorem noSystem_pairUp (hh : NoSystem h) : NoSystem (pairUp h) := by
  have hanswered : NoSystem (insertSyntheticResults
      (reorderToolResults (removeOrphans h)).1).1 := by
    rw [insertSyntheticResults_eq]
    exact noSystem_insertBehind _ _ _ (noSystem_reorder (noSystem_removeOrphans hh))
  exact noSystem_retainNonEmpty (noSystem_trimmed (dedupMessages_trimmed [] _) hanswered)

theorem noSystem_mergeInto {last : Message} (hl : NoSystem (last :: l)) :
    NoSystem (mergeInto last l) := by
  fun_induction mergeInto last l with
  | case1 last => exact hl
  | case2 last m ms _ ih =>
    rw [NoSystem, List.forall_mem_cons, List.forall_mem_cons] at hl
    refine ih ?_
    rw [NoSystem, List.forall_mem_cons]
    exact ⟨hl.1, hl.2.2⟩
  | case3 last m ms _ ih =>
    rw [NoSystem, List.forall_mem_cons] at hl ⊢
    exact ⟨hl.1, ih hl.2⟩

theorem noSystem_validateAndRepair (hh : NoSystem h) : NoSystem (validateAndRepair h) := by
  rw [validateAndRepair_eq]
  have hkept : NoSystem (removeAbortedAssistantMessages (pairUp h)) := fun m hm =>
    noSystem_pairUp hh m ((removeAborted_sublist _).subset hm)
  cases hlist : removeAbortedAssistantMessages (pairUp h) with
  | nil => exact fun m hm => absurd hm List.not_mem_nil
  | cons m ms =>
    rw [hlist] at hkept
    exact noSystem_mergeInto hkept

/-! ### Empty messages -/

theorem noEmpty_mergeInto {last : Message} (hl : NoEmpty (last :: l)) :
    NoEmpty (mergeInto last l) := by
  fun_induction mergeInto last l with
  | case1 last => exact hl
  | case2 last m ms _ ih =>
    rw [NoEmpty, List.forall_mem_cons, List.forall_mem_cons] at hl
    refine ih ?_
    rw [NoEmpty, List.forall_mem_cons]
    refine ⟨?_, hl.2.2⟩
    -- the joined blocks begin with those of `last`
    obtain ⟨role, s | bs⟩ := last
    · rfl
    · cases bs with
      | nil => cases hl.1
      | cons b bs => rfl
  | case3 last m ms _ ih =>
    rw [NoEmpty, List.forall_mem_cons] at hl ⊢
    exact ⟨hl.1, ih hl.2⟩

theorem noEmpty_pairUp (h : List Message) : NoEmpty (pairUp h) := noEmpty_retainNonEmpty _

theorem noEmpty_validateAndRepair (h : List Message) : NoEmpty (validateAndRepair h) := by
  rw [validateAndRepair_eq]
  have hkept : NoEmpty (removeAbortedAssistantMessages (pairUp h)) := fun m hm =>
    noEmpty_pairUp h m ((removeAborted_sublist _).subset hm)
  cases hlist : removeAbortedAssistantMessages (pairUp h) with
  | nil => exact fun m hm => absurd hm List.not_mem_nil
  | cons m ms =>
    rw [hlist] at hkept
    exact noEmpty_mergeInto hkept

/-! ### The last role -/

/-- A message that holds nothing but results is the user's. -/
theorem Disciplined.user_of_plainBlocks (hd : Disciplined l) (hm : m ∈ l)
    (hne : m.content.isEmpty = false) (hp : m.plainBlocks = []) : m.role = .user := by
  refine hd.results m hm ?_
  obtain ⟨role, s | bs⟩ := m
  · cases hp
  · cases bs with
    | nil => cases hne
    | cons b bs =>
      have hb : b.isToolResult = true := by
        simpa using List.filter_eq_nil_iff.1 hp b List.mem_cons_self
      obtain ⟨id, hid⟩ := Option.isSome_iff_exists.1 hb
      exact List.ne_nil_of_mem (Message.mem_resultIds.2 ⟨b, List.mem_cons_self, hid⟩)

theorem getLast_of_skeleton (hd : Disciplined l) (hne : NoEmpty l)
    (hs : ∀ e, (skeleton l).getLast? = some e → e.1 = .user) :
    ∀ m, l.getLast? = some m → m.role = .user := by
  intro m hm
  obtain ⟨X, rfl⟩ := List.getLast?_eq_some_iff.1 hm
  have hmem : m ∈ X ++ [m] := by simp
  by_cases hp : m.plainBlocks = []
  · exact hd.user_of_plainBlocks hmem (hne m hmem) hp
  · refine hs (m.role, m.plainBlocks) ?_
    rw [skeleton_append, skeleton_cons, spoken, if_neg (by simpa using hp)]
    simp

theorem getLast?_removeAborted (l : List Message) :
    (removeAbortedAssistantMessages l).getLast? = l.getLast? := by
  fun_induction removeAbortedAssistantMessages l with
  | case1 => rfl
  | case2 m => rfl
  | case3 m n ms _ ih => rw [ih, List.getLast?_cons_cons]
  | case4 m n ms _ ih =>
    rw [List.getLast?_cons_cons, List.getLast?_cons, ih, List.getLast?_eq_getLast_of_ne_nil
      (List.cons_ne_nil n ms), Option.getD_some]

theorem getLast?_mergeInto (last : Message) (l : List Message) :
    (mergeInto last l).getLast?.map Message.role = (last :: l).getLast?.map Message.role := by
  fun_induction mergeInto last l with
  | case1 last => rfl
  | case2 last m ms hr ih =>
    rw [ih, List.getLast?_cons_cons]
    cases ms with
    | nil => simp [hr]
    | cons n ms => rw [List.getLast?_cons_cons, List.getLast?_cons_cons]
  | case3 last m ms _ ih =>
    rw [List.getLast?_cons_cons, ← ih, List.getLast?_cons]
    obtain ⟨m', l', heq, -⟩ := mergeInto_alternate m ms
    rw [heq, List.getLast?_eq_getLast_of_ne_nil (List.cons_ne_nil m' l')]
    rfl

theorem getLast?_mergeConsecutive (l : List Message) :
    (mergeConsecutive l).getLast?.map Message.role = l.getLast?.map Message.role := by
  cases l with
  | nil => rfl
  | cons m l => exact getLast?_mergeInto m l

/-- A history that ends with a text of the user is repaired to one that ends with the user. -/
theorem getLast_validateAndRepair {s : String} (hd : Disciplined (h ++ [.user s]))
    (hn : (toolUseIds (h ++ [.user s])).Nodup) (hs : s ≠ "") :
    ∃ m, (validateAndRepair (h ++ [.user s])).getLast? = some m ∧ m.role = .user := by
  have hkept : (Message.user s).content.isEmpty = false := by
    simpa [Message.user, MessageContent.isEmpty] using hs
  have hskeleton : skeleton (pairUp (h ++ [.user s])) =
      skeleton (h.filter fun m => !droppedAsEmpty (toolUseIds (h ++ [.user s])) m) ++
        [(.user, [.text s])] := by
    rw [skeleton_pairUp, List.filter_append, skeleton_append]
    congr 1
    have hdrop : droppedAsEmpty (toolUseIds (h ++ [.user s])) (.user s) = false := hkept
    rw [List.filter_cons_of_pos (by rw [hdrop]; rfl)]
    rfl
  have hlast := getLast_of_skeleton (pairUp_resolved hd hn).disciplined (noEmpty_pairUp _)
    (by rw [hskeleton]; simp)
  have hne : pairUp (h ++ [.user s]) ≠ [] := by
    intro hnil
    rw [hnil] at hskeleton
    simp at hskeleton
  have hrole := getLast?_mergeConsecutive (removeAbortedAssistantMessages (pairUp (h ++ [.user s])))
  rw [getLast?_removeAborted, ← validateAndRepair_eq,
    List.getLast?_eq_getLast_of_ne_nil hne] at hrole
  rw [Option.map_some, Option.map_eq_some_iff] at hrole
  obtain ⟨m, hm, hrole⟩ := hrole
  exact ⟨m, hm, hrole.trans (hlast _ (List.getLast?_eq_getLast_of_ne_nil hne))⟩

/-! ### The first role -/

/-- An assistant's turn without anything to say. -/
def isBlankTurn (e : Role × List ContentBlock) : Bool := e.1 = .assistant && e.2.all isBlankBlock

/-- The message says something: besides results it has a text, an image, a use or a thought, and if
it is the assistant's, more than blanks. -/
def speaks (m : Message) : Bool :=
  !m.content.isEmpty && !m.plainBlocks.isEmpty && !isBlankTurn (m.role, m.plainBlocks)

/-- The first message that says something, if there is one, is the user's. -/
def UserFirst (messages : List Message) : Prop :=
  ∀ m, messages.find? speaks = some m → m.role = .user

instance (messages : List Message) : Decidable (UserFirst messages) :=
  match h : messages.find? speaks with
  | none => .isTrue fun m hm => by rw [h] at hm; cases hm
  | some m =>
    if hr : m.role = .user then
      .isTrue fun n hn => by rw [h] at hn; cases hn; exact hr
    else .isFalse fun hall => hr (hall m h)

/-- The first turn of the skeleton that is not blank is that of the first message that speaks. -/
theorem find?_skeleton (ids : List String) (l : List Message) :
    (skeleton (l.filter fun m => !droppedAsEmpty ids m)).find? (fun e => !isBlankTurn e) =
      (l.find? speaks).map fun m => (m.role, m.plainBlocks) := by
  induction l with
  | nil => rfl
  | cons m l ih =>
    by_cases hp : m.plainBlocks = []
    · -- only results, or nothing at all
      have hspeaks : speaks m = false := by simp [speaks, hp]
      have hspoken : spoken m = [] := by simp [spoken, hp]
      rw [List.find?_cons_of_neg (by simp [hspeaks]), ← ih, List.filter_cons]
      split_ifs
      · rw [skeleton_cons, hspoken, List.nil_append]
      · rfl
    · have hdrop : droppedAsEmpty ids m = m.content.isEmpty := by
        obtain ⟨role, s | bs⟩ := m
        · rfl
        · -- a block that is no result is kept
          obtain ⟨b, hb⟩ := List.exists_mem_of_ne_nil _ hp
          obtain ⟨hb, hplain⟩ := List.mem_filter.1 hb
          have hkept : hasUse ids b = true := by
            refine hasUse_of_plain ids b ?_
            simpa [ContentBlock.isToolResult] using hplain
          have hfiltered : b ∈ bs.filter (hasUse ids) := List.mem_filter.2 ⟨hb, hkept⟩
          show (bs.filter (hasUse ids)).isEmpty = bs.isEmpty
          have hne : bs.isEmpty = false := List.isEmpty_eq_false_iff.2 (List.ne_nil_of_mem hb)
          rw [hne, List.isEmpty_eq_false_iff.2 (List.ne_nil_of_mem hfiltered)]
      have hspoken : spoken m = [(m.role, m.plainBlocks)] := by simp [spoken, hp]
      have hsome : m.plainBlocks.isEmpty = false := by simpa using hp
      rw [List.filter_cons, hdrop, List.find?_cons, speaks, hsome]
      cases m.content.isEmpty with
      | true => exact ih
      | false =>
        rw [if_pos (by rfl), skeleton_cons, hspoken, List.singleton_append, List.find?_cons]
        cases isBlankTurn (m.role, m.plainBlocks) with
        | true => exact ih
        | false => rfl

theorem isBlankTurn_of_isAborted (hm : isAborted m = true) {e : Role × List ContentBlock}
    (he : e ∈ spoken m) : isBlankTurn e = true := by
  obtain ⟨hr, hb⟩ := isAborted_spoken hm e he
  rw [isBlankTurn, hr, List.all_eq_true.2 hb]
  rfl

theorem isAborted_of_isBlankTurn (hres : m.resultIds = [])
    (hb : isBlankTurn (m.role, m.plainBlocks) = true) : isAborted m = true := by
  have hplain : m.plainBlocks = m.blocks := by
    rw [Message.plainBlocks, List.filter_eq_self]
    intro b hb
    rw [ContentBlock.isToolResult, List.filterMap_eq_nil_iff.1 hres b hb]
    rfl
  rw [isBlankTurn, hplain, Bool.and_eq_true, decide_eq_true_eq] at hb
  refine isAborted_iff.2 ⟨hb.1, ?_⟩
  obtain ⟨role, s | bs⟩ := m
  · simpa [isBlankBlock, isEmptyOrBlankContent] using hb.2
  · exact hb.2

/-- What is left of a history begins with the user, when the first turn that is not blank and the
last message are the user's. -/
theorem head_removeAborted (hd : Disciplined l)
    (hne : NoEmpty l) (hlast : ∀ m, l.getLast? = some m → m.role = .user)
    (hs : ∀ e, (skeleton l).find? (fun e => !isBlankTurn e) = some e → e.1 = .user) :
    ∀ m, (removeAbortedAssistantMessages l).head? = some m → m.role = .user := by
  fun_induction removeAbortedAssistantMessages l with
  | case1 => simp
  | case2 m => simpa using hlast
  | case3 m n ms hm ih =>
    rw [List.getLast?_cons_cons] at hlast
    refine ih (Disciplined.cons.1 hd).2 (fun x hx => hne x (List.mem_cons_of_mem m hx)) hlast ?_
    intro e he
    refine hs e ?_
    rw [skeleton_cons, List.find?_append]
    have hskip : (spoken m).find? (fun e => !isBlankTurn e) = none := by
      rw [List.find?_eq_none]
      intro e he
      rw [isBlankTurn_of_isAborted hm he]
      simp
    rw [hskip]
    exact he
  | case4 m n ms hm ih =>
    intro m' hm'
    obtain rfl : m = m' := by simpa using hm'
    by_cases hp : m.plainBlocks = []
    · exact hd.user_of_plainBlocks List.mem_cons_self (hne m List.mem_cons_self) hp
    · by_cases hres : m.resultIds = []
      · refine hs (m.role, m.plainBlocks) ?_
        have hblank : isBlankTurn (m.role, m.plainBlocks) = false := by
          rw [← Bool.not_eq_true]
          exact fun hb => hm (isAborted_of_isBlankTurn hres hb)
        rw [skeleton_cons, spoken, if_neg (by simpa using hp), List.singleton_append,
          List.find?_cons_of_pos (by simp [hblank])]
      · exact hd.results m List.mem_cons_self hres

/-- **The repaired history begins with the user**, when the first message that says something and
the last message are the user's. -/
theorem head_validateAndRepair {s : String} (hd : Disciplined (h ++ [.user s]))
    (hn : (toolUseIds (h ++ [.user s])).Nodup) (hs : s ≠ "") (hfirst : UserFirst (h ++ [.user s])) :
    ∃ m, (validateAndRepair (h ++ [.user s])).head? = some m ∧ m.role = .user := by
  have hskeleton := skeleton_pairUp (h ++ [.user s])
  have hd' := (pairUp_resolved hd hn).disciplined
  have hne := noEmpty_pairUp (h ++ [.user s])
  obtain ⟨last, hlast, hrole⟩ := getLast_validateAndRepair hd hn hs
  have hmerged := getLast?_mergeConsecutive
    (removeAbortedAssistantMessages (pairUp (h ++ [.user s])))
  rw [← validateAndRepair_eq, hlast, getLast?_removeAborted, Option.map_some, eq_comm] at hmerged
  have hhead := head_removeAborted hd' hne (fun m hm => ?_) fun e he => ?_
  · rw [validateAndRepair_eq]
    cases hkept : removeAbortedAssistantMessages (pairUp (h ++ [.user s])) with
    | nil =>
      have hnil := getLast?_removeAborted (pairUp (h ++ [.user s]))
      rw [hkept] at hnil
      rw [← hnil] at hmerged
      cases hmerged
    | cons m ms =>
      obtain ⟨m', l', heq, hr, -⟩ := mergeInto_alternate m ms
      refine ⟨m', by rw [mergeConsecutive, heq]; rfl, hr.trans (hhead m ?_)⟩
      rw [hkept]
      rfl
  · rw [hm, Option.map_some, Option.some.injEq] at hmerged
    exact hmerged.trans hrole
  · rw [hskeleton, find?_skeleton] at he
    obtain ⟨m, hm, rfl⟩ := Option.map_eq_some_iff.1 he
    exact hfirst m hm

end SessionRepair
end RustyHand
