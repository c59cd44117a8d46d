import RustyHand.Session.RepairPasses
import RustyHand.Session.Pairing

/-!
# The reordering pass

`reorder_tool_results` takes the misplaced results out of their messages and works from the last
use to the first, putting behind each assistant message the results that belong there.  With
pairwise distinct ids a key finds its assistant message again after the removals, so the loop is a
run of `attach` rounds (`reorder_induction`).  From that rule follow what the pass keeps and, in
`resultsOf_reorder`, the order in which the results of one id end up.
-/

namespace RustyHand
namespace SessionRepair

open DescendingInsert Pairing

variable {l : List Message} {id : String} {a : ℕ}

/-! ### The message that holds a use -/

theorem usesTool_iff {m : Message} :
    usesTool id m = true ↔ m.role = .assistant ∧ id ∈ m.useIds := by
  simp [usesTool]

theorem toolUseIndex_eq_some (h : toolUseIndex l id = some a) :
    ∃ A m B, l = A ++ m :: B ∧ A.length = a ∧ m.role = .assistant ∧ id ∈ m.useIds := by
  obtain ⟨A, m, B, hl, hA, hm, -⟩ := lastIndex_eq_some h
  exact ⟨A, m, B, hl, hA, usesTool_iff.1 hm⟩

theorem not_mem_useIds_of_nodup {A B : List Message} {m z : Message}
    (hn : (toolUseIds (A ++ m :: B)).Nodup) (hid : id ∈ m.useIds) (hz : z ∈ A ∨ z ∈ B) :
    id ∉ z.useIds := by
  intro hzid
  rw [toolUseIds_append, toolUseIds_cons, List.nodup_append, List.nodup_append] at hn
  obtain ⟨-, ⟨-, -, hmB⟩, hA⟩ := hn
  rcases hz with hz | hz
  · exact hA id (mem_toolUseIds.2 ⟨z, hz, hzid⟩) id (List.mem_append_left _ hid) rfl
  · exact hmB id hid id (mem_toolUseIds.2 ⟨z, hz, hzid⟩) rfl

theorem toolUseIndex_of_nodup {A B : List Message} {m : Message}
    (hn : (toolUseIds (A ++ m :: B)).Nodup) (hr : m.role = .assistant) (hid : id ∈ m.useIds) :
    toolUseIndex (A ++ m :: B) id = some A.length := by
  refine lastIndex_append_cons (usesTool_iff.2 ⟨hr, hid⟩) fun z hz => ?_
  simp [usesTool, not_mem_useIds_of_nodup hn hid (Or.inr hz)]

theorem toolUseIndex_of_getElem? {m : Message} (hn : (toolUseIds l).Nodup) (hm : l[a]? = some m)
    (hr : m.role = .assistant) (hid : id ∈ m.useIds) : toolUseIndex l id = some a := by
  obtain ⟨hlt, heq⟩ := List.getElem?_eq_some_iff.1 hm
  have hsplit : l = l.take a ++ m :: l.drop (a + 1) := by
    rw [← heq, ← List.drop_eq_getElem_cons hlt, List.take_append_drop]
  have hidx := toolUseIndex_of_nodup (hsplit ▸ hn) hr hid
  rwa [← hsplit, List.length_take, min_eq_left hlt.le] at hidx

theorem toolUseIndex_isSome (hid : ∃ m ∈ l, m.role = .assistant ∧ id ∈ m.useIds) :
    (toolUseIndex l id).isSome = true := by
  obtain ⟨m, hm, h⟩ := hid
  rw [Option.isSome_iff_ne_none]
  intro hnone
  have := lastIndex_eq_none.1 hnone m hm
  simp [usesTool, h.1, h.2] at this

/-! ### Removing the misplaced results -/

/-- What is left of message `i` once the misplaced results are taken out. -/
def settled (l : List Message) (i : ℕ) (m : Message) : Message :=
  if m.role = .user then retainBlocks (fun b => (misplacedBlock l i b).isNone) m else m

/-- The history without its misplaced results. -/
def settle (l : List Message) : List Message := l.mapIdx (settled l)

theorem misplacedBlock_eq_some {i : ℕ} {b : ContentBlock} {e : Misplaced} :
    misplacedBlock l i b = some e ↔ ∃ id a, b.resultId? = some id ∧ toolUseIndex l id = some a ∧
      i ≠ a + 1 ∧ e = ⟨i, id, b, a⟩ := by
  cases hb : b.resultId? with
  | none => simp [misplacedBlock, hb]
  | some id =>
    cases ha : toolUseIndex l id with
    | none => simp [misplacedBlock, hb, ha]
    | some a => simp [misplacedBlock, hb, ha, eq_comm]

theorem misplacedBlock_of_plain {i : ℕ} {b : ContentBlock} (h : b.resultId? = none) :
    (misplacedBlock l i b).isNone = true := by simp [misplacedBlock, h]

theorem mem_misplaced {e : Misplaced} :
    e ∈ misplaced l ↔ ∃ i m b, l[i]? = some m ∧ m.role = .user ∧ b ∈ m.blocks ∧
      misplacedBlock l i b = some e := by
  simp only [misplaced, List.mem_flatMap, Prod.exists, List.mk_mem_zipIdx_iff_getElem?]
  constructor
  · rintro ⟨m, i, hi, he⟩
    split at he
    · obtain ⟨b, hb, hbe⟩ := List.mem_filterMap.1 he
      exact ⟨i, m, b, hi, ‹_›, hb, hbe⟩
    · simp at he
  · rintro ⟨i, m, b, hi, hr, hb, hbe⟩
    refine ⟨m, i, hi, ?_⟩
    rw [if_pos hr]
    exact List.mem_filterMap.2 ⟨b, hb, hbe⟩

theorem isMisplacedSource_iff {i : ℕ} {m : Message} {b : ContentBlock} (hi : l[i]? = some m)
    (hr : m.role = .user) (hb : b ∈ m.blocks) :
    isMisplacedSource (misplaced l) i b = (misplacedBlock l i b).isSome := by
  rw [Bool.eq_iff_iff, isMisplacedSource, List.any_eq_true]
  constructor
  · rintro ⟨e, he, hsrc⟩
    simp only [Bool.and_eq_true, decide_eq_true_eq, ContentBlock.answers_iff] at hsrc
    obtain ⟨j, n, c, -, -, -, hc⟩ := mem_misplaced.1 he
    obtain ⟨id, a, -, ha, hj, rfl⟩ := misplacedBlock_eq_some.1 hc
    obtain ⟨rfl, hbid⟩ := hsrc
    rw [misplacedBlock_eq_some.2 ⟨id, a, hbid, ha, hj, rfl⟩]
    rfl
  · intro hsome
    obtain ⟨e, he⟩ := Option.isSome_iff_exists.1 hsome
    refine ⟨e, mem_misplaced.2 ⟨i, m, b, hi, hr, hb, he⟩, ?_⟩
    obtain ⟨id, a, hbid, -, -, rfl⟩ := misplacedBlock_eq_some.1 he
    simp [ContentBlock.answers_iff, hbid]

theorem retainBlocks_congr {p q : ContentBlock → Bool} {m : Message}
    (h : ∀ b ∈ m.blocks, p b = q b) : retainBlocks p m = retainBlocks q m := by
  obtain ⟨r, c⟩ := m
  cases c with
  | text s => rfl
  | blocks bs => simpa [retainBlocks] using List.filter_congr h

theorem removeMisplaced_eq_settle : removeMisplaced (misplaced l) l = settle l := by
  unfold removeMisplaced settle
  refine List.ext_getElem? fun i => ?_
  rw [List.getElem?_mapIdx, List.getElem?_mapIdx]
  cases hi : l[i]? with
  | none => rfl
  | some m =>
    simp only [Option.map_some, settled]
    split
    · refine congrArg some (retainBlocks_congr fun b hb => ?_)
      rw [isMisplacedSource_iff hi ‹_› hb, Option.not_isSome]
    · rfl

theorem settled_role (i : ℕ) (m : Message) : (settled l i m).role = m.role := by
  unfold settled
  split
  · rw [retainBlocks_role]
  · rfl

theorem settled_of_not_user {i : ℕ} {m : Message} (h : m.role ≠ .user) : settled l i m = m :=
  if_neg h

theorem settled_useIds (i : ℕ) (m : Message) : (settled l i m).useIds = m.useIds := by
  unfold settled
  split
  · exact retainBlocks_useIds (fun _ => misplacedBlock_of_plain) m
  · rfl

theorem settled_plainBlocks (i : ℕ) (m : Message) :
    (settled l i m).plainBlocks = m.plainBlocks := by
  unfold settled
  split
  · exact retainBlocks_plainBlocks (fun _ => misplacedBlock_of_plain) m
  · rfl

theorem flatMap_mapIdx_of_eq {β : Type*} {f : Message → List β} {g : ℕ → Message → Message}
    (h : ∀ i m, f (g i m) = f m) (l : List Message) : (l.mapIdx g).flatMap f = l.flatMap f := by
  induction l generalizing g with
  | nil => rfl
  | cons m l ih => simp [List.mapIdx_cons, h, ih fun i m => h (i + 1) m]

theorem toolUseIds_settle : toolUseIds (settle l) = toolUseIds l :=
  flatMap_mapIdx_of_eq settled_useIds l

theorem skeleton_settle : skeleton (settle l) = skeleton l :=
  flatMap_mapIdx_of_eq (fun i m => spoken_congr (settled_role i m) (settled_plainBlocks i m)) l

theorem settle_content_ne (hne : NoEmpty l) : ∀ m ∈ settle l, m.content ≠ .text "" := by
  intro n hn
  obtain ⟨i, hi⟩ := List.mem_iff_getElem?.1 hn
  rw [settle, List.getElem?_mapIdx, Option.map_eq_some_iff] at hi
  obtain ⟨m, hm, rfl⟩ := hi
  have hm := hne.content_ne (List.mem_of_getElem? hm)
  unfold settled
  split
  · exact fun h => hm (retainBlocks_content_text h)
  · exact hm

theorem disciplined_settle (hd : Disciplined l) : Disciplined (settle l) := by
  constructor <;> intro n hn <;> obtain ⟨i, hi⟩ := List.mem_iff_getElem?.1 hn <;>
    rw [settle, List.getElem?_mapIdx, Option.map_eq_some_iff] at hi <;>
    obtain ⟨m, hm, rfl⟩ := hi <;> have hm := List.mem_of_getElem? hm
  · rw [settled_useIds, settled_role]
    exact hd.uses m hm
  · unfold settled
    split
    · exact (Disciplined.retain (fun _ => misplacedBlock_of_plain) (hd.uses m hm)
        (hd.results m hm)).2
    · exact hd.results m hm

/-! ### The rounds of the insertion loop -/

/-- The history the loop starts from. -/
def afterRemoval (l : List Message) : List Message := retainNonEmpty (settle l)

/-- The part of it in front of message `a`. -/
def beforeKey (l : List Message) (a : ℕ) : List Message := retainNonEmpty ((settle l).take a)

/-- The part of it behind message `a`. -/
def behindKey (l : List Message) (a : ℕ) : List Message := retainNonEmpty ((settle l).drop (a + 1))

/-- A key of the loop is the place of a message with uses, which the removals leave alone. -/
theorem afterRemoval_split (h : toolUseIndex l id = some a) :
    ∃ m, l[a]? = some m ∧ m.role = .assistant ∧ id ∈ m.useIds ∧
      afterRemoval l = beforeKey l a ++ m :: behindKey l a := by
  obtain ⟨A, m, B, hl, rfl, hr, hid⟩ := toolUseIndex_eq_some h
  have hget : l[A.length]? = some m := by rw [hl]; simp
  have hset : (settle l)[A.length]? = some m := by
    rw [settle, List.getElem?_mapIdx, hget, Option.map_some,
      settled_of_not_user (by rw [hr]; decide)]
  refine ⟨m, hget, hr, hid, ?_⟩
  have hsplit : settle l
      = (settle l).take A.length ++ m :: (settle l).drop (A.length + 1) := by
    obtain ⟨hlt, heq⟩ := List.getElem?_eq_some_iff.1 hset
    rw [← heq, ← List.drop_eq_getElem_cons hlt, List.take_append_drop]
  rw [afterRemoval, beforeKey, behindKey, ← retainNonEmpty_cons_of_useIds hid,
    ← retainNonEmpty_append, ← hsplit]

/-- A message behind that of a key, if it is not the user's, was behind it before. -/
theorem getElem?_of_mem_behindKey {z : Message} (hz : z ∈ behindKey l a) (hr : z.role ≠ .user) :
    ∃ k, a < k ∧ l[k]? = some z := by
  obtain ⟨k, hk⟩ := List.mem_iff_getElem?.1 (List.mem_of_mem_filter hz)
  rw [List.getElem?_drop, settle, List.getElem?_mapIdx, Option.map_eq_some_iff] at hk
  obtain ⟨m, hm, rfl⟩ := hk
  rw [settled_role] at hr
  exact ⟨a + 1 + k, by omega, by rw [settled_of_not_user hr, hm]⟩

theorem currentPosition_key (h : toolUseIndex l id = some a) :
    currentPosition (toolUseIndex l) (afterRemoval l) a = some (beforeKey l a).length := by
  obtain ⟨m, hget, hr, hid, hsplit⟩ := afterRemoval_split h
  rw [currentPosition, hsplit]
  refine lastIndex_append_cons ?_ fun z hz => ?_
  · simpa [hr] using ⟨id, hid, h⟩
  · rw [Bool.and_eq_false_iff, or_iff_not_imp_left, Bool.not_eq_false, decide_eq_true_eq]
    refine fun hzr => List.any_eq_false.2 fun id' hid' hidx => ?_
    -- a use of `z` stands behind `a`, so its key is not `a`
    obtain ⟨k, hak, hk⟩ := getElem?_of_mem_behindKey hz (by rw [hzr]; decide)
    have := le_of_lastIndex_eq_some (of_decide_eq_true hidx) hk (usesTool_iff.2 ⟨hzr, hid'⟩)
    omega

theorem beforeKey_mono {b : ℕ} (h : b ≤ a) : (beforeKey l b).length ≤ (beforeKey l a).length := by
  refine List.Sublist.length_le (List.Sublist.filter _ ?_)
  rw [← min_eq_left h, ← List.take_take]
  exact List.take_sublist ..

theorem mem_insertionsFor {b : ContentBlock} :
    b ∈ insertionsFor (misplaced l) a ↔ ∃ e ∈ misplaced l, e.assistantIdx = a ∧ e.block = b := by
  simp [insertionsFor, and_assoc]

theorem insertionsFor_spec {b : ContentBlock} (hb : b ∈ insertionsFor (misplaced l) a) :
    ∃ id, b.resultId? = some id ∧ toolUseIndex l id = some a := by
  obtain ⟨e, he, rfl, rfl⟩ := mem_insertionsFor.1 hb
  obtain ⟨i, m, b, -, -, -, h⟩ := mem_misplaced.1 he
  obtain ⟨id, a, hbid, ha, -, rfl⟩ := misplacedBlock_eq_some.1 h
  exact ⟨id, hbid, ha⟩

theorem insertionsFor_isToolResult {b : ContentBlock}
    (hb : b ∈ insertionsFor (misplaced l) a) : b.isToolResult = true := by
  obtain ⟨id, hid, -⟩ := insertionsFor_spec hb
  simp [ContentBlock.isToolResult, hid]

theorem misplaced_key {e : Misplaced} (he : e ∈ misplaced l) :
    toolUseIndex l e.toolUseId = some e.assistantIdx := by
  obtain ⟨i, m, b, -, -, -, h⟩ := mem_misplaced.1 he
  obtain ⟨id, a, -, ha, -, rfl⟩ := misplacedBlock_eq_some.1 h
  exact ha

/-- The keys of the loop, last first. -/
def reorderKeys (l : List Message) : List ℕ :=
  descendingKeys ((misplaced l).map Misplaced.assistantIdx)

theorem mem_reorderKeys : a ∈ reorderKeys l ↔ ∃ e ∈ misplaced l, e.assistantIdx = a := by
  simp [reorderKeys]

theorem settled_of_no_misplaced (h : misplaced l = []) : settle l = l := by
  unfold settle
  refine List.ext_getElem? fun i => ?_
  rw [List.getElem?_mapIdx]
  cases hi : l[i]? with
  | none => rfl
  | some m =>
    simp only [Option.map_some, settled]
    split
    · obtain ⟨r, c⟩ := m
      cases c with
      | text s => rfl
      | blocks bs =>
        have hall : ∀ b ∈ bs, (misplacedBlock l i b).isNone = true := by
          intro b hb
          rw [Option.isNone_iff_eq_none, Option.eq_none_iff_forall_ne_some]
          intro e he
          have := mem_misplaced.2 ⟨i, _, b, hi, ‹_›, hb, he⟩
          simp [h] at this
        simp [retainBlocks, List.filter_eq_self.2 hall]
    · rfl

/-- The pass as one loop; without misplaced results it has no round to make. -/
theorem reorderToolResults_eq (hne : NoEmpty l) :
    (reorderToolResults l).1 = (reorderKeys l).foldl
      (insertBehind (currentPosition (toolUseIndex l) (afterRemoval l))
        (insertionsFor (misplaced l))) (afterRemoval l) := by
  unfold reorderToolResults
  by_cases h : misplaced l = []
  · have hself : afterRemoval l = l := by
      rw [afterRemoval, settled_of_no_misplaced h, retainNonEmpty_of_noEmpty hne]
    simp [h, reorderKeys, descendingKeys, hself]
  · simp only [List.isEmpty_iff, h, if_false, removeMisplaced_eq_settle]
    rfl

/-- **The reordering loop.**  Each round attaches the results of its key behind the message with
their uses; `P ks l'` speaks of the keys still to come. -/
theorem reorder_induction {P : List ℕ → List Message → Prop} (hne : NoEmpty l)
    (h0 : P (reorderKeys l) (afterRemoval l))
    (hstep : ∀ a ks m R, (a :: ks) <:+ reorderKeys l → l[a]? = some m → m.role = .assistant →
      m.useIds ≠ [] → afterRemoval l = beforeKey l a ++ m :: behindKey l a →
      P (a :: ks) (beforeKey l a ++ m :: R) →
      P ks (beforeKey l a ++ m :: attach (insertionsFor (misplaced l) a) R)) :
    P [] (reorderToolResults l).1 := by
  rw [reorderToolResults_eq hne]
  have hkey : ∀ a ∈ reorderKeys l, ∃ id, toolUseIndex l id = some a := by
    intro a ha
    obtain ⟨e, he, rfl⟩ := mem_reorderKeys.1 ha
    exact ⟨e.toolUseId, misplaced_key he⟩
  refine foldl_insertBehind (fun a ha => ?_) ?_ h0 fun a ks X m R₀ R hsuf ha hl₀ hP => ?_
  · obtain ⟨id, hid⟩ := hkey a ha
    obtain ⟨m, -, -, -, hsplit⟩ := afterRemoval_split hid
    exact ⟨_, m, _, currentPosition_key hid, hsplit⟩
  · refine (descendingKeys_pairwise _).imp_of_mem fun {a b} ha hb hab => ?_
    obtain ⟨id, hid⟩ := hkey a ha
    obtain ⟨id', hid'⟩ := hkey b hb
    rw [currentPosition_key hid, currentPosition_key hid']
    exact beforeKey_mono hab.le
  · obtain ⟨id, hid⟩ := hkey a (hsuf.subset List.mem_cons_self)
    obtain ⟨m', hget, hr, hidm, hsplit⟩ := afterRemoval_split hid
    have hlen : X.length = (beforeKey l a).length := by
      rw [currentPosition_key hid] at ha
      exact (Option.some.inj ha).symm
    obtain ⟨rfl, hrest⟩ := List.append_inj (hl₀.symm.trans hsplit) hlen
    obtain ⟨rfl, rfl⟩ := List.cons.inj hrest
    exact hstep a ks m R hsuf hget hr (List.ne_nil_of_mem hidm) hsplit hP

/-- Behind a message, results for its uses may be attached to what follows it. -/
theorem resultsFollow_attach {prev : List String} {bs : List ContentBlock} {R : List Message}
    (hbs : ∀ b ∈ bs, b.isToolResult = true)
    (hids : ∀ b ∈ bs, ∀ id, b.resultId? = some id → id ∈ prev) (hd : Disciplined R)
    (h : ResultsFollow prev R) : ResultsFollow prev (attach bs R) := by
  have huse := useIds_of_results hbs
  have hres : ∀ id ∈ bs.filterMap ContentBlock.resultId?, id ∈ prev := by
    intro id hid
    obtain ⟨b, hb, hbid⟩ := List.mem_filterMap.1 hid
    exact hids b hb id hbid
  cases R with
  | nil => exact ⟨hres, trivial⟩
  | cons n R =>
    by_cases hr : n.role = .user
    · rw [attach_user hr, resultsFollow_cons, Message.resultIds, Message.useIds,
        Message.blocks_mk_blocks, List.filterMap_append, List.filterMap_append, huse,
        List.append_nil]
      refine ⟨fun id hid => ?_, h.2⟩
      rcases List.mem_append.1 hid with hid | hid
      · exact h.1 id hid
      · exact hres id hid
    · -- a message that is not the user's has no results, so a new one may stand before it
      have hnil : n.resultIds = [] := by
        by_contra hne
        exact hr ((Disciplined.cons.1 hd).1.2 hne)
      rw [attach_not_user hr]
      refine ⟨hres, fun id hid => ?_, h.2⟩
      simp [hnil] at hid

/-- One round of an insertion loop keeps the pairs. -/
theorem attach_round {bs : List ContentBlock} {X R : List Message} {m : Message}
    (hbs : ∀ b ∈ bs, b.isToolResult = true)
    (hids : ∀ b ∈ bs, ∀ id, b.resultId? = some id → id ∈ m.useIds)
    (hd : Disciplined (X ++ m :: R)) (hf : ResultsFollow [] (X ++ m :: R)) :
    Disciplined (X ++ m :: attach bs R) ∧ ResultsFollow [] (X ++ m :: attach bs R) := by
  obtain ⟨hdX, hdmR⟩ := Disciplined.append.1 hd
  obtain ⟨hdm, hdR⟩ := Disciplined.cons.1 hdmR
  refine ⟨Disciplined.append.2 ⟨hdX, Disciplined.cons.2 ⟨hdm, disciplined_attach hbs hdR⟩⟩, ?_⟩
  exact hf.append_congr fun hfR => resultsFollow_attach hbs hids hdR hfR

theorem settled_resultIds {i : ℕ} {m : Message} (hr : m.role = .user)
    (hid : id ∈ (settled l i m).resultIds) :
    id ∈ m.resultIds ∧ ∀ a, toolUseIndex l id = some a → i = a + 1 := by
  rw [settled, if_pos hr, Message.mem_resultIds,
    retainBlocks_blocks fun _ => misplacedBlock_of_plain] at hid
  obtain ⟨b, hb, hbid⟩ := hid
  obtain ⟨hb, hkept⟩ := List.mem_filter.1 hb
  refine ⟨Message.mem_resultIds.2 ⟨b, hb, hbid⟩, fun a ha => ?_⟩
  by_contra hia
  rw [misplacedBlock_eq_some.2 ⟨id, a, hbid, ha, hia, rfl⟩] at hkept
  cases hkept

theorem resultsFollow_settle (hd : Disciplined l)
    (horph : ∀ m ∈ l, ∀ id ∈ m.resultIds, id ∈ toolUseIds l) : ResultsFollow [] (settle l) := by
  rw [resultsFollow_nil_iff]
  intro j n hj id hid
  rw [settle, List.getElem?_mapIdx, Option.map_eq_some_iff] at hj
  obtain ⟨m, hm, rfl⟩ := hj
  have hml := List.mem_of_getElem? hm
  have hr : m.role = .user := by
    by_contra hr
    rw [settled_of_not_user hr] at hid
    exact hr (hd.results m hml (List.ne_nil_of_mem hid))
  obtain ⟨hidm, hplace⟩ := settled_resultIds hr hid
  obtain ⟨u, hu, hidu⟩ := mem_toolUseIds.1 (horph m hml id hidm)
  obtain ⟨a, ha⟩ := Option.isSome_iff_exists.1
    (toolUseIndex_isSome ⟨u, hu, hd.uses u hu (List.ne_nil_of_mem hidu), hidu⟩)
  obtain rfl := hplace a ha
  obtain ⟨A, v, B, hl, rfl, -, hidv⟩ := toolUseIndex_eq_some ha
  refine ⟨A.length, settled l A.length v, rfl, ?_, by rwa [settled_useIds]⟩
  have hget : l[A.length]? = some v := by rw [hl]; simp
  rw [settle, List.getElem?_mapIdx, hget]
  rfl

/-! ### What the pass keeps -/

section Kept

variable (hne : NoEmpty l)
include hne

theorem toolUseIds_reorder : toolUseIds (reorderToolResults l).1 = toolUseIds l := by
  refine reorder_induction (P := fun _ l' => toolUseIds l' = toolUseIds l) hne ?_ ?_
  · rw [afterRemoval, toolUseIds_retainNonEmpty, toolUseIds_settle]
  · intro a ks m R _ _ _ _ _ hP
    rw [← hP]
    simp [toolUseIds_attach fun b => insertionsFor_isToolResult (b := b)]

theorem skeleton_reorder : skeleton (reorderToolResults l).1 = skeleton l := by
  refine reorder_induction (P := fun _ l' => skeleton l' = skeleton l) hne ?_ ?_
  · rw [afterRemoval, skeleton_retainNonEmpty (settle_content_ne hne), skeleton_settle]
  · intro a ks m R _ _ _ _ _ hP
    rw [← hP]
    simp [skeleton_attach fun b => insertionsFor_isToolResult (b := b)]

theorem content_ne_reorder : ∀ m ∈ (reorderToolResults l).1, m.content ≠ .text "" := by
  refine reorder_induction (P := fun _ l' => ∀ m ∈ l', m.content ≠ .text "") hne ?_ ?_
  · exact fun m hm => settle_content_ne hne m (List.mem_of_mem_filter hm)
  · intro a ks m R _ _ _ _ _ hP
    rw [List.forall_mem_append, List.forall_mem_cons] at hP ⊢
    exact ⟨hP.1, hP.2.1, content_ne_attach hP.2.2⟩

/-- With uses in assistant messages and results in user messages, and no orphans, every result
ends up in the message behind its use. -/
theorem resultsFollow_reorder (hd : Disciplined l)
    (horph : ∀ m ∈ l, ∀ id ∈ m.resultIds, id ∈ toolUseIds l) :
    Disciplined (reorderToolResults l).1 ∧ ResultsFollow [] (reorderToolResults l).1 := by
  refine reorder_induction (P := fun _ l' => Disciplined l' ∧ ResultsFollow [] l') hne
    ⟨(disciplined_settle hd).sublist List.filter_sublist, ?_⟩ ?_
  · exact (resultsFollow_settle hd horph).filter fun m _ hm =>
      useIds_of_isEmpty (by simpa using hm)
  · rintro a ks m R - hget - - - ⟨hdR, hfR⟩
    refine attach_round (fun b => insertionsFor_isToolResult) (fun b hb id hid => ?_) hdR hfR
    obtain ⟨id', hid', hidx⟩ := insertionsFor_spec hb
    obtain rfl : id' = id := Option.some.inj (hid'.symm.trans hid)
    obtain ⟨A, m', B, rfl, rfl, -, hidm⟩ := toolUseIndex_eq_some hidx
    obtain rfl : m' = m := by simpa using hget
    exact hidm

end Kept

end SessionRepair
end RustyHand
