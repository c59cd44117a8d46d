import RustyHand.Session.RepairReorder

/-!
# The order of the results of one id

Several results may claim one id; the deduplication keeps the first.  `repairOrder` says in which
order the reordering pass leaves them: a result already behind its use first, then the moved ones
in the order of the history.  Results that stand outside user messages are never moved.
-/

namespace RustyHand
namespace SessionRepair

open DescendingInsert

variable {l : List Message} {id : String} {a : ℕ}

/-- The results for `id` in user messages. -/
def userResults (id : String) (messages : List Message) : List ContentBlock :=
  resultsOf id (messages.filter fun m => m.role = .user)

/-- The results for `id` in other messages. -/
def fixedResults (id : String) (messages : List Message) : List ContentBlock :=
  resultsOf id (messages.filter fun m => m.role ≠ .user)

/-- The results for `id`, in the order the reordering pass leaves them. -/
def repairOrder (messages : List Message) (id : String) : List ContentBlock :=
  match toolUseIndex messages id with
  | none => resultsOf id messages
  | some a =>
    let before := messages.take (a + 1)
    let next := (messages.drop (a + 1)).take 1
    let after := messages.drop (a + 2)
    fixedResults id before ++ userResults id next ++ userResults id before ++
      userResults id after ++ fixedResults id next ++ fixedResults id after

@[simp] theorem userResults_nil (id : String) : userResults id [] = [] := rfl
@[simp] theorem fixedResults_nil (id : String) : fixedResults id [] = [] := rfl

theorem userResults_cons (id : String) (m : Message) (L : List Message) :
    userResults id (m :: L) =
      (if m.role = .user then m.resultsFor id else []) ++ userResults id L := by
  by_cases hr : m.role = .user <;> simp [userResults, hr]

theorem fixedResults_cons (id : String) (m : Message) (L : List Message) :
    fixedResults id (m :: L) =
      (if m.role = .user then [] else m.resultsFor id) ++ fixedResults id L := by
  by_cases hr : m.role = .user <;> simp [fixedResults, hr]

theorem fixedResults_append (id : String) (L L' : List Message) :
    fixedResults id (L ++ L') = fixedResults id L ++ fixedResults id L' := by
  simp [fixedResults]

/-! ### What the removal leaves -/

theorem settled_resultsFor_of_ne {i : ℕ} (h : toolUseIndex l id = some a) (hi : i ≠ a + 1)
    (m : Message) :
    (settled l i m).resultsFor id = if m.role = .user then [] else m.resultsFor id := by
  unfold settled
  split
  · rw [retainBlocks_resultsFor fun _ => misplacedBlock_of_plain, List.filter_eq_nil_iff]
    intro b hb
    have hbid := ContentBlock.answers_iff.1 (List.mem_filter.1 hb).2
    simp [misplacedBlock_eq_some.2 ⟨id, a, hbid, h, hi, rfl⟩]
  · rfl

theorem settled_resultsFor_of_eq (h : ∀ a, toolUseIndex l id = some a → i = a + 1)
    (m : Message) : (settled l i m).resultsFor id = m.resultsFor id := by
  unfold settled
  split
  · rw [retainBlocks_resultsFor fun _ => misplacedBlock_of_plain, List.filter_eq_self]
    intro b hb
    have hbid := ContentBlock.answers_iff.1 (List.mem_filter.1 hb).2
    rw [Option.isNone_iff_eq_none, Option.eq_none_iff_forall_ne_some]
    intro e he
    obtain ⟨id', a, hid', ha, hia, -⟩ := misplacedBlock_eq_some.1 he
    obtain rfl : id' = id := Option.some.inj (hid'.symm.trans hbid)
    exact hia (h a ha)
  · rfl

theorem resultsOf_mapIdx_settled (h : toolUseIndex l id = some a) {L : List Message} {k : ℕ}
    (hk : ∀ i < L.length, i + k ≠ a + 1) :
    resultsOf id (L.mapIdx fun i => settled l (i + k)) = fixedResults id L := by
  induction L generalizing k with
  | nil => rfl
  | cons m L ih =>
    have h0 : 0 + k ≠ a + 1 := hk 0 (by simp)
    have ih := ih (k := k + 1) fun i hi => by
      have := hk (i + 1) (by simpa using hi)
      omega
    rw [List.mapIdx_cons, resultsOf_cons, settled_resultsFor_of_ne h h0, fixedResults_cons, ← ih]
    simp only [Nat.add_assoc, Nat.add_comm 1 k]

theorem user_of_mapIdx_settled (h : toolUseIndex l id = some a) {L : List Message} {k : ℕ}
    (hk : ∀ i < L.length, i + k ≠ a + 1) :
    ∀ n ∈ L.mapIdx fun i => settled l (i + k), n.role = .user → n.resultsFor id = [] := by
  intro n hn hr
  obtain ⟨i, hi⟩ := List.mem_iff_getElem?.1 hn
  rw [List.getElem?_mapIdx, Option.map_eq_some_iff] at hi
  obtain ⟨m, hm, rfl⟩ := hi
  have hlt := (List.getElem?_eq_some_iff.1 hm).1
  rw [settled_role] at hr
  rw [settled_resultsFor_of_ne h (hk i hlt), if_pos hr]

theorem settle_take (l : List Message) (k : ℕ) :
    (settle l).take k = (l.take k).mapIdx (settled l) := by
  refine List.ext_getElem? fun i => ?_
  by_cases hi : i < k <;> simp [settle, hi]

theorem settle_drop (l : List Message) (k : ℕ) :
    (settle l).drop k = (l.drop k).mapIdx fun i => settled l (i + k) := by
  refine List.ext_getElem? fun i => ?_
  simp [settle, Nat.add_comm]

theorem resultsOf_beforeKey (h : toolUseIndex l id = some a) :
    resultsOf id (beforeKey l a) = fixedResults id (l.take a) := by
  rw [beforeKey, resultsOf_retainNonEmpty, settle_take]
  exact resultsOf_mapIdx_settled (k := 0) h fun i hi => by
    have := List.length_take_le a l
    omega

/-! ### What is moved -/

theorem moved_of_blocks {i : ℕ} (h : toolUseIndex l id = some a) (bs : List ContentBlock) :
    (((bs.filterMap (misplacedBlock l i)).filter fun e => e.assistantIdx = a).map
      Misplaced.block).filter (ContentBlock.answers id) =
      if i = a + 1 then [] else bs.filter (ContentBlock.answers id) := by
  induction bs with
  | nil => simp
  | cons b bs ih =>
    rw [List.filterMap_cons]
    cases hb : misplacedBlock l i b with
    | none =>
      -- a block that answers the id stays only in the message behind the use
      have hstay : b.answers id = true → i = a + 1 := by
        intro hans
        by_contra hi
        rw [misplacedBlock_eq_some.2 ⟨id, a, ContentBlock.answers_iff.1 hans, h, hi, rfl⟩] at hb
        cases hb
      simp only [ih]
      by_cases hi : i = a + 1
      · simp [hi]
      · rw [if_neg hi, if_neg hi, List.filter_cons_of_neg fun hans => hi (hstay hans)]
    | some e =>
      obtain ⟨id', a', hid', ha', hi', rfl⟩ := misplacedBlock_eq_some.1 hb
      by_cases hid : id' = id
      · subst hid
        obtain rfl : a' = a := Option.some.inj (ha'.symm.trans h)
        have hans : b.answers id' = true := ContentBlock.answers_iff.2 hid'
        simpa [hans, hi'] using ih
      · have hans : ¬ b.answers id = true := fun hans =>
          hid (Option.some.inj (hid'.symm.trans (ContentBlock.answers_iff.1 hans)))
        rw [List.filter_cons_of_neg hans, ← ih]
        by_cases haa : a' = a <;> simp [haa, hans]

theorem moved_of_zipIdx {L : List Message} {k : ℕ} (hk : ∀ i < L.length, k + i ≠ a + 1) :
    ((L.zipIdx k).flatMap fun e =>
      if e.1.role = .user then if e.2 = a + 1 then [] else e.1.resultsFor id else []) =
      userResults id L := by
  induction L generalizing k with
  | nil => rfl
  | cons m L ih =>
    have h0 : k ≠ a + 1 := hk 0 (by simp)
    have ih := ih (k := k + 1) fun i hi => by
      have := hk (i + 1) (by simpa using hi)
      omega
    rw [List.zipIdx_cons, List.flatMap_cons, ih, userResults_cons]
    simp only [if_neg h0]

theorem moved_eq (h : toolUseIndex l id = some a) :
    (insertionsFor (misplaced l) a).filter (ContentBlock.answers id) =
      userResults id (l.take (a + 1)) ++ userResults id (l.drop (a + 2)) := by
  have hper : (insertionsFor (misplaced l) a).filter (ContentBlock.answers id) =
      l.zipIdx.flatMap fun e =>
        if e.1.role = .user then if e.2 = a + 1 then [] else e.1.resultsFor id else [] := by
    rw [insertionsFor, misplaced, List.filter_flatMap, List.map_flatMap, List.filter_flatMap]
    refine List.flatMap_congr fun e _ => ?_
    obtain ⟨m, i⟩ := e
    by_cases hr : m.role = .user
    · simpa [hr, Message.resultsFor] using moved_of_blocks h m.blocks
    · simp [hr]
  have hlt : a < l.length := by
    obtain ⟨A, u, B, rfl, rfl, -, -⟩ := toolUseIndex_eq_some h
    simp
  have hsplit : l = l.take (a + 1) ++ l.drop (a + 1) := (List.take_append_drop _ _).symm
  have htail : l.drop (a + 2) = (l.drop (a + 1)).drop 1 := by rw [List.drop_drop]
  have hlen : (l.take (a + 1)).length = a + 1 := by simp; omega
  rw [hper, htail]
  conv_lhs => rw [hsplit]
  rw [List.zipIdx_append, List.flatMap_append, moved_of_zipIdx fun i hi => by omega, hlen]
  cases l.drop (a + 1) with
  | nil => rfl
  | cons n B =>
    rw [List.zipIdx_cons, List.flatMap_cons, moved_of_zipIdx fun i _ => by omega]
    simp

/-! ### Where it goes -/

theorem resultsOf_attach_behindKey (h : toolUseIndex l id = some a) (bs : List ContentBlock) :
    resultsOf id (attach bs (behindKey l a)) =
      userResults id ((l.drop (a + 1)).take 1) ++ bs.filter (ContentBlock.answers id) ++
        fixedResults id ((l.drop (a + 1)).take 1) ++ fixedResults id (l.drop (a + 2)) := by
  have htail : l.drop (a + 2) = (l.drop (a + 1)).drop 1 := by rw [List.drop_drop]
  rw [behindKey, settle_drop, htail]
  cases l.drop (a + 1) with
  | nil => simp [retainNonEmpty, attach, Message.resultsFor]
  | cons n rest =>
    have hk : ∀ i < rest.length, i + (a + 2) ≠ a + 1 := fun i _ => by omega
    have hmap : (n :: rest).mapIdx (fun i => settled l (i + (a + 1))) =
        settled l (a + 1) n :: rest.mapIdx fun i => settled l (i + (a + 2)) := by
      rw [List.mapIdx_cons]
      simp only [Nat.zero_add, Nat.add_assoc, Nat.add_comm 1]
    have hn : (settled l (a + 1) n).resultsFor id = n.resultsFor id :=
      settled_resultsFor_of_eq (fun b hb => by rw [h] at hb; rw [Option.some.inj hb]) n
    have hrest := resultsOf_mapIdx_settled h hk
    have hno : ∀ m ∈ retainNonEmpty (rest.mapIdx fun i => settled l (i + (a + 2))),
        m.role = .user → m.resultsFor id = [] := fun m hm =>
      user_of_mapIdx_settled h hk m (List.mem_of_mem_filter hm)
    rw [hmap]
    simp only [List.take_succ_cons, List.take_zero, List.drop_succ_cons, List.drop_zero,
      userResults_cons, fixedResults_cons, userResults_nil, fixedResults_nil, List.append_nil]
    cases he : (settled l (a + 1) n).content.isEmpty with
    | true =>
      have hnil : n.resultsFor id = [] := by rw [← hn]; exact resultsFor_of_isEmpty he id
      rw [retainNonEmpty, List.filter_cons_of_neg (by simp [he]), ← retainNonEmpty,
        resultsOf_attach_of_no_user hno, resultsOf_retainNonEmpty, hrest]
      simp [hnil]
    | false =>
      rw [retainNonEmpty, List.filter_cons_of_pos (by simp [he]), ← retainNonEmpty]
      by_cases hr : n.role = .user
      · rw [attach_user (by rw [settled_role, hr]), resultsOf_cons, resultsOf_retainNonEmpty,
          hrest]
        rw [Message.resultsFor] at hn
        simp [Message.resultsFor, hn, hr]
      · rw [attach_not_user (by rwa [settled_role]), resultsOf_cons, resultsOf_cons,
          resultsOf_retainNonEmpty, hrest, hn]
        simp [Message.resultsFor, hr]

theorem resultsOf_settle_of_none (h : toolUseIndex l id = none) :
    resultsOf id (settle l) = resultsOf id l :=
  flatMap_mapIdx_of_eq
    (fun _ m => settled_resultsFor_of_eq (fun a ha => by rw [h] at ha; cases ha) m) l

theorem not_answers_of_key (h : toolUseIndex l id ≠ some a) :
    ∀ b ∈ insertionsFor (misplaced l) a, b.answers id = false := by
  intro b hb
  rw [← Bool.not_eq_true, ContentBlock.answers_iff]
  intro hbid
  obtain ⟨id', hid', hidx⟩ := insertionsFor_spec hb
  obtain rfl : id' = id := Option.some.inj (hid'.symm.trans hbid)
  exact h hidx

theorem insertionsFor_of_not_key (ha : a ∉ reorderKeys l) :
    insertionsFor (misplaced l) a = [] := by
  rw [List.eq_nil_iff_forall_not_mem]
  intro b hb
  obtain ⟨e, he, hea, -⟩ := mem_insertionsFor.1 hb
  exact ha (mem_reorderKeys.2 ⟨e, he, hea⟩)

theorem resultsOf_target {u : Message} (h : toolUseIndex l id = some a) (hu : l[a]? = some u)
    (hur : u.role = .assistant) :
    resultsOf id (beforeKey l a ++ u :: attach (insertionsFor (misplaced l) a) (behindKey l a)) =
      repairOrder l id := by
  have htake : l.take (a + 1) = l.take a ++ [u] := by
    rw [List.take_add_one, hu]
    rfl
  have hfixed : fixedResults id (l.take (a + 1)) =
      fixedResults id (l.take a) ++ u.resultsFor id := by
    rw [htake, fixedResults_append, fixedResults_cons]
    simp [hur]
  rw [resultsOf_append, resultsOf_cons, resultsOf_beforeKey h, resultsOf_attach_behindKey h,
    moved_eq h, repairOrder, h]
  simp only [hfixed, List.append_assoc]

/-- The message of a key stands in front of every later key. -/
theorem beforeKey_of_lt {c : ℕ} {u : Message} (h : toolUseIndex l id = some a)
    (hu : l[a]? = some u) (hac : a < c) : ∃ Y, beforeKey l c = beforeKey l a ++ u :: Y := by
  obtain ⟨u', hu', hr, hid, -⟩ := afterRemoval_split h
  obtain rfl : u' = u := Option.some.inj (hu'.symm.trans hu)
  have hset : (settle l)[a]? = some u' := by
    rw [settle, List.getElem?_mapIdx, hu, Option.map_some,
      settled_of_not_user (by rw [hr]; decide)]
  have hget : ((settle l).take c)[a]? = some u' := by rw [List.getElem?_take, if_pos hac, hset]
  obtain ⟨Y, hY⟩ : ∃ Y, (settle l).take c = (settle l).take a ++ u' :: Y := by
    obtain ⟨hlt, heq⟩ := List.getElem?_eq_some_iff.1 hget
    have htake : (settle l).take a = ((settle l).take c).take a := by
      rw [List.take_take, min_eq_left hac.le]
    refine ⟨((settle l).take c).drop (a + 1), ?_⟩
    rw [htake, ← heq, ← List.drop_eq_getElem_cons hlt, List.take_append_drop]
  refine ⟨retainNonEmpty Y, ?_⟩
  rw [beforeKey, hY, retainNonEmpty_append, retainNonEmpty_cons_of_useIds hid, ← beforeKey]

/-- A round for another id, behind a message that is not the user's, is not seen by `attach`. -/
theorem resultsOf_attach_frame {bs : List ContentBlock} {m : Message} (hr : m.role ≠ .user)
    (hbs : ∀ b ∈ bs, b.answers id = false) (Y R : List Message) (cs : List ContentBlock) :
    resultsOf id (attach cs (Y ++ m :: attach bs R)) = resultsOf id (attach cs (Y ++ m :: R)) := by
  cases Y with
  | nil => simp [attach_not_user hr, resultsOf_attach_of_not hbs]
  | cons y Y =>
    by_cases hy : y.role = .user
    · simp [attach_user hy, resultsOf_attach_of_not hbs]
    · simp [attach_not_user hy, resultsOf_attach_of_not hbs]

/-- **The reordering pass leaves the results of an id in `repairOrder`.** -/
theorem resultsOf_reorder (hne : NoEmpty l) (id : String) :
    resultsOf id (reorderToolResults l).1 = repairOrder l id := by
  cases h : toolUseIndex l id with
  | none =>
    -- no use, so no result of the id moves
    rw [repairOrder, h]
    refine reorder_induction (P := fun _ l' => resultsOf id l' = resultsOf id l) hne ?_ ?_
    · rw [afterRemoval, resultsOf_retainNonEmpty, resultsOf_settle_of_none h]
    · intro a ks m R _ _ _ _ _ hP
      rw [← hP]
      have hkey : toolUseIndex l id ≠ some a := by simp [h]
      simp [resultsOf_attach_of_not (not_answers_of_key hkey)]
  | some a =>
    obtain ⟨u, hu, hur, -, hsplit⟩ := afterRemoval_split h
    rw [← resultsOf_target h hu hur]
    -- while `a` is to come, what follows its message differs from the start only in other ids
    refine (reorder_induction (P := fun ks l' =>
      (a ∈ ks → ∃ R, l' = beforeKey l a ++ u :: R ∧
        ∀ bs, resultsOf id (attach bs R) = resultsOf id (attach bs (behindKey l a))) ∧
      (a ∉ ks → resultsOf id l' = resultsOf id (beforeKey l a ++ u ::
        attach (insertionsFor (misplaced l) a) (behindKey l a)))) hne ⟨?_, ?_⟩ ?_).2 (by simp)
    · exact fun _ => ⟨_, hsplit, fun _ => rfl⟩
    · intro ha
      rw [hsplit]
      simp [insertionsFor_of_not_key ha, resultsOf_attach_of_not]
    · intro c ks m R hsuf hm hr _ hl₀ hinv
      obtain ⟨hin, hout⟩ := hinv
      have hpair := (descendingKeys_pairwise _).sublist hsuf.sublist
      by_cases hca : c = a
      · -- the round of `a` itself
        subst hca
        obtain ⟨R', heq, hall⟩ := hin List.mem_cons_self
        obtain ⟨rfl, rfl⟩ := List.cons.inj (List.append_cancel_left heq)
        refine ⟨fun hmem => absurd (List.rel_of_pairwise_cons hpair hmem) (lt_irrefl _),
          fun _ => ?_⟩
        simp [hall]
      · have hbs := not_answers_of_key (a := c) fun hc => hca (Option.some.inj (hc.symm.trans h))
        have hmr : m.role ≠ .user := by rw [hr]; decide
        refine ⟨fun hmem => ?_, fun hmem => ?_⟩
        · -- a later key: its message stands behind that of `a`
          obtain ⟨R', heq, hall⟩ := hin (List.mem_cons_of_mem c hmem)
          have hlt : a < c := List.rel_of_pairwise_cons hpair hmem
          obtain ⟨Y, hbefore⟩ := beforeKey_of_lt h hu hlt
          obtain rfl : Y ++ m :: R = R' := by
            rw [hbefore, List.append_assoc] at heq
            exact (List.cons.inj (List.append_cancel_left heq)).2
          refine ⟨Y ++ m :: attach (insertionsFor (misplaced l) c) R, by rw [hbefore]; simp,
            fun cs => ?_⟩
          rw [resultsOf_attach_frame hmr hbs, hall]
        · rw [← hout fun hmem' => (List.mem_cons.1 hmem').elim (fun e => hca e.symm) hmem]
          simp [resultsOf_attach_of_not hbs]

end SessionRepair
end RustyHand
