import Mathlib.Data.List.Dedup
import Mathlib.Data.List.Sort

/-!
# Edits at positions in descending order

A list is edited at several remembered positions, from the last to the first, so that the positions
still to come stay valid.

* `DescendingInsert`: the order of the work, and insertions behind the positions;
* `DescendingErase`: the positions are removed.
-/

/-!
## Inserting behind positions in descending order

A common way to insert into a list at several remembered positions is to work from the last
position to the first, so that the positions still to come stay valid.  `descendingKeys` is the
order of the work, and `foldl_behind` the induction rule: when every step leaves the prefix up to
its own position alone, the step for a key finds there what the list held at the start.

`lastIndex` is the position the work is told: the last one that satisfies a predicate.
-/

namespace DescendingInsert

variable {α κ : Type*}

/-- The keys of a grouping, each once, in descending order. -/
def descendingKeys (keys : List ℕ) : List ℕ := keys.dedup.insertionSort (· ≥ ·)

@[simp] theorem mem_descendingKeys {keys : List ℕ} {a : ℕ} :
    a ∈ descendingKeys keys ↔ a ∈ keys := by
  simp [descendingKeys]

theorem descendingKeys_nodup (keys : List ℕ) : (descendingKeys keys).Nodup :=
  (List.perm_insertionSort _ _).nodup_iff.2 keys.nodup_dedup

theorem descendingKeys_pairwise (keys : List ℕ) : (descendingKeys keys).Pairwise (· > ·) := by
  have hge : (descendingKeys keys).Pairwise (· ≥ ·) := List.pairwise_insertionSort _ _
  refine hge.imp₂ (fun a b hab hne => lt_of_le_of_ne hab (Ne.symm hne)) ?_
  exact descendingKeys_nodup keys

theorem insertIdx_append_self (xs ys : List α) (x : α) :
    (xs ++ ys).insertIdx xs.length x = xs ++ x :: ys := by
  induction xs with
  | nil => simp
  | cons y xs ih => simp [ih]

/-- **Induction along a descending insertion loop.**  `P ks l` speaks of the keys still to come
and the current list; each step may assume that the prefix up to its position is that of the
initial list. -/
theorem foldl_behind {pos : κ → ℕ} {step : List α → κ → List α} {l₀ : List α}
    {P : List κ → List α → Prop} {ks : List κ}
    (hks : ks.Pairwise fun a b => pos b ≤ pos a) (h0 : P ks l₀)
    (hstep : ∀ a ks' l, (a :: ks') <:+ ks → l.take (pos a + 1) = l₀.take (pos a + 1) →
      P (a :: ks') l →
        (step l a).take (pos a + 1) = l.take (pos a + 1) ∧ P ks' (step l a)) :
    P [] (ks.foldl step l₀) := by
  -- the invariant: every key still to come sees the initial prefix
  suffices h : ∀ ks' l, ks' <:+ ks → (∀ a ∈ ks', l.take (pos a + 1) = l₀.take (pos a + 1)) →
      P ks' l → P [] (ks'.foldl step l) from
    h ks l₀ List.suffix_rfl (fun _ _ => rfl) h0
  intro ks'
  induction ks' with
  | nil => intro l _ _ hP; exact hP
  | cons a ks' ih =>
    intro l hsuf hpre hP
    obtain ⟨htake, hP'⟩ := hstep a ks' l hsuf (hpre a List.mem_cons_self) hP
    refine ih (step l a) (List.IsSuffix.trans (List.suffix_cons a ks') hsuf) (fun b hb => ?_) hP'
    have hba : pos b ≤ pos a :=
      List.rel_of_pairwise_cons (hks.sublist hsuf.sublist) hb
    have hcut : ∀ m : List α, m.take (pos b + 1) = (m.take (pos a + 1)).take (pos b + 1) := by
      intro m
      rw [List.take_take, min_eq_left (by omega)]
    rw [hcut, htake, ← hcut]
    exact hpre b (List.mem_cons_of_mem a hb)

/-! ### The last index -/

/-- The index of the last element satisfying `p`. -/
def lastIndex (p : α → Bool) : List α → Option ℕ
  | [] => none
  | x :: xs =>
    match lastIndex p xs with
    | some i => some (i + 1)
    | none => if p x then some 0 else none

theorem lastIndex_eq_none {p : α → Bool} {l : List α} :
    lastIndex p l = none ↔ ∀ x ∈ l, p x = false := by
  induction l with
  | nil => simp [lastIndex]
  | cons x xs ih =>
    cases h : lastIndex p xs with
    | none =>
      have hxs := ih.1 h
      cases hx : p x with
      | true => simp [lastIndex, h, hx]
      | false => simpa [lastIndex, h, hx] using hxs
    | some i =>
      have hne : ¬ ∀ x ∈ xs, p x = false := fun hall => by rw [ih.2 hall] at h; cases h
      simp only [lastIndex, h, List.mem_cons, forall_eq_or_imp]
      constructor
      · intro h'; cases h'
      · intro h'; exact absurd h'.2 hne

theorem lastIndex_append_cons {p : α → Bool} {xs ys : List α} {y : α} (hy : p y = true)
    (hys : ∀ z ∈ ys, p z = false) : lastIndex p (xs ++ y :: ys) = some xs.length := by
  induction xs with
  | nil => simp [lastIndex, lastIndex_eq_none.2 hys, hy]
  | cons x xs ih => simp [lastIndex, ih]

/-- The last index splits the list at an element that satisfies `p`, with none behind it. -/
theorem lastIndex_eq_some {p : α → Bool} {l : List α} {i : ℕ} (h : lastIndex p l = some i) :
    ∃ xs y ys, l = xs ++ y :: ys ∧ xs.length = i ∧ p y = true ∧ ∀ z ∈ ys, p z = false := by
  induction l generalizing i with
  | nil => simp [lastIndex] at h
  | cons x xs ih =>
    cases hxs : lastIndex p xs with
    | none =>
      cases hx : p x <;> simp only [lastIndex, hxs, hx] at h
      · cases h
      · cases h
        exact ⟨[], x, xs, rfl, rfl, hx, lastIndex_eq_none.1 hxs⟩
    | some j =>
      simp only [lastIndex, hxs, Option.some.injEq] at h
      obtain ⟨as, y, bs, rfl, hlen, hy, hbs⟩ := ih hxs
      exact ⟨x :: as, y, bs, rfl, by simp [hlen, ← h], hy, hbs⟩

theorem le_of_lastIndex_eq_some {p : α → Bool} {l : List α} {i k : ℕ} {y : α}
    (h : lastIndex p l = some i) (hk : l[k]? = some y) (hy : p y = true) : k ≤ i := by
  obtain ⟨xs, x, ys, rfl, rfl, -, hys⟩ := lastIndex_eq_some h
  by_contra hlt
  rw [List.getElem?_append_right (by omega),
    show k - xs.length = k - xs.length - 1 + 1 by omega, List.getElem?_cons_succ] at hk
  rw [hys y (List.mem_of_getElem? hk)] at hy
  cases hy

/-- The last index depends only on which elements satisfy the predicate. -/
theorem lastIndex_congr {p : α → Bool} {l l' : List α} (h : l.map p = l'.map p) :
    lastIndex p l = lastIndex p l' := by
  induction l generalizing l' with
  | nil =>
    rw [List.map_eq_nil_iff.1 h.symm]
  | cons x xs ih =>
    cases l' with
    | nil => cases h
    | cons y ys =>
      obtain ⟨hxy, hrest⟩ := List.cons.inj h
      rw [lastIndex, lastIndex, ih hrest, hxy]

end DescendingInsert

/-!
## Erasing positions in descending order

Removing several remembered positions from a list from the last to the first, so that the positions
still to come stay valid: how long the result is, and that nothing but the elements at the positions
is gone.
-/

namespace DescendingErase

open DescendingInsert

variable {α : Type*}

/-- Erase the positions, each once, the last first. -/
def eraseAll (keys : List ℕ) (l : List α) : List α := (descendingKeys keys).foldl List.eraseIdx l

/-- Positions still to come are below the one just erased. -/
theorem lt_of_descending {k : ℕ} {ks : List ℕ} {l : List α} (hks : (k :: ks).Pairwise (· > ·))
    (hk : k < l.length) : ∀ j ∈ ks, j < (l.eraseIdx k).length := by
  intro j hj
  have := List.rel_of_pairwise_cons hks hj
  rw [List.length_eraseIdx_of_lt hk]
  omega

theorem length_foldl_eraseIdx {ks : List ℕ} {l : List α} (hks : ks.Pairwise (· > ·))
    (hlt : ∀ k ∈ ks, k < l.length) : (ks.foldl List.eraseIdx l).length + ks.length = l.length := by
  induction ks generalizing l with
  | nil => rfl
  | cons k ks ih =>
    have hk := hlt k List.mem_cons_self
    have := ih hks.of_cons (lt_of_descending hks hk)
    rw [List.length_eraseIdx_of_lt hk] at this
    rw [List.foldl_cons, List.length_cons]
    omega

/-- Every element is kept, or stands at an erased position. -/
theorem mem_foldl_eraseIdx {ks : List ℕ} {l : List α} {x : α} (hks : ks.Pairwise (· > ·))
    (hx : x ∈ l) : x ∈ ks.foldl List.eraseIdx l ∨ ∃ k ∈ ks, l[k]? = some x := by
  induction ks generalizing l with
  | nil => exact Or.inl hx
  | cons k ks ih =>
    obtain ⟨i, hi, rfl⟩ := List.getElem_of_mem hx
    by_cases hik : i = k
    · subst hik
      exact Or.inr ⟨i, List.mem_cons_self, List.getElem?_eq_getElem hi⟩
    · have hmem : l[i] ∈ l.eraseIdx k := List.mem_eraseIdx_iff_getElem.2 ⟨i, hi, hik, rfl⟩
      rcases ih hks.of_cons hmem with h | ⟨j, hj, hget⟩
      · exact Or.inl h
      · have hjk : j < k := List.rel_of_pairwise_cons hks hj
        rw [List.getElem?_eraseIdx_of_lt hjk] at hget
        exact Or.inr ⟨j, List.mem_cons_of_mem k hj, hget⟩

/-- **Induction along the erasing loop.**  What survives the erasure of any one element that
satisfies `q` survives the erasure of all, if these satisfy `q` in the list at the start. -/
theorem foldl_eraseIdx_induction {P : List α → Prop} {q : α → Prop} {ks : List ℕ} {l : List α}
    (hks : ks.Pairwise (· > ·)) (h0 : P l) (hq : ∀ k ∈ ks, ∀ x, l[k]? = some x → q x)
    (hstep : ∀ (l' : List α) k x, l'[k]? = some x → q x → P l' → P (l'.eraseIdx k)) :
    P (ks.foldl List.eraseIdx l) := by
  induction ks generalizing l with
  | nil => exact h0
  | cons k ks ih =>
    refine ih hks.of_cons ?_ fun j hj x hx => ?_
    · cases hk : l[k]? with
      | none => rwa [List.eraseIdx_of_length_le (List.getElem?_eq_none_iff.1 hk)]
      | some x => exact hstep l k x hk (hq k List.mem_cons_self x hk) h0
    · -- a position still to come holds what it held at the start
      rw [List.getElem?_eraseIdx_of_lt (List.rel_of_pairwise_cons hks hj)] at hx
      exact hq j (List.mem_cons_of_mem k hj) x hx

variable {keys : List ℕ} {l : List α}

theorem eraseAll_induction {P : List α → Prop} {q : α → Prop} (h0 : P l)
    (hq : ∀ k ∈ keys, ∀ x, l[k]? = some x → q x)
    (hstep : ∀ (l' : List α) k x, l'[k]? = some x → q x → P l' → P (l'.eraseIdx k)) :
    P (eraseAll keys l) :=
  foldl_eraseIdx_induction (descendingKeys_pairwise keys) h0
    (fun k hk => hq k (mem_descendingKeys.1 hk)) hstep

theorem length_eraseAll (hlt : ∀ k ∈ keys, k < l.length) :
    (eraseAll keys l).length + (descendingKeys keys).length = l.length :=
  length_foldl_eraseIdx (descendingKeys_pairwise keys)
    fun k hk => hlt k (mem_descendingKeys.1 hk)

theorem mem_eraseAll {x : α} (hx : x ∈ l) :
    x ∈ eraseAll keys l ∨ ∃ k ∈ keys, l[k]? = some x := by
  rcases mem_foldl_eraseIdx (descendingKeys_pairwise keys) hx with h | ⟨k, hk, hget⟩
  · exact Or.inl h
  · exact Or.inr ⟨k, mem_descendingKeys.1 hk, hget⟩

theorem descendingKeys_eq_nil_iff : descendingKeys keys = [] ↔ keys = [] := by
  rw [List.eq_nil_iff_forall_not_mem, List.eq_nil_iff_forall_not_mem]
  simp only [mem_descendingKeys]

/-! ### What is kept -/

/-- The elements at the positions, counted from `n`, that the predicate picks. -/
def retain (p : ℕ → Bool) : ℕ → List α → List α
  | _, [] => []
  | n, x :: l => if p n then x :: retain p (n + 1) l else retain p (n + 1) l

theorem retain_cons (p : ℕ → Bool) (n : ℕ) (x : α) (l : List α) :
    retain p n (x :: l) = if p n then x :: retain p (n + 1) l else retain p (n + 1) l := rfl

theorem retain_congr {p q : ℕ → Bool} {n : ℕ} {l : List α}
    (h : ∀ k, n ≤ k → k < n + l.length → p k = q k) : retain p n l = retain q n l := by
  induction l generalizing n with
  | nil => rfl
  | cons x l ih =>
    rw [List.length_cons] at h
    rw [retain_cons, retain_cons, h n le_rfl (by omega),
      ih fun k hk hlt => h k (by omega) (by omega)]

theorem retain_all {p : ℕ → Bool} {n : ℕ} {l : List α}
    (h : ∀ k, n ≤ k → k < n + l.length → p k = true) : retain p n l = l := by
  induction l generalizing n with
  | nil => rfl
  | cons x l ih =>
    rw [List.length_cons] at h
    rw [retain_cons, h n le_rfl (by omega), if_pos rfl,
      ih fun k hk hlt => h k (by omega) (by omega)]

theorem retain_append (p : ℕ → Bool) (n : ℕ) (l l' : List α) :
    retain p n (l ++ l') = retain p n l ++ retain p (n + l.length) l' := by
  induction l generalizing n with
  | nil => rfl
  | cons x l ih =>
    have hlength : n + (x :: l).length = n + 1 + l.length := by
      rw [List.length_cons]
      omega
    rw [List.cons_append, retain_cons, retain_cons, ih, hlength]
    split_ifs <;> rfl

/-- To erase a position in front of which others may still go is to keep one position less. -/
theorem retain_eraseIdx {p : ℕ → Bool} {n k : ℕ} {l : List α} (hp : ∀ j, n + k ≤ j → p j = true) :
    retain p n (l.eraseIdx k) = retain (fun j => p j && decide (j ≠ n + k)) n l := by
  induction l generalizing n k with
  | nil => rfl
  | cons x l ih =>
    cases k with
    | zero =>
      have hrest : retain (fun j => p j && decide (j ≠ n + 0)) (n + 1) l = l :=
        retain_all fun j hj _ => by simp [hp j (by omega)]; omega
      rw [List.eraseIdx_cons_zero, retain_cons, if_neg (by simp), hrest]
      exact retain_all fun j hj _ => hp j hj
    | succ k =>
      have hnext : n + (k + 1) = n + 1 + k := by omega
      have hne : n ≠ n + (k + 1) := by omega
      rw [List.eraseIdx_cons_succ, retain_cons, retain_cons, hnext,
        ih fun j hj => hp j (by omega)]
      simp only [← hnext, ne_eq, hne, not_false_eq_true, decide_true, Bool.and_true]

theorem foldl_eraseIdx_eq_retain {ks : List ℕ} (hks : ks.Pairwise (· > ·)) (l : List α) :
    ks.foldl List.eraseIdx l = retain (fun j => decide (j ∉ ks)) 0 l := by
  induction ks generalizing l with
  | nil => exact (retain_all fun _ _ _ => by simp).symm
  | cons k ks ih =>
    have habove : ∀ j, 0 + k ≤ j → decide (j ∉ ks) = true := fun j hj => by
      refine decide_eq_true fun hmem => ?_
      have := List.rel_of_pairwise_cons hks hmem
      omega
    rw [List.foldl_cons, ih hks.of_cons, retain_eraseIdx habove]
    refine retain_congr fun j _ _ => ?_
    simp [Bool.and_comm]

/-- What is not at one of the positions is kept. -/
theorem eraseAll_eq_retain (keys : List ℕ) (l : List α) :
    eraseAll keys l = retain (fun j => decide (j ∉ keys)) 0 l := by
  rw [eraseAll, foldl_eraseIdx_eq_retain (descendingKeys_pairwise keys)]
  exact retain_congr fun j _ _ => by simp

end DescendingErase
