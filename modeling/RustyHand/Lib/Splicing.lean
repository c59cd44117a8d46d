import Mathlib.Algebra.Order.Group.Nat
import Mathlib.Data.List.Nodup
import Mathlib.Data.Nat.Notation

/-!
# Splices

Parts of a list that are replaced, one after the other or all at once.

* `splice`: a part is replaced; `splice_eq_splice_iff`: the place can be seen from the result, if no
  element occurs twice;
* `Edit`, `simultaneous`: parts in order, all replaced at once;
* `splice_next`: the next part, when those before it are replaced already.
-/

namespace Splicing

variable {α β : Type*}

/-- The elements from `pos` on, `count` of them, are replaced. -/
def splice (as : List α) (pos count : ℕ) (new : List α) : List α :=
  as.take pos ++ new ++ as.drop (pos + count)

/-- A part of a list, and what replaces it. -/
structure Edit (α : Type*) where
  pos : ℕ
  count : ℕ
  new : List α

/-- The same part of another list. -/
def Edit.map (f : α → β) (e : Edit α) : Edit β := ⟨e.pos, e.count, e.new.map f⟩

/-- The elements from `start` on, with all parts replaced. -/
def simultaneous (start : ℕ) : List (Edit α) → List α → List α
  | [], as => as.drop start
  | e :: es, as =>
    (as.drop start).take (e.pos - start) ++ e.new ++ simultaneous (e.pos + e.count) es as

/-- Parts of a list of `n` elements that stand in order from `start` on, without an overlap. -/
def InOrder (n : ℕ) : ℕ → List (Edit α) → Prop
  | start, [] => start ≤ n
  | start, e :: es => start ≤ e.pos ∧ e.pos + e.count ≤ n ∧ InOrder n (e.pos + e.count) es

variable {as new : List α} {p q count start : ℕ} {a : α}

theorem map_splice (f : α → β) (as : List α) (pos count : ℕ) (new : List α) :
    (splice as pos count new).map f = splice (as.map f) pos count (new.map f) := by
  simp [splice, List.map_take, List.map_drop]

theorem map_simultaneous (f : α → β) (start : ℕ) (es : List (Edit α)) (as : List α) :
    (simultaneous start es as).map f = simultaneous start (es.map (Edit.map f)) (as.map f) := by
  induction es generalizing start with
  | nil => exact List.map_drop
  | cons e es ih =>
    rw [simultaneous, List.map_append, List.map_append, ih, List.map_take, List.map_drop]
    rfl

theorem mem_splice (h : a ∈ splice as p count new) : a ∈ as ∨ a ∈ new := by
  rcases List.mem_append.1 h with h | h
  · exact (List.mem_append.1 h).imp_left List.mem_of_mem_take
  · exact .inl (List.mem_of_mem_drop h)

theorem nodup_splice (h : (as ++ new).Nodup) (p count : ℕ) : (splice as p count new).Nodup := by
  have hperm : (splice as p count new).Perm (as.take p ++ as.drop (p + count) ++ new) := by
    rw [splice, List.append_assoc, List.append_assoc]
    exact List.perm_append_comm.append_left _
  refine hperm.nodup_iff.2 (h.sublist (List.Sublist.append_right ?_ new))
  conv_rhs => rw [← List.take_append_drop p as]
  rw [← List.drop_drop]
  exact (List.drop_sublist count _).append_left _

/-- In front of the place nothing changes. -/
theorem getElem?_splice_of_lt (count : ℕ) (new : List α) (hq : q < p) (hp : p ≤ as.length) :
    (splice as p count new)[q]? = as[q]? := by
  have hlt : q < (as.take p ++ new).length := by
    rw [List.length_append, List.length_take]
    omega
  have hlt' : q < (as.take p).length := by
    rw [List.length_take]
    omega
  rw [splice, List.getElem?_append_left hlt, List.getElem?_append_left hlt',
    List.getElem?_take_of_lt hq]

/-- At the place the new elements begin. -/
theorem getElem?_splice_self (count : ℕ) (hp : p ≤ as.length) :
    (splice as p count (a :: new))[p]? = some a := by
  have hlen : (as.take p).length = p := by
    rw [List.length_take]
    omega
  rw [splice, List.append_assoc, List.getElem?_append_right hlen.le, hlen, Nat.sub_self]
  rfl

/-- What is taken out is not there. -/
theorem getElem?_splice_nil (count : ℕ) (hp : p ≤ as.length) :
    (splice as p count [])[p]? = as[p + count]? := by
  have hlen : (as.take p).length = p := by
    rw [List.length_take]
    omega
  rw [splice, List.append_nil, List.getElem?_append_right hlen.le, hlen, Nat.sub_self,
    List.getElem?_drop, Nat.add_zero]

/-- Where new elements were put in, or old ones taken out, can be seen. -/
theorem le_of_splice_eq (hnodup : (as ++ new).Nodup) (hp : p + count ≤ as.length)
    (hne : ¬ (count = 0 ∧ new = []))
    (h : splice as p count new = splice as q count new) : p ≤ q := by
  by_contra hlt
  have hget := congrArg (fun l : List α => l[q]?) h
  rw [getElem?_splice_of_lt count new (Nat.lt_of_not_le hlt) (by omega)] at hget
  cases new with
  | nil =>
    rw [getElem?_splice_nil count (by omega)] at hget
    rw [List.append_nil] at hnodup
    have hsame := (List.getElem?_inj (by omega) hnodup).1 hget
    exact hne ⟨by omega, rfl⟩
  | cons a new =>
    rw [getElem?_splice_self count (by omega)] at hget
    exact (List.nodup_append.1 hnodup).2.2 a (List.mem_of_getElem? hget) a List.mem_cons_self rfl

theorem splice_eq_splice_iff (hnodup : (as ++ new).Nodup) (hp : p + count ≤ as.length)
    (hq : q + count ≤ as.length) :
    splice as p count new = splice as q count new ↔ p = q ∨ count = 0 ∧ new = [] := by
  constructor
  · intro h
    by_cases hne : count = 0 ∧ new = []
    · exact .inr hne
    · exact .inl (Nat.le_antisymm (le_of_splice_eq hnodup hp hne h)
        (le_of_splice_eq hnodup hq hne h.symm))
  · rintro (rfl | ⟨rfl, rfl⟩)
    · rfl
    · simp [splice]

/-- The next part is replaced, behind elements that stand for those before `start`. -/
theorem splice_next (done as : List α) (hpos : start ≤ p) :
    splice (done ++ as.drop start) (done.length + (p - start)) count new =
      done ++ (as.drop start).take (p - start) ++ new ++ as.drop (p + count) := by
  rw [splice, List.take_length_add_append, Nat.add_assoc, List.drop_append, List.drop_drop]
  have hdone : done.drop (done.length + (p - start + count)) = [] :=
    List.drop_of_length_le (Nat.le_add_right _ _)
  rw [hdone, List.nil_append, Nat.add_sub_cancel_left,
    show start + (p - start + count) = p + count by omega]

end Splicing
