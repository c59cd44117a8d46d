import RustyHand.Lib.Table
import Mathlib.Data.List.Count

/-!
# Inverted indexes

The ids under each key: a hash map from a key to the list of the ids that carry it, kept beside
the map from an id to what it is.

* `idsUnder`, `push`, `retain`, and `pushAll`, `retainAll` for the keys of an id;
* `Exact`: the index is the inverse of a function from ids to their keys;
* what the operations do to it, as changes of that function.
-/

namespace InvertedIndex

variable {κ ι : Type*} [DecidableEq κ]

/-- The ids under a key. -/
def idsUnder (k : κ) (index : List (κ × List ι)) : List ι :=
  ((Table.lookup Prod.fst k index).map Prod.snd).getD []

/-- An id put under a key, after those that are there. -/
def push (k : κ) (i : ι) (index : List (κ × List ι)) : List (κ × List ι) :=
  Table.upsert Prod.fst (k, idsUnder k index ++ [i]) index

/-- An id put under its keys. -/
def pushAll (keys : List κ) (i : ι) (index : List (κ × List ι)) : List (κ × List ι) :=
  keys.foldl (fun index k => push k i index) index

section

variable [DecidableEq ι]

/-- An id taken from under a key; the key stays, also with no ids. -/
def retain (k : κ) (i : ι) (index : List (κ × List ι)) : List (κ × List ι) :=
  Table.modify Prod.fst k (fun row => (row.1, row.2.filter (· ≠ i))) index

/-- An id taken from under its keys. -/
def retainAll (keys : List κ) (i : ι) (index : List (κ × List ι)) : List (κ × List ι) :=
  keys.foldl (fun index k => retain k i index) index

end

variable {k k' : κ} {i j : ι} {index : List (κ × List ι)} {keys : List κ}

theorem idsUnder_push : idsUnder k' (push k i index) =
    if k' = k then idsUnder k index ++ [i] else idsUnder k' index := by
  unfold push
  rw [idsUnder, Table.lookup_upsert]
  by_cases h : k' = k
  · simp [h]
  · simp [h, idsUnder]

theorem idsUnder_erase : idsUnder k' (Table.erase Prod.fst k index) =
    if k' = k then [] else idsUnder k' index := by
  by_cases h : k' = k
  · simp [idsUnder, h, Table.lookup_erase]
  · simp [idsUnder, h, Table.lookup_erase_of_ne]

variable [DecidableEq ι]

theorem idsUnder_retain : idsUnder k' (retain k i index) =
    if k' = k then (idsUnder k index).filter (· ≠ i) else idsUnder k' index := by
  have hkey (row : κ × List ι) : (row.1, row.2.filter (· ≠ i)).1 = row.1 := rfl
  unfold retain
  by_cases h : k' = k
  · subst h
    rw [if_pos rfl, idsUnder, Table.lookup_modify hkey, idsUnder]
    cases Table.lookup Prod.fst k' index with
    | none => rfl
    | some row => rfl
  · rw [if_neg h, idsUnder, Table.lookup_modify_of_ne hkey h, idsUnder]

theorem count_push : (idsUnder k' (push k i index)).count j =
    (idsUnder k' index).count j + if k' = k ∧ j = i then 1 else 0 := by
  rw [idsUnder_push]
  by_cases h : k' = k
  · subst h
    by_cases hj : j = i
    · simp [hj]
    · simp [hj, Ne.symm hj]
  · simp [h]

/-- Under each key an id stands as often as the key is one of its keys, besides what was there. -/
theorem count_pushAll : (idsUnder k' (pushAll keys i index)).count j =
    (idsUnder k' index).count j + if j = i then keys.count k' else 0 := by
  unfold pushAll
  induction keys generalizing index with
  | nil => simp
  | cons k keys ih =>
    rw [List.foldl_cons, ih, count_push, List.count_cons]
    by_cases hj : j = i
    · by_cases hk : k' = k
      · simp [hj, hk]
        omega
      · simp [hj, hk, Ne.symm hk]
    · simp [hj]

theorem count_retain : (idsUnder k' (retain k i index)).count j =
    if k' = k ∧ j = i then 0 else (idsUnder k' index).count j := by
  rw [idsUnder_retain]
  by_cases h : k' = k
  · subst h
    by_cases hj : j = i
    · simp [hj, List.count_eq_zero]
    · simp [hj, List.count_filter]
  · simp [h]

theorem count_retainAll : (idsUnder k' (retainAll keys i index)).count j =
    if k' ∈ keys ∧ j = i then 0 else (idsUnder k' index).count j := by
  unfold retainAll
  induction keys generalizing index with
  | nil => simp
  | cons k keys ih =>
    rw [List.foldl_cons, ih, count_retain]
    by_cases hj : j = i
    · by_cases hk : k' = k
      · simp [hj, hk]
      · simp [hj, hk]
    · simp [hj]

/-- Under each key an id stands as often as the key is one of its keys. -/
def Exact (keysOf : ι → List κ) (index : List (κ × List ι)) : Prop :=
  ∀ i k, (idsUnder k index).count i = (keysOf i).count k

variable {keysOf keysOf' : ι → List κ}

theorem Exact.nil : Exact (fun _ => []) ([] : List (κ × List ι)) := fun _ _ => rfl

theorem Exact.mem_iff (h : Exact keysOf index) : i ∈ idsUnder k index ↔ k ∈ keysOf i := by
  rw [← List.count_pos_iff, h i k, List.count_pos_iff]

/-- An id that had no keys gets its keys. -/
theorem Exact.pushAll (h : Exact keysOf index) (hold : keysOf i = [])
    (hother : ∀ j, j ≠ i → keysOf' j = keysOf j) :
    Exact keysOf' (pushAll (keysOf' i) i index) := by
  intro j k
  rw [count_pushAll, h j k]
  by_cases hj : j = i
  · simp [hj, hold]
  · simp [hj, hother j hj]

/-- An id loses its keys. -/
theorem Exact.retainAll (h : Exact keysOf index) (hnew : keysOf' i = [])
    (hother : ∀ j, j ≠ i → keysOf' j = keysOf j) :
    Exact keysOf' (retainAll (keysOf i) i index) := by
  intro j k
  rw [count_retainAll, h j k]
  by_cases hj : j = i
  · subst hj
    by_cases hk : k ∈ keysOf j
    · simp [hk, hnew]
    · simp [hk, hnew, List.count_eq_zero_of_not_mem hk]
  · simp [hj, hother j hj]

/-- A key goes, with all that stands under it. -/
theorem Exact.erase (h : Exact keysOf index) (hkeys : ∀ i, keysOf' i = (keysOf i).filter (· ≠ k)) :
    Exact keysOf' (Table.erase Prod.fst k index) := by
  intro i k'
  rw [idsUnder_erase, hkeys i]
  by_cases hk : k' = k
  · rw [if_pos hk, List.count_nil, eq_comm, List.count_eq_zero]
    simp [hk]
  · rw [if_neg hk, h i k', List.count_filter (by simpa using hk)]

end InvertedIndex
