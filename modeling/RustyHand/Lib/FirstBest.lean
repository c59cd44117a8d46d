import Mathlib.Data.List.Basic

/-!
# The first of the best

In a list that is sorted from the highest rank down, by a sort that keeps the order of equals, the
first element that fits is the earliest of those that rank highest.

* `FirstBest`: the earliest of the elements that fit and rank highest;
* `find?_sort_eq_some_iff`, `findSome?_sort_eq_some_iff`.
-/

namespace Ranking

variable {α β : Type*} (rank : α → ℕ) (p : α → Bool)

/-- The earliest of the elements of a list that fit and rank highest. -/
def FirstBest (xs : List α) (x : α) : Prop :=
  ∃ before after, xs = before ++ x :: after ∧ p x = true ∧
    (∀ y ∈ before, p y = true → rank y < rank x) ∧ ∀ y ∈ after, p y = true → rank y ≤ rank x

variable {rank p} {xs : List α} {a x : α}

theorem FirstBest.mem (h : FirstBest rank p xs x) : x ∈ xs := by
  obtain ⟨before, after, rfl, -⟩ := h
  simp

theorem FirstBest.fits (h : FirstBest rank p xs x) : p x = true := by
  obtain ⟨before, after, -, hx, -⟩ := h
  exact hx

theorem FirstBest.congr {q : α → Bool} (h : FirstBest rank p xs x) (hpq : ∀ y ∈ xs, p y = q y) :
    FirstBest rank q xs x := by
  obtain ⟨before, after, rfl, hx, hbefore, hafter⟩ := h
  refine ⟨before, after, rfl, ?_, fun y hy hq => hbefore y hy ?_, fun y hy hq => hafter y hy ?_⟩
  · rw [← hpq x (by simp), hx]
  · rw [hpq y (by simp [hy]), hq]
  · rw [hpq y (by simp [hy]), hq]

theorem firstBest_cons : FirstBest rank p (a :: xs) x ↔
    (x = a ∧ p a = true ∧ ∀ y ∈ xs, p y = true → rank y ≤ rank a) ∨
      FirstBest rank p xs x ∧ (p a = true → rank a < rank x) := by
  constructor
  · rintro ⟨before, after, hxs, hx, hbefore, hafter⟩
    cases before with
    | nil =>
      obtain ⟨rfl, rfl⟩ := List.cons.inj hxs
      exact Or.inl ⟨rfl, hx, hafter⟩
    | cons b before =>
      obtain ⟨rfl, rfl⟩ := List.cons.inj hxs
      exact Or.inr ⟨⟨before, after, rfl, hx, fun y hy => hbefore y (List.mem_cons_of_mem _ hy),
        hafter⟩, hbefore a List.mem_cons_self⟩
  · rintro (⟨rfl, hx, hafter⟩ | ⟨⟨before, after, rfl, hx, hbefore, hafter⟩, ha⟩)
    · exact ⟨[], xs, rfl, hx, by simp, hafter⟩
    · refine ⟨a :: before, after, rfl, hx, fun y hy => ?_, hafter⟩
      rcases List.mem_cons.1 hy with rfl | hy
      · exact ha
      · exact hbefore y hy

/-- The order from the highest rank down. -/
def descending (rank : α → ℕ) (a b : α) : Bool := rank b ≤ rank a

theorem descending_trans (rank : α → ℕ) (a b c : α) (hab : descending rank a b)
    (hbc : descending rank b c) : descending rank a c := by
  simp only [descending, decide_eq_true_eq] at *
  omega

theorem descending_total (rank : α → ℕ) (a b : α) : descending rank a b || descending rank b a := by
  simp only [descending, Bool.or_eq_true, decide_eq_true_eq]
  omega

/-- What fits first, when the list has been sorted. -/
theorem find?_sort_eq_some_iff :
    (xs.mergeSort (descending rank)).find? p = some x ↔ FirstBest rank p xs x := by
  induction xs generalizing x with
  | nil => simp [FirstBest]
  | cons a xs ih =>
    obtain ⟨l₁, l₂, hcons, hxs, hhigher⟩ :=
      List.mergeSort_cons (descending_trans rank) (descending_total rank) a xs
    have hlower : ∀ y ∈ l₂, rank y ≤ rank a := by
      have hsorted := List.pairwise_mergeSort (descending_trans rank) (descending_total rank)
        (a :: xs)
      rw [hcons, List.pairwise_append] at hsorted
      intro y hy
      simpa [descending] using (List.pairwise_cons.1 hsorted.2.1).1 y hy
    have hmem : ∀ y, y ∈ xs ↔ y ∈ l₁ ∨ y ∈ l₂ := fun y => by
      rw [← List.mem_append, ← hxs, List.mem_mergeSort]
    rw [hxs, List.find?_append] at ih
    rw [hcons, List.find?_append, List.find?_cons, firstBest_cons, ← ih]
    cases hfirst : l₁.find? p with
    | some y =>
      -- what ranks higher than the new element and fits, is still found
      have hy := List.mem_of_find?_eq_some hfirst
      have hrank : rank a < rank y := by simpa [descending] using hhigher y hy
      simp only [Option.some_or, Option.some.injEq]
      constructor
      · rintro rfl
        exact Or.inr ⟨rfl, fun _ => hrank⟩
      · rintro (⟨-, -, hall⟩ | ⟨rfl, -⟩)
        · have := hall y ((hmem y).2 (Or.inl hy)) (List.find?_some hfirst)
          omega
        · rfl
    | none =>
      simp only [Option.none_or]
      cases ha : p a with
      | true =>
        simp only [Option.some.injEq, true_implies, true_and]
        constructor
        · rintro rfl
          refine Or.inl ⟨rfl, fun y hy hfits => ?_⟩
          rcases (hmem y).1 hy with hy | hy
          · exact absurd hfits (List.find?_eq_none.1 hfirst y hy)
          · exact hlower y hy
        · rintro (⟨rfl, -⟩ | ⟨hx, hrank⟩)
          · rfl
          · have := hlower x (List.mem_of_find?_eq_some hx)
            omega
      | false => simp

theorem findSome?_eq_find?_bind (f : α → Option β) (xs : List α) :
    xs.findSome? f = (xs.find? fun x => (f x).isSome).bind f := by
  induction xs with
  | nil => rfl
  | cons x xs ih =>
    rw [List.findSome?_cons, List.find?_cons]
    cases hx : f x with
    | some b => simp [hx]
    | none => simpa using ih

/-- What comes first of all the values, when the list has been sorted. -/
theorem findSome?_sort_eq_some_iff {f : α → Option β} {b : β} :
    (xs.mergeSort (descending rank)).findSome? f = some b ↔
      ∃ x, FirstBest rank (fun x => (f x).isSome) xs x ∧ f x = some b := by
  rw [findSome?_eq_find?_bind, Option.bind_eq_some_iff]
  simp only [find?_sort_eq_some_iff]

theorem findSome?_sort_eq_none_iff {f : α → Option β} :
    (xs.mergeSort (descending rank)).findSome? f = none ↔ ∀ x ∈ xs, f x = none := by
  simp [List.findSome?_eq_none_iff]

end Ranking
