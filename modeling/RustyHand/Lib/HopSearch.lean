import Mathlib.Data.Nat.Notation

/-!
# Search hop by hop

Items that are reached from first ones over a relation, and a search that finds them in the order of
their distance.

* `Walk`, `Within`: an item is reached in so many hops, or in at most so many;
* `Within.mono`: what is reached over another relation;
* `Explored`: what a search has found after some hops, and from which items it still has to go on;
* `Explored.next`: one hop more; `Explored.done`: there is nothing left to go on from.
-/

namespace HopSearch

variable {ε : Type*}

/-- An item that is reached in some hops. -/
inductive Walk (first : ε → Prop) (follows : ε → ε → Prop) : ℕ → ε → Prop
  | first {e : ε} : first e → Walk first follows 1 e
  | next {n : ℕ} {e f : ε} : Walk first follows n e → follows e f → Walk first follows (n + 1) f

/-- An item that is reached in at most so many hops. -/
def Within (first : ε → Prop) (follows : ε → ε → Prop) (n : ℕ) (e : ε) : Prop :=
  ∃ k ≤ n, Walk first follows k e

variable {first first' : ε → Prop} {follows follows' : ε → ε → Prop} {n m : ℕ} {e f : ε}

theorem Walk.pos (h : Walk first follows n e) : 0 < n := by
  cases h with
  | first => exact Nat.one_pos
  | next => exact Nat.succ_pos _

theorem not_within_zero : ¬ Within first follows 0 e := by
  rintro ⟨k, hk, h⟩
  exact Nat.not_lt.2 hk h.pos

theorem within_one : Within first follows 1 e ↔ first e := by
  constructor
  · rintro ⟨k, hk, h⟩
    cases h with
    | first h => exact h
    | next h => exact absurd (Nat.le_of_succ_le_succ hk) (Nat.not_le.2 h.pos)
  · exact fun h => ⟨1, Nat.le_refl 1, .first h⟩

theorem Within.le (h : Within first follows n e) (hle : n ≤ m) : Within first follows m e := by
  obtain ⟨k, hk, h⟩ := h
  exact ⟨k, Nat.le_trans hk hle, h⟩

theorem Within.next (h : Within first follows n e) (hf : follows e f) :
    Within first follows (n + 1) f := by
  obtain ⟨k, hk, h⟩ := h
  exact ⟨k + 1, Nat.succ_le_succ hk, h.next hf⟩

/-- An item is a first one, or follows one of a hop less. -/
theorem within_succ : Within first follows (n + 1) e ↔
    first e ∨ ∃ d, Within first follows n d ∧ follows d e := by
  constructor
  · rintro ⟨k, hk, h⟩
    cases h with
    | first h => exact .inl h
    | next h hf => exact .inr ⟨_, ⟨_, Nat.le_of_succ_le_succ hk, h⟩, hf⟩
  · rintro (h | ⟨d, h, hf⟩)
    · exact ⟨1, Nat.succ_le_succ (Nat.zero_le n), .first h⟩
    · exact h.next hf

theorem Within.last (h : Within first follows n e) : first e ∨ ∃ d, follows d e := by
  obtain ⟨k, -, h⟩ := h
  cases h with
  | first h => exact .inl h
  | next _ hf => exact .inr ⟨_, hf⟩

/-- What is reached over a relation is reached over another one in as many hops, if this is so for
each hop. -/
theorem Walk.within (hfirst : ∀ e, first e → first' e)
    (hfollows : ∀ k < m, ∀ e f, Within first' follows' k e → follows e f →
      Within first' follows' (k + 1) f)
    (h : Walk first follows n e) (hn : n ≤ m) : Within first' follows' n e := by
  induction h with
  | first h => exact within_one.2 (hfirst _ h)
  | next _ hf ih => exact hfollows _ hn _ _ (ih (Nat.le_of_succ_le hn)) hf

theorem Within.mono (hfirst : ∀ e, first e → first' e)
    (hfollows : ∀ k < n, ∀ e f, Within first' follows' k e → follows e f →
      Within first' follows' (k + 1) f)
    (h : Within first follows n e) : Within first' follows' n e := by
  obtain ⟨k, hk, h⟩ := h
  exact (h.within hfirst hfollows hk).le hk

/-- After some hops: what is found is reached, all that is reached is found, and what follows an
item is found too, if it is not one to go on from. -/
structure Explored (first : ε → Prop) (follows : ε → ε → Prop) (n : ℕ) (found waiting : ε → Prop) :
    Prop where
  pos : 0 < n
  found_iff : ∀ e, found e ↔ Within first follows n e
  closed : ∀ e, found e → waiting e ∨ ∀ f, follows e f → found f

variable {found found' waiting waiting' : ε → Prop}

theorem explored_one (hfound : ∀ e, found e ↔ first e) (hwaiting : ∀ e, found e → waiting e) :
    Explored first follows 1 found waiting :=
  ⟨Nat.one_pos, fun e => (hfound e).trans within_one.symm, fun e h => .inl (hwaiting e h)⟩

/-- One hop: what follows an item to go on from is found, and nothing else. -/
theorem Explored.next (h : Explored first follows n found waiting)
    (hkept : ∀ e, found e → found' e)
    (hnew : ∀ e, found' e → found e ∨ waiting' e ∧ ∃ d, found d ∧ follows d e)
    (hwaiting : ∀ e f, found e → waiting e → follows e f → found' f) :
    Explored first follows (n + 1) found' waiting' := by
  have hclosed : ∀ e f, found e → follows e f → found' f := by
    intro e f he hf
    rcases h.closed e he with hw | hall
    · exact hwaiting e f he hw hf
    · exact hkept f (hall f hf)
  refine ⟨Nat.succ_pos n, fun e => ⟨fun he => ?_, fun he => ?_⟩, fun e he => ?_⟩
  · rcases hnew e he with he | ⟨-, d, hd, hf⟩
    · exact ((h.found_iff e).1 he).le (Nat.le_succ n)
    · exact ((h.found_iff d).1 hd).next hf
  · rcases within_succ.1 he with hfirst | ⟨d, hd, hf⟩
    · exact hkept e ((h.found_iff e).2 ((within_one.2 hfirst).le h.pos))
    · exact hclosed d e ((h.found_iff d).2 hd) hf
  · rcases hnew e he with he | ⟨hw, -⟩
    · exact .inr fun f => hclosed e f he
    · exact .inl hw

/-- With nothing to go on from, all is found. -/
theorem Explored.done (h : Explored first follows n found waiting) (hnone : ∀ e, ¬ waiting e)
    (hle : n ≤ m) (e : ε) : found e ↔ Within first follows m e := by
  refine ⟨fun he => ((h.found_iff e).1 he).le hle, ?_⟩
  rintro ⟨k, -, hwalk⟩
  induction hwalk with
  | first hfirst => exact (h.found_iff _).2 ((within_one.2 hfirst).le h.pos)
  | next _ hf ih => exact (h.closed _ ih).resolve_left (hnone _) _ hf

end HopSearch
