import Mathlib.Data.Finset.Card
import Mathlib.Data.List.Basic
import Mathlib.Data.List.Infix
import Mathlib.Order.MinMax

/-!
# Globs

* `HolePattern`: patterns with one hole, and which of them cover others;
* `Glob`: the parts of a pattern, one after the other in a text.
-/

/-!
## Patterns with one hole

A pattern is a word, or a prefix and a suffix around a hole that any word may fill.  One pattern
covers another when every word of the second is one of the first; for patterns with a hole that is
a comparison of prefixes and suffixes (`Covers`).  Against a list of patterns the comparison stays
exact while the list has fewer members than the alphabet (`exists_covers_of_union`), since then
some letter fills the hole in a way that no member expects; beyond that, fills of bounded length
decide (`union_of_bounded`).
-/

namespace HolePattern

variable {α : Type*}

/-- A word, or a prefix and a suffix around a hole. -/
inductive Pattern (α : Type*)
  | exact (s : List α)
  | hole (a b : List α)

namespace Pattern

/-- The word `v` fits the pattern. -/
def Matches : Pattern α → List α → Prop
  | exact s, v => v = s
  | hole a b, v => a <+: v ∧ b <:+ v ∧ a.length + b.length ≤ v.length

/-- Every word of the second pattern is one of the first, read off the patterns. -/
def Covers : Pattern α → Pattern α → Prop
  | p, exact s => p.Matches s
  | exact _, hole _ _ => False
  | hole a b, hole a' b' => a <+: a' ∧ b <:+ b'

instance [DecidableEq α] : DecidableRel (Matches (α := α))
  | exact s, v => inferInstanceAs (Decidable (v = s))
  | hole a b, v => inferInstanceAs (Decidable (a <+: v ∧ b <:+ v ∧ a.length + b.length ≤ v.length))

instance [DecidableEq α] : DecidableRel (Covers (α := α))
  | exact s, exact s' => inferInstanceAs (Decidable (s' = s))
  | hole a b, exact s => inferInstanceAs (Decidable ((hole a b).Matches s))
  | exact _, hole _ _ => inferInstanceAs (Decidable False)
  | hole a b, hole a' b' => inferInstanceAs (Decidable (a <+: a' ∧ b <:+ b'))

theorem matches_hole_iff {a b v : List α} :
    (hole a b).Matches v ↔ ∃ w, v = a ++ w ++ b := by
  constructor
  · rintro ⟨⟨u, rfl⟩, hb, hlen⟩
    rw [List.length_append] at hlen
    have hbu : b <:+ u := List.suffix_of_suffix_length_le hb (List.suffix_append a u) (by omega)
    obtain ⟨w, rfl⟩ := hbu
    exact ⟨w, by simp⟩
  · rintro ⟨w, rfl⟩
    exact ⟨⟨w ++ b, by simp⟩, ⟨a ++ w, rfl⟩, by simp⟩

theorem Covers.matches {p c : Pattern α} (h : p.Covers c) {v : List α} (hv : c.Matches v) :
    p.Matches v := by
  cases c with
  | exact s =>
    obtain rfl : v = s := hv
    exact h
  | hole a' b' =>
    cases p with
    | exact s => exact h.elim
    | hole a b =>
      obtain ⟨ha, hb⟩ := h
      exact ⟨ha.trans hv.1, hb.trans hv.2.1,
        (Nat.add_le_add ha.length_le hb.length_le).trans hv.2.2⟩

theorem Covers.trans {p q r : Pattern α} (hpq : p.Covers q) (hqr : q.Covers r) : p.Covers r := by
  cases r with
  | exact s =>
    cases p <;> cases q <;> exact hpq.matches hqr
  | hole a b =>
    cases q with
    | exact s => exact hqr.elim
    | hole a' b' =>
      cases p with
      | exact s => exact hpq.elim
      | hole a'' b'' => exact ⟨hpq.1.trans hqr.1, hpq.2.trans hqr.2⟩

/-! ### Against a union -/

/-- The longest word a pattern mentions. -/
def size : Pattern α → ℕ
  | exact s => s.length
  | hole a b => max a.length b.length

/-- The only letter with which a pattern that does not cover a hole behind `a'` may go on. -/
def edge [DecidableEq α] (a' : List α) : Pattern α → Option α
  | exact _ => none
  | hole a b => if a <+: a' then b.head? else a.getLast?

theorem getLast?_of_prefix_fill {a a' b' : List α} {x : α} {n : ℕ} (hn : a.length ≤ n)
    (ha : a <+: a' ++ List.replicate n x ++ b') (hne : ¬ a <+: a') : a.getLast? = some x := by
  have ha' : a' <+: a := by
    have hpre : a' <+: a' ++ List.replicate n x ++ b' := by
      rw [List.append_assoc]
      exact List.prefix_append ..
    exact (List.prefix_or_prefix_of_prefix ha hpre).resolve_left hne
  obtain ⟨t, rfl⟩ := ha'
  rw [List.append_assoc, List.prefix_append_right_inj] at ha
  have ht : t <+: List.replicate n x := by
    refine List.prefix_of_prefix_length_le ha (List.prefix_append ..) ?_
    rw [List.length_replicate]
    rw [List.length_append] at hn
    omega
  have hall : ∀ y ∈ t, y = x := fun y hy => List.eq_of_mem_replicate (ht.subset hy)
  cases hlast : t.getLast? with
  | none =>
    rw [List.getLast?_eq_none_iff] at hlast
    simp [hlast] at hne
  | some y =>
    rw [List.getLast?_append, hlast, hall y (List.mem_of_getLast? hlast)]
    rfl

theorem head?_of_suffix_fill {a' b b' : List α} {x : α} {n : ℕ} (hn : b.length ≤ n)
    (hb : b <:+ a' ++ List.replicate n x ++ b') (hne : ¬ b <:+ b') : b.head? = some x := by
  have hfill : b.reverse <+: b'.reverse ++ List.replicate n x ++ a'.reverse := by
    have := List.reverse_prefix.2 hb
    simpa [List.append_assoc] using this
  have hlen : b.reverse.length ≤ n := by simpa using hn
  have hrev := getLast?_of_prefix_fill hlen hfill (by rwa [List.reverse_prefix])
  simpa using hrev

/-- Filled with a letter it does not expect, the hole is no word of the pattern. -/
theorem not_matches_fill [DecidableEq α] {p : Pattern α} {a' b' : List α} {x : α} {n : ℕ}
    (hp : ¬ p.Covers (hole a' b')) (hx : p.edge a' ≠ some x) (hn : p.size < n) :
    ¬ p.Matches (a' ++ List.replicate n x ++ b') := by
  intro hm
  cases p with
  | exact s =>
    have hlen := congrArg List.length (hm : a' ++ List.replicate n x ++ b' = s)
    simp only [List.length_append, List.length_replicate, size] at hlen hn
    omega
  | hole a b =>
    obtain ⟨ha, hb, -⟩ := hm
    rw [size, Nat.max_lt] at hn
    by_cases hpre : a <+: a'
    · rw [edge, if_pos hpre] at hx
      exact hx (head?_of_suffix_fill hn.2.le hb fun hsuf => hp ⟨hpre, hsuf⟩)
    · rw [edge, if_neg hpre] at hx
      exact hx (getLast?_of_prefix_fill hn.1.le ha hpre)

theorem exists_size_lt (ps : List (Pattern α)) : ∃ n, ∀ p ∈ ps, p.size < n := by
  induction ps with
  | nil => exact ⟨0, by simp⟩
  | cons p ps ih =>
    obtain ⟨n, hn⟩ := ih
    refine ⟨max (p.size + 1) n, fun q hq => ?_⟩
    rcases List.mem_cons.1 hq with rfl | hq
    · omega
    · have := hn q hq
      omega

/-- **Fewer patterns than letters cannot share the work**: if together they match every word of
`c`, one of them covers `c`. -/
theorem exists_covers_of_union [DecidableEq α] {ps : List (Pattern α)} {c : Pattern α}
    (hfresh : ∀ l : List α, l.length ≤ ps.length → ∃ x, x ∉ l)
    (h : ∀ v, c.Matches v → ∃ p ∈ ps, p.Matches v) : ∃ p ∈ ps, p.Covers c := by
  cases c with
  | exact s =>
    obtain ⟨p, hp, hm⟩ := h s rfl
    exact ⟨p, hp, hm⟩
  | hole a' b' =>
    by_contra hno
    obtain ⟨x, hx⟩ := hfresh (ps.filterMap (edge a')) (List.length_filterMap_le ..)
    obtain ⟨n, hn⟩ := exists_size_lt ps
    obtain ⟨p, hp, hm⟩ := h _ (matches_hole_iff.2 ⟨List.replicate n x, rfl⟩)
    refine not_matches_fill (fun hc => hno ⟨p, hp, hc⟩) (fun hedge => hx ?_) (hn p hp) hm
    exact List.mem_filterMap.2 ⟨p, hp, hedge⟩

/-- Fills as long as the patterns can see decide for all fills. -/
theorem union_of_bounded {ps : List (Pattern α)} {a' b' : List α} {k : ℕ}
    (hk : ∀ p ∈ ps, p.size ≤ k)
    (h : ∀ w : List α, w.length ≤ 2 * k + 1 → ∃ p ∈ ps, p.Matches (a' ++ w ++ b')) :
    ∀ v, (hole a' b').Matches v → ∃ p ∈ ps, p.Matches v := by
  intro v hv
  obtain ⟨w, rfl⟩ := matches_hole_iff.1 hv
  by_cases hlen : w.length ≤ 2 * k + 1
  · exact h w hlen
  -- a long fill looks like its first `k` and last `k + 1` letters
  have hshort : (w.take k ++ w.drop (w.length - (k + 1))).length = 2 * k + 1 := by
    simp only [List.length_append, List.length_take, List.length_drop]
    omega
  obtain ⟨p, hp, hm⟩ := h _ hshort.le
  refine ⟨p, hp, ?_⟩
  have hkp := hk p hp
  cases p with
  | exact s =>
    have := congrArg List.length (hm : _ = s)
    rw [List.length_append, List.length_append, hshort] at this
    simp only [size] at hkp
    omega
  | hole a b =>
    rw [size, Nat.max_le] at hkp
    obtain ⟨ha, hb, -⟩ := hm
    refine ⟨?_, ?_, ?_⟩
    · have hpre : a' ++ w.take k <+: a' ++ w ++ b' :=
        ((List.prefix_append_right_inj a').2 (List.take_prefix k w)).trans (List.prefix_append ..)
      have hpre' : a' ++ w.take k <+:
          a' ++ (w.take k ++ w.drop (w.length - (k + 1))) ++ b' := by
        simp only [← List.append_assoc]
        exact (List.prefix_append ..).trans (List.prefix_append ..)
      refine (List.prefix_of_prefix_length_le ha hpre' ?_).trans hpre
      simp only [List.length_append, List.length_take]
      omega
    · have hsuf : w.drop (w.length - (k + 1)) ++ b' <:+ a' ++ w ++ b' := by
        rw [List.append_assoc]
        refine List.IsSuffix.trans ?_ (List.suffix_append ..)
        obtain ⟨u, hu⟩ := List.drop_suffix (w.length - (k + 1)) w
        exact ⟨u, by rw [← List.append_assoc, hu]⟩
      have hsuf' : w.drop (w.length - (k + 1)) ++ b' <:+
          a' ++ (w.take k ++ w.drop (w.length - (k + 1))) ++ b' :=
        ⟨a' ++ w.take k, by simp⟩
      refine (List.suffix_of_suffix_length_le hb hsuf' ?_).trans hsuf
      simp only [List.length_append, List.length_drop]
      omega
    · simp only [List.length_append]
      omega

end Pattern
end HolePattern

/-!
## Globs

A pattern is a word in which one letter, the star, stands for any word.

* `Matches`: the words of a pattern;
* `Fits`, `matches_iff_fits`: the same by the segments between the stars;
* `fits_leftmost_iff`: it is enough to look for a segment where it stands first;
* `matches_filter`: the word without the stars is one of the pattern.
-/

namespace Glob

variable {α : Type*} {star : α}

/-- The words of a pattern: the star is any word, every other letter is itself. -/
inductive Matches (star : α) : List α → List α → Prop
  | nil : Matches star [] []
  | letter {c : α} {p v : List α} (hc : c ≠ star) (h : Matches star p v) :
      Matches star (c :: p) (c :: v)
  | stop {p v : List α} (h : Matches star p v) : Matches star (star :: p) v
  | more {p v : List α} (c : α) (h : Matches star (star :: p) v) : Matches star (star :: p) (c :: v)

/-- Segments with any words between them. -/
def Fits : List (List α) → List α → Prop
  | [], v => v = []
  | [part], v => v = part
  | part :: next :: parts, v => ∃ w rest, v = part ++ w ++ rest ∧ Fits (next :: parts) rest

variable {c : α} {p v w rest part next : List α} {parts : List (List α)}

theorem matches_star_iff :
    Matches star (star :: p) v ↔ ∃ w rest, v = w ++ rest ∧ Matches star p rest := by
  constructor
  · intro h
    generalize hq : star :: p = q at h
    induction h with
    | nil => cases hq
    | letter hc => exact absurd (List.cons.inj hq).1.symm hc
    | @stop q v h =>
      obtain ⟨-, rfl⟩ := List.cons.inj hq
      exact ⟨[], v, rfl, h⟩
    | more c _ ih =>
      obtain ⟨w, rest, rfl, h⟩ := ih hq
      exact ⟨c :: w, rest, rfl, h⟩
  · rintro ⟨w, rest, rfl, h⟩
    induction w with
    | nil => exact .stop h
    | cons c w ih => exact .more c ih

theorem matches_letter_iff (hc : c ≠ star) :
    Matches star (c :: p) v ↔ ∃ rest, v = c :: rest ∧ Matches star p rest := by
  constructor
  · intro h
    cases h with
    | letter _ h => exact ⟨_, rfl, h⟩
    | stop => exact absurd rfl hc
    | more => exact absurd rfl hc
  · rintro ⟨rest, rfl, h⟩
    exact .letter hc h

theorem fits_nil_cons : Fits ([] :: next :: parts) v ↔
    ∃ w rest, v = w ++ rest ∧ Fits (next :: parts) rest := Iff.rfl

theorem fits_letter_cons : Fits ((c :: part) :: parts) v ↔
    ∃ rest, v = c :: rest ∧ Fits (part :: parts) rest := by
  cases parts with
  | nil => exact ⟨fun h => ⟨part, h, rfl⟩, fun ⟨_, hv, hrest⟩ => hv.trans (congrArg _ hrest)⟩
  | cons next parts =>
    constructor
    · rintro ⟨w, rest, rfl, h⟩
      exact ⟨_, rfl, w, rest, rfl, h⟩
    · rintro ⟨_, rfl, w, rest, rfl, h⟩
      exact ⟨w, rest, rfl, h⟩

/-- The words of a pattern are those that fit the segments between its stars. -/
theorem matches_iff_fits [DecidableEq α] : Matches star p v ↔ Fits (p.splitOn star) v := by
  induction p generalizing v with
  | nil =>
    rw [List.splitOn_nil]
    exact ⟨fun h => by cases h; rfl, fun h => by rw [show v = [] from h]; exact .nil⟩
  | cons c p ih =>
    obtain ⟨part, parts, hparts⟩ := List.exists_cons_of_ne_nil (List.splitOn_ne_nil star p)
    rw [List.splitOn_cons_eq_if_modifyHead, hparts]
    rw [hparts] at ih
    by_cases hc : c = star
    · rw [if_pos (beq_iff_eq.2 hc), hc, fits_nil_cons, matches_star_iff]
      simp only [ih]
    · rw [if_neg (by simpa using hc), List.modifyHead_cons, fits_letter_cons,
        matches_letter_iff hc]
      simp only [ih]

/-- A star may stand for nothing. -/
theorem matches_filter [DecidableEq α] (p : List α) :
    Matches star p (p.filter fun c => decide (c ≠ star)) := by
  induction p with
  | nil => exact .nil
  | cons c p ih =>
    by_cases hc : c = star
    · subst hc
      rw [List.filter_cons_of_neg (by simp)]
      exact .stop ih
    · rw [List.filter_cons_of_pos (by simpa using hc)]
      exact .letter hc ih

theorem Matches.append {q u : List α} (h : Matches star p v) (h' : Matches star q u) :
    Matches star (p ++ q) (v ++ u) := by
  induction h with
  | nil => exact h'
  | letter hc _ ih => exact .letter hc ih
  | stop _ ih => exact .stop ih
  | more c _ ih => exact .more c ih

theorem matches_self [DecidableEq α] (p : List α) : Matches star p p := by
  induction p with
  | nil => exact .nil
  | cons c p ih =>
    by_cases hc : c = star
    · rw [hc]
      exact .more star (.stop ih)
    · exact .letter hc ih

/-! ### Segment after segment -/

theorem fits_cons_cons_iff : Fits (part :: next :: parts) v ↔
    ∃ u, v = part ++ u ∧ Fits ([] :: next :: parts) u := by
  constructor
  · rintro ⟨w, rest, rfl, h⟩
    exact ⟨w ++ rest, List.append_assoc .., w, rest, rfl, h⟩
  · rintro ⟨_, rfl, w, rest, rfl, h⟩
    exact ⟨w, rest, (List.append_assoc ..).symm, h⟩

theorem fits_nil_last : Fits [[], part] v ↔ part <:+ v := by
  constructor
  · rintro ⟨w, _, rfl, rfl⟩
    exact ⟨w, rfl⟩
  · rintro ⟨w, rfl⟩
    exact ⟨w, part, rfl, rfl⟩

/-- A star in front takes any word. -/
theorem fits_nil_of_suffix {u : List α} (h : Fits ([] :: next :: parts) u) (hsuffix : u <:+ v) :
    Fits ([] :: next :: parts) v := by
  obtain ⟨w, rfl⟩ := hsuffix
  obtain ⟨w', rest, rfl, h⟩ := h
  exact ⟨w ++ w', rest, (List.append_assoc ..).symm, h⟩

/-- A segment behind a star may be taken where it stands first. -/
theorem fits_leftmost_iff {before after : List α} (hv : v = before ++ part ++ after)
    (hfirst : ∀ w rest, v = w ++ part ++ rest → before.length ≤ w.length) :
    Fits ([] :: part :: next :: parts) v ↔ Fits ([] :: next :: parts) after := by
  rw [fits_nil_cons]
  constructor
  · rintro ⟨w, rest, hw, h⟩
    obtain ⟨u, rfl, hu⟩ := fits_cons_cons_iff.1 h
    rw [← List.append_assoc] at hw
    have hle := hfirst w u hw
    have hlength := congrArg List.length (hv.symm.trans hw)
    simp only [List.length_append] at hlength
    refine fits_nil_of_suffix hu (List.suffix_of_suffix_length_le ⟨_, hw.symm⟩ ⟨_, hv.symm⟩ ?_)
    omega
  · intro h
    exact ⟨before, part ++ after, by rw [hv, List.append_assoc],
      fits_cons_cons_iff.2 ⟨after, rfl, h⟩⟩

/-- A segment that stands nowhere does not fit. -/
theorem not_fits_of_absent (h : ¬ part <:+: v) : ¬ Fits ([] :: part :: next :: parts) v := by
  rintro ⟨w, rest, rfl, hfits⟩
  obtain ⟨u, rfl, -⟩ := fits_cons_cons_iff.1 hfits
  exact h ⟨w, u, List.append_assoc ..⟩

/-- Two stars are one. -/
theorem fits_nil_nil : Fits ([] :: [] :: next :: parts) v ↔ Fits ([] :: next :: parts) v :=
  @fits_leftmost_iff _ v [] next parts [] v rfl fun _ _ _ => Nat.zero_le _

end Glob
