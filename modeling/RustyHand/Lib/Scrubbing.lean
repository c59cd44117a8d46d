import Mathlib.Data.List.Infix

/-!
# Scrubbing

Markers in a list are replaced, at every place from the left, where elements count as equal if a
function takes them to the same.

* `found`, `scrub`: the marker in front of a list, and the scan;
* `Clear`: lists that do not begin alike;
* `not_infix_scrub`: no marker is left, nor does one come about where one was;
* `AtMost`: the elements in a row that satisfy a predicate; `atMost_scrub`.
-/

namespace Scrubbing

variable {α β : Type*}

/-! ### Infixes around an element -/

/-- What an element is not in lies in front of it or behind it. -/
theorem infix_append_cons_iff {w a b : List α} {x : α} (hx : x ∉ w) :
    w <:+: a ++ x :: b ↔ w <:+: a ∨ w <:+: b := by
  constructor
  · intro h
    rcases List.infix_append_iff.1 h with ha | hb | ⟨l₁, l₂, rfl, hsuf, hpre⟩
    · exact .inl ha
    · rcases List.infix_cons_iff.1 hb with hpre | hb
      · cases w with
        | nil => exact .inl List.nil_infix
        | cons y w =>
          obtain ⟨rfl, -⟩ := List.cons_prefix_cons.1 hpre
          exact absurd List.mem_cons_self hx
      · exact .inr hb
    · cases l₂ with
      | nil =>
        rw [List.append_nil]
        exact .inl hsuf.isInfix
      | cons y l₂ =>
        obtain ⟨rfl, -⟩ := List.cons_prefix_cons.1 hpre
        exact absurd (List.mem_append_right l₁ List.mem_cons_self) hx
  · rintro (h | h)
    · exact h.trans (List.prefix_append a (x :: b)).isInfix
    · exact h.trans ((List.suffix_cons x b).trans (List.suffix_append a (x :: b))).isInfix

/-- Elements in front that are not in it do not matter. -/
theorem infix_append_of_not_mem {w a b : List α} (hw : w ≠ []) (ha : ∀ x ∈ a, x ∉ w)
    (h : w <:+: a ++ b) : w <:+: b := by
  induction a with
  | nil => exact h
  | cons x a ih =>
    rw [List.forall_mem_cons] at ha
    rcases (infix_append_cons_iff (a := []) ha.1).1 h with hnil | h
    · exact absurd (List.infix_nil.1 hnil) hw
    · exact ih ha.2 h

/-! ### Elements in a row -/

/-- At most `n` elements in a row satisfy the predicate. -/
def AtMost (p : α → Bool) (n : ℕ) (l : List α) : Prop :=
  ∀ w, w <:+: l → (∀ x ∈ w, p x = true) → w.length ≤ n

variable {p : α → Bool} {n : ℕ} {a b l : List α} {x : α}

theorem AtMost.within (h : AtMost p n l) (ha : a <:+: l) : AtMost p n a := fun w hw =>
  h w (hw.trans ha)

theorem atMost_of_length_le (h : l.length ≤ n) : AtMost p n l := fun _ hw _ => hw.length_le.trans h

theorem atMost_append_cons_iff (hx : p x = false) :
    AtMost p n (a ++ x :: b) ↔ AtMost p n a ∧ AtMost p n b := by
  have hmem : ∀ w : List α, (∀ y ∈ w, p y = true) → x ∉ w := fun w hw hxw => by
    rw [hw x hxw] at hx
    cases hx
  constructor
  · intro h
    exact ⟨h.within (List.prefix_append a (x :: b)).isInfix,
      h.within ((List.suffix_cons x b).trans (List.suffix_append a (x :: b))).isInfix⟩
  · rintro ⟨ha, hb⟩ w hw hall
    rcases (infix_append_cons_iff (hmem w hall)).1 hw with hw | hw
    · exact ha w hw hall
    · exact hb w hw hall

/-- Behind an element that satisfies the predicate not, the count starts again. -/
theorem atMost_cons_iff (hx : p x = false) : AtMost p n (x :: b) ↔ AtMost p n b := by
  rw [← List.nil_append (x :: b), atMost_append_cons_iff hx]
  exact and_iff_right (atMost_of_length_le (Nat.zero_le n))

/-! ### The scan -/

/-- Neither list begins with the other. -/
def Clear (v w : List β) : Prop := ¬ v <+: w ∧ ¬ w <+: v

instance [DecidableEq β] (v w : List β) : Decidable (Clear v w) :=
  inferInstanceAs (Decidable (_ ∧ _))

variable [DecidableEq β]

/-- The first of the markers that the list begins with. -/
def found (f : α → β) (markers : List (List α)) (l : List α) : Option (List α) :=
  markers.find? fun m => decide (m.map f <+: l.map f)

/-- Every marker is replaced.  The first argument counts the elements of a marker that are still to
be passed over. -/
def scrub (f : α → β) (markers : List (List α)) (new : List α) : ℕ → List α → List α
  | _, [] => []
  | skip + 1, _ :: l => scrub f markers new skip l
  | 0, x :: l =>
    match found f markers (x :: l) with
    | some m => new ++ scrub f markers new (m.length - 1) l
    | none => x :: scrub f markers new 0 l

variable {f : α → β} {markers : List (List α)} {new m : List α}

theorem scrub_eq_drop (k : ℕ) (l : List α) :
    scrub f markers new k l = scrub f markers new 0 (l.drop k) := by
  induction l generalizing k with
  | nil => simp [scrub]
  | cons x l ih =>
    cases k with
    | zero => rfl
    | succ k => exact ih k

theorem scrub_cons_of_some (h : found f markers (x :: l) = some m) :
    scrub f markers new 0 (x :: l) = new ++ scrub f markers new (m.length - 1) l := by
  rw [scrub, h]

theorem scrub_cons_of_none (h : found f markers (x :: l) = none) :
    scrub f markers new 0 (x :: l) = x :: scrub f markers new 0 l := by
  rw [scrub, h]

theorem found_eq_none_iff :
    found f markers l = none ↔ ∀ m ∈ markers, ¬ m.map f <+: l.map f := by
  simp [found]

/-- What stands in front of a scrubbed list and does not meet what is put in stood there before. -/
theorem prefix_of_prefix_scrub {γ : Type*} {g : α → γ} {w : List γ}
    (hclear : ∀ v ∈ w.tails, v ≠ [] → Clear v (new.map g))
    (h : w <+: (scrub f markers new 0 l).map g) : w <+: l.map g := by
  induction l generalizing w with
  | nil => exact h
  | cons x l ih =>
    cases hfound : found f markers (x :: l) with
    | some m =>
      cases w with
      | nil => exact List.nil_prefix
      | cons y w =>
        have hw := hclear (y :: w) (by simp) (List.cons_ne_nil y w)
        rw [scrub_cons_of_some hfound, List.map_append] at h
        rcases List.prefix_or_prefix_of_prefix h (List.prefix_append (new.map g) _) with hp | hp
        · exact absurd hp hw.1
        · exact absurd hp hw.2
    | none =>
      rw [scrub_cons_of_none hfound, List.map_cons] at h
      cases w with
      | nil => exact List.nil_prefix
      | cons y w =>
        obtain ⟨rfl, htail⟩ := List.cons_prefix_cons.1 h
        refine List.cons_prefix_cons.2 ⟨rfl, ih (fun v hv => hclear v ?_) htail⟩
        rw [List.mem_tails] at hv ⊢
        exact hv.trans (List.suffix_cons _ _)

/-- **No marker is left**, if no end of a marker meets what is put in, and no end of that meets a
marker. -/
theorem not_infix_scrub (hm : m ∈ markers) (hne : m ≠ [])
    (hin : ∀ v ∈ (m.map f).tails, v ≠ [] → Clear v (new.map f))
    (hout : ∀ v ∈ (new.map f).tails, v ≠ [] → Clear v (m.map f)) (k : ℕ) (l : List α) :
    ¬ m.map f <:+: (scrub f markers new k l).map f := by
  induction l generalizing k with
  | nil =>
    intro h
    rw [scrub, List.map_nil, List.infix_nil, List.map_eq_nil_iff] at h
    exact hne h
  | cons x l ih =>
    cases k with
    | succ k => exact ih k
    | zero =>
      cases hfound : found f markers (x :: l) with
      | some m' =>
        rw [scrub_cons_of_some hfound, List.map_append, List.infix_append_iff]
        rintro (h | h | ⟨l₁, l₂, hsplit, hsuf, hpre⟩)
        · obtain ⟨s, t, h⟩ := h
          refine (hout (m.map f ++ t) ?_ (by simp [hne])).2 (List.prefix_append _ _)
          rw [List.mem_tails]
          exact ⟨s, by rw [← List.append_assoc, h]⟩
        · exact ih _ h
        · by_cases hl₁ : l₁ = []
          · rw [hl₁, List.nil_append] at hsplit
            rw [hsplit] at ih
            exact ih _ hpre.isInfix
          · refine (hout l₁ ((List.mem_tails _ _).2 hsuf) hl₁).1 ?_
            rw [hsplit]
            exact List.prefix_append _ _
      | none =>
        rw [scrub_cons_of_none hfound, List.map_cons, List.infix_cons_iff, not_or]
        have hkeep : scrub f markers new 0 (x :: l) = x :: scrub f markers new 0 l :=
          scrub_cons_of_none hfound
        refine ⟨fun h => ?_, ih 0⟩
        rw [← List.map_cons, ← hkeep] at h
        exact found_eq_none_iff.1 hfound m hm (prefix_of_prefix_scrub hin h)

/-- No more elements in a row come about, if the predicate fails at both ends of what is put in. -/
theorem atMost_scrub {y : α} (hx : p x = false) (hy : p y = false) (ha : AtMost p n a)
    (hl : AtMost p n l) (k : ℕ) : AtMost p n (scrub f markers (x :: (a ++ [y])) k l) := by
  induction l generalizing k with
  | nil => exact hl
  | cons z l ih =>
    have htail := ih (hl.within (List.suffix_cons z l).isInfix)
    cases k with
    | succ k => exact htail k
    | zero =>
      cases hfound : found f markers (z :: l) with
      | some m =>
        rw [scrub_cons_of_some hfound, List.cons_append, List.append_assoc, List.singleton_append,
          atMost_cons_iff hx, atMost_append_cons_iff hy]
        exact ⟨ha, htail _⟩
      | none =>
        have hkeep : scrub f markers (x :: (a ++ [y])) 0 (z :: l) =
          z :: scrub f markers (x :: (a ++ [y])) 0 l := scrub_cons_of_none hfound
        rw [hkeep]
        intro w hw hall
        rcases List.infix_cons_iff.1 hw with hpre | hw
        · -- elements in a row at the beginning do not reach what is put in
          have hclear : ∀ v ∈ w.tails, v ≠ [] → Clear v ((x :: (a ++ [y])).map id) := by
            intro v hv hne
            cases v with
            | nil => exact absurd rfl hne
            | cons u v =>
              have hu := hall u (((List.mem_tails _ _).1 hv).subset List.mem_cons_self)
              have hux : u ≠ x := fun h => by
                rw [h, hx] at hu
                cases hu
              exact ⟨fun h => hux (List.cons_prefix_cons.1 h).1,
                fun h => hux (List.cons_prefix_cons.1 h).1.symm⟩
          rw [← hkeep] at hpre
          have hpre' := prefix_of_prefix_scrub (g := id) hclear (by rwa [List.map_id])
          rw [List.map_id] at hpre'
          exact hl w hpre'.isInfix hall
        · exact htail 0 w hw hall

end Scrubbing
