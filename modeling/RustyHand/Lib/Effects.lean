import Mathlib.Algebra.Ring.Nat
import Mathlib.Data.List.Basic

/-!
# Computations with a state and errors

Computations of `ExceptT ε (StateM s)`: an error leaves the state in which it was thrown.

* `run`: the result, and the state after it;
* `Ensures`: a triple with a postcondition for a return and one for an error;
* `Returns`: what a computation returns, whatever its state;
* `Agree`: two computations have the same result and keep a relation between their states.
-/

namespace Effects

universe u

variable {ε s t α β : Type u}

/-- A computation with a state and errors. -/
abbrev Eff (s ε α : Type u) : Type u := ExceptT ε (StateM s) α

/-- The result of a computation and the state after it. -/
def run (x : Eff s ε α) (a : s) : Except ε α × s := StateT.run (ExceptT.run x) a

@[simp] theorem run_pure (v : α) (a : s) : run (pure v : Eff s ε α) a = (.ok v, a) := rfl

@[simp] theorem run_throw (e : ε) (a : s) : run (throw e : Eff s ε α) a = (.error e, a) := rfl

@[simp] theorem run_modify (f : s → s) (a : s) :
    run (modify f : Eff s ε PUnit) a = (.ok ⟨⟩, f a) := rfl

@[simp] theorem run_modifyGet (f : s → α × s) (a : s) :
    run (modifyGet f : Eff s ε α) a = (.ok (f a).1, (f a).2) := rfl

theorem run_bind_of_ok {x : Eff s ε α} {f : α → Eff s ε β} {a b : s} {v : α}
    (h : run x a = (.ok v, b)) : run (x >>= f) a = run (f v) b := by
  have hbind : run (x >>= f) a = StateT.run (ExceptT.bindCont f (run x a).1) (run x a).2 := rfl
  rw [hbind, h]
  rfl

theorem run_bind_of_error {x : Eff s ε α} {f : α → Eff s ε β} {a b : s} {e : ε}
    (h : run x a = (.error e, b)) : run (x >>= f) a = (.error e, b) := by
  have hbind : run (x >>= f) a = StateT.run (ExceptT.bindCont f (run x a).1) (run x a).2 := rfl
  rw [hbind, h]
  rfl

@[simp] theorem run_get_bind (f : s → Eff s ε β) (a : s) : run (get >>= f) a = run (f a) a := rfl

@[simp] theorem run_modify_bind (g : s → s) (f : PUnit → Eff s ε β) (a : s) :
    run (modify g >>= f) a = run (f ⟨⟩) (g a) := rfl

@[simp] theorem run_modifyGet_bind (g : s → α × s) (f : α → Eff s ε β) (a : s) :
    run (modifyGet g >>= f) a = run (f (g a).1) (g a).2 := rfl

theorem run_tryCatch_of_ok {x : Eff s ε α} {f : ε → Eff s ε α} {a b : s} {v : α}
    (h : run x a = (.ok v, b)) : run (tryCatch x f) a = (.ok v, b) := by
  have hx : (x : StateM s (Except ε α)) a = (.ok v, b) := h
  show (ExceptT.tryCatch x f : StateM s (Except ε α)) a = _
  simp only [ExceptT.tryCatch, ExceptT.mk, bind, StateT.bind, hx]
  rfl

theorem run_tryCatch_of_error {x : Eff s ε α} {f : ε → Eff s ε α} {a b : s} {e : ε}
    (h : run x a = (.error e, b)) : run (tryCatch x f) a = run (f e) b := by
  have hx : (x : StateM s (Except ε α)) a = (.error e, b) := h
  show (ExceptT.tryCatch x f : StateM s (Except ε α)) a = _
  simp only [ExceptT.tryCatch, ExceptT.mk, bind, StateT.bind, hx]
  rfl

/-! ### Triples -/

/-- From a state in `P` the computation returns `v` and a state in `Q v`, or throws `e` and leaves
a state in `E e`. -/
structure Ensures (P : s → Prop) (x : Eff s ε α) (Q : α → s → Prop) (E : ε → s → Prop) : Prop where
  ok : ∀ a v b, P a → run x a = (.ok v, b) → Q v b
  error : ∀ a e b, P a → run x a = (.error e, b) → E e b

namespace Ensures

variable {P P' : s → Prop} {Q Q' : α → s → Prop} {R : β → s → Prop} {E E' : ε → s → Prop}
  {x : Eff s ε α} {f : α → Eff s ε β}

theorem weaken (h : Ensures P x Q E) (hP : ∀ a, P' a → P a) (hQ : ∀ v a, Q v a → Q' v a)
    (hE : ∀ e a, E e a → E' e a) : Ensures P' x Q' E' where
  ok := fun a v b ha hrun => hQ v b (h.ok a v b (hP a ha) hrun)
  error := fun a e b ha hrun => hE e b (h.error a e b (hP a ha) hrun)

protected theorem pure (v : α) (h : ∀ a, P a → Q v a) : Ensures P (pure v : Eff s ε α) Q E where
  ok := by
    intro a w b ha hrun
    obtain ⟨rfl, rfl⟩ : v = w ∧ a = b := by simpa using hrun
    exact h a ha
  error := by
    intro a e b ha hrun
    simp at hrun

protected theorem throw (e : ε) (h : ∀ a, P a → E e a) : Ensures P (throw e : Eff s ε α) Q E where
  ok := by
    intro a w b ha hrun
    simp at hrun
  error := by
    intro a e' b ha hrun
    obtain ⟨rfl, rfl⟩ : e = e' ∧ a = b := by simpa using hrun
    exact h a ha

protected theorem bind (hx : Ensures P x Q E) (hf : ∀ v, Ensures (Q v) (f v) R E) :
    Ensures P (x >>= f) R E where
  ok := by
    intro a w c ha hrun
    rcases hr : run x a with ⟨e | v, b⟩
    · rw [run_bind_of_error hr] at hrun
      simp at hrun
    · rw [run_bind_of_ok hr] at hrun
      exact (hf v).ok b w c (hx.ok a v b ha hr) hrun
  error := by
    intro a e c ha hrun
    rcases hr : run x a with ⟨e' | v, b⟩
    · rw [run_bind_of_error hr] at hrun
      obtain ⟨rfl, rfl⟩ : e' = e ∧ b = c := by simpa using hrun
      exact hx.error a e' b ha hr
    · rw [run_bind_of_ok hr] at hrun
      exact (hf v).error b e c (hx.ok a v b ha hr) hrun

protected theorem modify {S : s → Prop} (g : s → s) (h : ∀ a, P a → S (g a)) :
    Ensures P (modify g : Eff s ε PUnit) (fun _ => S) E where
  ok := by
    intro a v b ha hrun
    obtain rfl : g a = b := by simpa using hrun
    exact h a ha
  error := by
    intro a e b ha hrun
    simp at hrun

protected theorem modifyGet (g : s → α × s) (h : ∀ a, P a → Q (g a).1 (g a).2) :
    Ensures P (modifyGet g : Eff s ε α) Q E where
  ok := by
    intro a v b ha hrun
    obtain ⟨rfl, rfl⟩ : (g a).1 = v ∧ (g a).2 = b := by simpa using hrun
    exact h a ha
  error := by
    intro a e b ha hrun
    simp at hrun

theorem get_bind {g : s → Eff s ε β} (h : ∀ v, Ensures P (g v) R E) :
    Ensures P (get >>= g) R E where
  ok := fun a w b ha hrun => (h a).ok a w b ha hrun
  error := fun a e b ha hrun => (h a).error a e b ha hrun

end Ensures

/-! ### What is returned -/

/-- Whatever is returned, from whatever state, satisfies `p`. -/
def Returns (x : Eff s ε α) (p : α → Prop) : Prop := ∀ a v b, run x a = (.ok v, b) → p v

namespace Returns

variable {p : α → Prop} {q : β → Prop} {x : Eff s ε α} {f : α → Eff s ε β}

protected theorem pure {v : α} (h : p v) : Returns (pure v : Eff s ε α) p := by
  intro a w b hrun
  obtain ⟨rfl, -⟩ : v = w ∧ a = b := by simpa using hrun
  exact h

protected theorem throw (e : ε) : Returns (throw e : Eff s ε α) p := by
  intro a w b hrun
  simp at hrun

protected theorem bind (hf : ∀ v, Returns (f v) q) : Returns (x >>= f) q := by
  intro a w c hrun
  rcases hr : run x a with ⟨e | v, b⟩
  · rw [run_bind_of_error hr] at hrun
    simp at hrun
  · rw [run_bind_of_ok hr] at hrun
    exact hf v b w c hrun

end Returns

/-! ### Two computations that agree -/

/-- From related states the computations have the same result, and leave related states. -/
def Agree (R : s → t → Prop) (x : Eff s ε α) (y : Eff t ε α) : Prop :=
  ∀ a b, R a b → (run x a).1 = (run y b).1 ∧ R (run x a).2 (run y b).2

namespace Agree

variable {R : s → t → Prop} {x : Eff s ε α} {y : Eff t ε α}

protected theorem pure (v : α) : Agree R (pure v : Eff s ε α) (pure v) := fun _ _ h => ⟨rfl, h⟩

protected theorem throw (e : ε) : Agree R (throw e : Eff s ε α) (throw e) := fun _ _ h => ⟨rfl, h⟩

protected theorem bind {f : α → Eff s ε β} {g : α → Eff t ε β} (hxy : Agree R x y)
    (hfg : ∀ v, Agree R (f v) (g v)) : Agree R (x >>= f) (y >>= g) := by
  intro a b hab
  obtain ⟨hres, hst⟩ := hxy a b hab
  rcases hx : run x a with ⟨e | v, a'⟩ <;> rcases hy : run y b with ⟨e' | v', b'⟩ <;>
    rw [hx, hy] at hres hst
  · obtain rfl : e = e' := by simpa using hres
    rw [run_bind_of_error hx, run_bind_of_error hy]
    exact ⟨rfl, hst⟩
  · cases hres
  · cases hres
  · obtain rfl : v = v' := by simpa using hres
    rw [run_bind_of_ok hx, run_bind_of_ok hy]
    exact hfg v a' b' hst

protected theorem modifyGet {f : s → α × s} {g : t → α × t}
    (h : ∀ a b, R a b → (f a).1 = (g b).1 ∧ R (f a).2 (g b).2) :
    Agree R (modifyGet f : Eff s ε α) (modifyGet g) :=
  fun a b hab => ⟨congrArg Except.ok (h a b hab).1, (h a b hab).2⟩

protected theorem modify {f : s → s} {g : t → t} (h : ∀ a b, R a b → R (f a) (g b)) :
    Agree R (modify f : Eff s ε PUnit) (modify g) := fun a b hab => ⟨rfl, h a b hab⟩

theorem get_bind {f : s → Eff s ε α} {g : t → Eff t ε α}
    (h : ∀ a b, R a b → Agree R (f a) (g b)) : Agree R (get >>= f) (get >>= g) :=
  fun a b hab => h a b hab a b hab

/-- The second computation may look at its state. -/
theorem get_right {g : t → Eff t ε α} (h : ∀ b, Agree R x (g b)) : Agree R x (get >>= g) :=
  fun a b hab => h b a b hab

/-- An effect of the second computation that the relation does not see. -/
theorem silent {g : t → t} {k : Eff t ε α} (hg : ∀ a b, R a b → R a (g b)) (h : Agree R x k) :
    Agree R x (modify g >>= fun _ => k) := fun a b hab => h a (g b) (hg a b hab)

protected theorem ite {c : Prop} [Decidable c] {x' : Eff s ε α} {y' : Eff t ε α} (hx : Agree R x y)
    (hx' : Agree R x' y') : Agree R (if c then x else x') (if c then y else y') := by
  split
  · exact hx
  · exact hx'

end Agree

end Effects
