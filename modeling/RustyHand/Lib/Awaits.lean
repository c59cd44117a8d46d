import RustyHand.Lib.Effects

/-!
# Computations with awaits

A future works in pieces, from one await to the next.  What it does in a piece nothing else sees in
part; at an await others work on the state it shares with them, and there it can be dropped.

* `Proc`: what a future does, `poll`: its next piece;
* `Future`: such computations with errors, and `erase`: what one does that is left alone;
* `cut`: a computation that is dropped after some awaits, as a timeout does it;
* `Keeps`: what holds of the state at every await, and what is done to it in between;
* `Ends`: what comes out of a computation among others, and `Keeps.ends`: what holds then.
-/

namespace Awaits

open Effects (Eff)

/-- What a future does: it changes the state and goes on with what it was, or it awaits. -/
inductive Proc (ℓ s α : Type) : Type
  | ret (v : α)
  | act (f : s → s) (k : s → Proc ℓ s α)
  | await (l : ℓ) (k : Proc ℓ s α)

namespace Proc

variable {ℓ s α β : Type}

/-- One computation after another. -/
def bind : Proc ℓ s α → (α → Proc ℓ s β) → Proc ℓ s β
  | ret v, g => g v
  | act f k, g => act f fun a => (k a).bind g
  | await l k, g => await l (k.bind g)

instance : Monad (Proc ℓ s) where
  pure := ret
  bind := bind

/-- What a computation does that is left alone. -/
def toState : Proc ℓ s α → StateM s α
  | ret v => pure v
  | act f k => fun a => (k a).toState (f a)
  | await _ k => k.toState

theorem toState_bind (x : Proc ℓ s α) (g : α → Proc ℓ s β) :
    (x.bind g).toState = x.toState >>= fun v => (g v).toState := by
  induction x with
  | ret v => rfl
  | act f k ih =>
    funext a
    exact congrFun (ih a) (f a)
  | await l k ih => exact ih

/-- The work up to the next await. -/
def settle : Proc ℓ s α → s → Proc ℓ s α × s
  | ret v, a => (ret v, a)
  | act f k, a => (k a).settle (f a)
  | await l k, a => (await l k, a)

/-- The next piece of a future. -/
def poll : Proc ℓ s α → s → Proc ℓ s α × s
  | await _ k, a => k.settle a
  | p, a => p.settle a

/-- A computation that is dropped where it awaits for the time after the `n`th; what comes out is
that await, or the result. -/
def cut : ℕ → Proc ℓ s α → Proc ℓ s (ℓ ⊕ α)
  | _, ret v => ret (.inr v)
  | n, act f k => act f fun a => cut n (k a)
  | 0, await l _ => ret (.inl l)
  | n + 1, await l k => await l (cut n k)

/-- A computation under a deadline, which comes after some awaits or not at all. -/
def within (deadline : Option ℕ) (p : Proc ℓ s α) : Proc ℓ s (ℓ ⊕ α) :=
  match deadline with
  | some n => p.cut n
  | none => p.bind fun v => ret (.inr v)

theorem settle_cases (p : Proc ℓ s α) (a : s) :
    (∃ v b, p.settle a = (ret v, b)) ∨ ∃ l k b, p.settle a = (await l k, b) := by
  induction p generalizing a with
  | ret v => exact .inl ⟨v, a, rfl⟩
  | act f k ih => exact ih a (f a)
  | await l k => exact .inr ⟨l, k, a, rfl⟩

end Proc

variable {ℓ s ε α β : Type}

/-- What comes out of a computation: at every await others change the state as `R` says. -/
inductive Ends (R : s → s → Prop) : Proc ℓ s α → s → α → s → Prop
  | ret (v : α) (a : s) : Ends R (.ret v) a v a
  | act {f : s → s} {k : s → Proc ℓ s α} {a b : s} {v : α} (h : Ends R (k a) (f a) v b) :
      Ends R (.act f k) a v b
  | await {l : ℓ} {k : Proc ℓ s α} {a a' b : s} {v : α} (hothers : R a a') (h : Ends R k a' v b) :
      Ends R (.await l k) a v b

/-- If others do nothing, what comes out is what a computation does that is left alone. -/
theorem Ends.of_toState {S : s → s → Prop} (hrefl : ∀ a, S a a) (p : Proc ℓ s α) (a : s) :
    Ends S p a (p.toState a).1 (p.toState a).2 := by
  induction p generalizing a with
  | ret v => exact .ret v a
  | act f k ih => exact .act (ih a (f a))
  | await l k ih => exact .await (hrefl a) (ih a)

/-! ### Errors -/

/-- A future that can fail. -/
abbrev Future (ℓ s ε α : Type) : Type := ExceptT ε (Proc ℓ s) α

/-- An await. -/
def pause (l : ℓ) : Future ℓ s ε Unit := ExceptT.mk (.await l (.ret (.ok ())))

/-- The state is changed. -/
def update (f : s → s) : Future ℓ s ε Unit := ExceptT.mk (.act f fun _ => .ret (.ok ()))

/-- The state is read. -/
def look : Future ℓ s ε s := ExceptT.mk (.act id fun a => .ret (.ok a))

/-- The state is read and changed. -/
def ask (f : s → α × s) : Future ℓ s ε α :=
  ExceptT.mk (.act (fun a => (f a).2) fun a => .ret (.ok (f a).1))

/-- What a future does that is left alone. -/
def erase (x : Future ℓ s ε α) : Eff s ε α := ExceptT.mk (Proc.toState x.run)

@[simp] theorem erase_pure (v : α) : erase (pure v : Future ℓ s ε α) = pure v := rfl

@[simp] theorem erase_throw (e : ε) : erase (throw e : Future ℓ s ε α) = throw e := rfl

@[simp] theorem erase_pause (l : ℓ) : erase (pause l : Future ℓ s ε Unit) = pure () := rfl

@[simp] theorem erase_update (f : s → s) : erase (update f : Future ℓ s ε Unit) = modify f := rfl

@[simp] theorem erase_look : erase (look : Future ℓ s ε s) = get := rfl

@[simp] theorem erase_ask (f : s → α × s) : erase (ask f : Future ℓ s ε α) = modifyGet f := rfl

@[simp] theorem erase_bind (x : Future ℓ s ε α) (f : α → Future ℓ s ε β) :
    erase (x >>= f) = erase x >>= fun v => erase (f v) := by
  have hcont : (fun r => (ExceptT.bindCont (m := Proc ℓ s) f r).toState) =
      ExceptT.bindCont (m := StateM s) fun v => erase (f v) := by
    funext r
    cases r <;> rfl
  show (Proc.bind x.run (ExceptT.bindCont f)).toState = _
  rw [Proc.toState_bind, hcont]
  rfl

@[simp] theorem erase_pause_bind (l : ℓ) (f : Unit → Future ℓ s ε β) :
    erase (pause l >>= f) = erase (f ()) := rfl

/-- A computation without a deadline. -/
theorem erase_lift_within_none (p : Proc ℓ s α) :
    erase (ExceptT.lift (p.within none) : Future ℓ s ε (ℓ ⊕ α)) =
      ExceptT.lift p.toState >>= fun v => pure (.inr v) := by
  have hlift : (ExceptT.lift (p.within none) : Future ℓ s ε (ℓ ⊕ α)) =
      (p.bind fun v => .ret (.inr v)).bind fun r => .ret (.ok r) := rfl
  rw [hlift, erase]
  show (Proc.bind _ _).toState = _
  rw [Proc.toState_bind, Proc.toState_bind]
  rfl

@[simp] theorem erase_tryCatch (x : Future ℓ s ε α) (f : ε → Future ℓ s ε α) :
    erase (tryCatch x f) = tryCatch (erase x) fun e => erase (f e) := by
  have hcont : (fun r : Except ε α => (match r with
        | .ok v => (pure (.ok v) : Proc ℓ s (Except ε α))
        | .error e => f e).toState) = fun r => (match r with
        | .ok v => (pure (.ok v) : StateM s (Except ε α))
        | .error e => erase (f e)) := by
    funext r
    cases r <;> rfl
  show (Proc.bind x.run _).toState = _
  rw [Proc.toState_bind]
  exact congrArg (fun g : Except ε α → StateM s (Except ε α) => x.run.toState >>= g) hcont

namespace Ends

variable {R : s → s → Prop} {a b : s} {r : Except ε β}

theorem of_pause_bind {l : ℓ} {g : Unit → Future ℓ s ε β}
    (h : Ends R (pause l >>= g : Future ℓ s ε β).run a r b) :
    ∃ a', R a a' ∧ Ends R (g ()).run a' r b := by
  have hawait : Ends R (.await l (g ()).run) a r b := h
  cases hawait with
  | await hothers h => exact ⟨_, hothers, h⟩

theorem of_look_bind {g : s → Future ℓ s ε β}
    (h : Ends R (look >>= g : Future ℓ s ε β).run a r b) : Ends R (g a).run a r b := by
  have hact : Ends R (.act id fun a => (g a).run) a r b := h
  cases hact with
  | act h => exact h

theorem of_update_bind {f : s → s} {g : Unit → Future ℓ s ε β}
    (h : Ends R (update f >>= g : Future ℓ s ε β).run a r b) : Ends R (g ()).run (f a) r b := by
  have hact : Ends R (.act f fun _ => (g ()).run) a r b := h
  cases hact with
  | act h => exact h

theorem of_pure {v : β} (h : Ends R (pure v : Future ℓ s ε β).run a r b) : r = .ok v ∧ b = a := by
  have hret : Ends R (.ret (.ok v) : Proc ℓ s (Except ε β)) a r b := h
  cases hret with
  | ret => exact ⟨rfl, rfl⟩

end Ends

/-! ### What holds at every await -/

section Keeps

variable {φ : Type} (A : φ → s → Prop) (G : s → s → Prop) (C : φ → ℓ → Prop)

/-- Begun in a phase with its assertion, a computation changes the state only as `G` says, is always
in a phase whose assertion holds, awaits only where `C` lets it, and ends in the phase that `Q`
says.  At an await others may change the state, but not the assertion. -/
def Keeps (Q : φ → α → Prop) : Proc ℓ s α → φ → Prop
  | .ret v, i => Q i v
  | .act f k, i => ∀ a, A i a → ∃ j, A j (f a) ∧ G a (f a) ∧ Keeps Q (k a) j
  | .await l k, i => C i l ∧ Keeps Q k i

variable {A G C} {Q Q' : φ → α → Prop} {R : φ → β → Prop} {p : Proc ℓ s α} {i : φ}

namespace Keeps

theorem mono (h : Keeps A G C Q p i) (hQ : ∀ j v, Q j v → Q' j v) : Keeps A G C Q' p i := by
  induction p generalizing i with
  | ret v => exact hQ i v h
  | act f k ih =>
    intro a ha
    obtain ⟨j, hj, hG, hk⟩ := h a ha
    exact ⟨j, hj, hG, ih a hk⟩
  | await l k ih => exact ⟨h.1, ih h.2⟩

protected theorem bind {g : α → Proc ℓ s β} (h : Keeps A G C Q p i)
    (hg : ∀ j v, Q j v → Keeps A G C R (g v) j) : Keeps A G C R (p.bind g) i := by
  induction p generalizing i with
  | ret v => exact hg i v h
  | act f k ih =>
    intro a ha
    obtain ⟨j, hj, hG, hk⟩ := h a ha
    exact ⟨j, hj, hG, ih a hk⟩
  | await l k ih => exact ⟨h.1, ih h.2⟩

/-- A computation that is cut has kept what it had to, and was cut where it could await. -/
theorem cut (n : ℕ) (h : Keeps A G C Q p i) :
    Keeps A G C (fun j r => r.elim (C j) (Q j)) (p.cut n) i := by
  induction p generalizing i n with
  | ret v => cases n <;> exact h
  | act f k ih =>
    have hact : (Proc.act f k).cut n = .act f fun a => (k a).cut n := by cases n <;> rfl
    rw [hact]
    intro a ha
    obtain ⟨j, hj, hG, hk⟩ := h a ha
    exact ⟨j, hj, hG, ih a n hk⟩
  | await l k ih =>
    cases n with
    | zero => exact h.1
    | succ n => exact ⟨h.1, ih n h.2⟩

theorem within (deadline : Option ℕ) (h : Keeps A G C Q p i) :
    Keeps A G C (fun j r => r.elim (C j) (Q j)) (p.within deadline) i := by
  cases deadline with
  | some n => exact h.cut n
  | none => exact h.bind fun _ _ hv => hv

/-- A piece of work keeps the assertion, changes the state as a whole as its parts do, and leaves a
computation that keeps the rest. -/
theorem settle (hrefl : ∀ a, G a a) (htrans : ∀ a b c, G a b → G b c → G a c) {a : s}
    (h : Keeps A G C Q p i) (ha : A i a) :
    ∃ j, A j (p.settle a).2 ∧ G a (p.settle a).2 ∧ Keeps A G C Q (p.settle a).1 j := by
  induction p generalizing i a with
  | ret v => exact ⟨i, ha, hrefl a, h⟩
  | act f k ih =>
    obtain ⟨j, hj, hG, hk⟩ := h a ha
    obtain ⟨j', hj', hG', hk'⟩ := ih a hk hj
    exact ⟨j', hj', htrans _ _ _ hG hG', hk'⟩
  | await l k => exact ⟨i, ha, hrefl a, h⟩

/-- What a computation keeps holds when it ends, if others leave the assertion of every phase in
which it awaits. -/
theorem ends {S : s → s → Prop} (hothers : ∀ i l a b, C i l → A i a → S a b → A i b)
    (h : Keeps A G C Q p i) {a b : s} {v : α} (ha : A i a) (hends : Ends S p a v b) :
    ∃ j, A j b ∧ Q j v := by
  induction hends generalizing i with
  | ret v a => exact ⟨i, ha, h⟩
  | act hends ih =>
    obtain ⟨j, hj, -, hk⟩ := h _ ha
    exact ih hk hj
  | await hR hends ih => exact ih h.2 (hothers i _ _ _ h.1 ha hR)

end Keeps

/-- The same for a future, with a postcondition for a return and one for an error. -/
def KeepsFuture (A : φ → s → Prop) (G : s → s → Prop) (C : φ → ℓ → Prop) (Q : φ → α → Prop)
    (E : φ → ε → Prop) (x : Future ℓ s ε α) (i : φ) : Prop :=
  Keeps A G C (fun j (r : Except ε α) => match r with
    | .ok v => Q j v
    | .error e => E j e) x.run i

variable {E E' : φ → ε → Prop} {x : Future ℓ s ε α} {f : α → Future ℓ s ε β}

namespace KeepsFuture

protected theorem pure {v : α} (h : Q i v) :
    KeepsFuture A G C Q E (pure v : Future ℓ s ε α) i := h

protected theorem throw {e : ε} (h : E i e) :
    KeepsFuture A G C Q E (throw e : Future ℓ s ε α) i := h

protected theorem bind (hx : KeepsFuture A G C Q E x i)
    (hf : ∀ j v, Q j v → KeepsFuture A G C R E (f v) j) : KeepsFuture A G C R E (x >>= f) i := by
  refine Keeps.bind hx fun j r hr => ?_
  cases r with
  | ok v => exact hf j v hr
  | error e => exact hr

protected theorem tryCatch {h : ε → Future ℓ s ε α} (hx : KeepsFuture A G C Q E' x i)
    (hh : ∀ j e, E' j e → KeepsFuture A G C Q E (h e) j) :
    KeepsFuture A G C Q E (tryCatch x h) i := by
  refine Keeps.bind hx fun j r hr => ?_
  cases r with
  | ok v => exact hr
  | error e => exact hh j e hr

theorem mono (hx : KeepsFuture A G C Q E x i) (hQ : ∀ j v, Q j v → Q' j v)
    (hE : ∀ j e, E j e → E' j e) : KeepsFuture A G C Q' E' x i := by
  refine Keeps.mono hx fun j r hr => ?_
  cases r with
  | ok v => exact hQ j v hr
  | error e => exact hE j e hr

theorem pause_bind {l : ℓ} {g : Unit → Future ℓ s ε β} (hl : C i l)
    (hg : KeepsFuture A G C R E (g ()) i) : KeepsFuture A G C R E (pause l >>= g) i := ⟨hl, hg⟩

theorem update_bind {u : s → s} {g : Unit → Future ℓ s ε β} {j : φ}
    (hu : ∀ a, A i a → A j (u a) ∧ G a (u a)) (hg : KeepsFuture A G C R E (g ()) j) :
    KeepsFuture A G C R E (update u >>= g) i :=
  fun a ha => ⟨j, (hu a ha).1, (hu a ha).2, hg⟩

/-- What is read may tell the phase. -/
theorem look_bind_exists {g : s → Future ℓ s ε β} (hrefl : ∀ a, G a a)
    (hg : ∀ a, A i a → ∃ j, A j a ∧ KeepsFuture A G C R E (g a) j) :
    KeepsFuture A G C R E (look >>= g) i := by
  intro a ha
  obtain ⟨j, hj, hk⟩ := hg a ha
  exact ⟨j, hj, hrefl a, hk⟩

theorem look_bind {g : s → Future ℓ s ε β} (hrefl : ∀ a, G a a)
    (hg : ∀ a, A i a → KeepsFuture A G C R E (g a) i) : KeepsFuture A G C R E (look >>= g) i :=
  look_bind_exists hrefl fun a ha => ⟨i, ha, hg a ha⟩

theorem update {u : s → s} {j : φ} {S : φ → Unit → Prop}
    (hu : ∀ a, A i a → A j (u a) ∧ G a (u a)) (hS : S j ()) :
    KeepsFuture A G C S E (Awaits.update u) i :=
  fun a ha => ⟨j, (hu a ha).1, (hu a ha).2, hS⟩

theorem ask {u : s → α × s} {j : φ} (hu : ∀ a, A i a → A j (u a).2 ∧ G a (u a).2)
    (hQ : ∀ v, Q j v) : KeepsFuture A G C Q E (Awaits.ask u) i :=
  fun a ha => ⟨j, (hu a ha).1, (hu a ha).2, hQ _⟩

theorem lift {p : Proc ℓ s α} (h : Keeps A G C Q p i) :
    KeepsFuture A G C Q E (ExceptT.lift p : Future ℓ s ε α) i := h.bind fun _ _ hv => hv

end KeepsFuture

end Keeps

end Awaits
