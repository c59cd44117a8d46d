import Mathlib.Data.List.Basic

/-!
# Runs of a state machine

A machine is a function of a state and an event; what it does not decide by itself is part of the
event.

* `run`: the state after some events;
* `Along`: a property of every step of a run, by its state and its event;
* `Along.invariant`: what one step keeps, a run keeps;
* `along_accumulates`, `forall_take_iff_along`: what the steps of a run add up to.
-/

namespace Runs

variable {σ ε : Type*} (step : σ → ε → σ)

/-- The state after some events. -/
def run (s : σ) (events : List ε) : σ := events.foldl step s

@[simp] theorem run_nil (s : σ) : run step s [] = s := rfl

@[simp] theorem run_cons (s : σ) (e : ε) (events : List ε) :
    run step s (e :: events) = run step (step s e) events := rfl

theorem run_append (s : σ) (events events' : List ε) :
    run step s (events ++ events') = run step (run step s events) events' :=
  List.foldl_append

/-- `Q` holds of every step of a run. -/
def Along (Q : σ → ε → Prop) : σ → List ε → Prop
  | _, [] => True
  | s, e :: events => Q s e ∧ Along Q (step s e) events

variable {step} {Q Q' : σ → ε → Prop} {s : σ} {e : ε} {events events' : List ε}

@[simp] theorem along_nil : Along step Q s [] := trivial

@[simp] theorem along_cons :
    Along step Q s (e :: events) ↔ Q s e ∧ Along step Q (step s e) events := Iff.rfl

theorem along_append : Along step Q s (events ++ events') ↔
    Along step Q s events ∧ Along step Q (run step s events) events' := by
  induction events generalizing s with
  | nil => simp
  | cons e events ih => simp [ih, and_assoc]

theorem Along.mono (h : Along step Q s events) (hQ : ∀ s e, Q s e → Q' s e) :
    Along step Q' s events := by
  induction events generalizing s with
  | nil => trivial
  | cons e events ih => exact ⟨hQ s e h.1, ih h.2⟩

theorem along_of_forall (h : ∀ s e, Q s e) : Along step Q s events := by
  induction events generalizing s with
  | nil => trivial
  | cons e events ih => exact ⟨h s e, ih⟩

/-- The states of a run keep an invariant that its steps keep. -/
theorem Along.invariant {I : σ → Prop} (h : Along step Q s events) (hs : I s)
    (hstep : ∀ s e, I s → Q s e → I (step s e)) : I (run step s events) := by
  induction events generalizing s with
  | nil => exact hs
  | cons e events ih => exact ih h.2 (hstep s e hs h.1)

/-- Two properties that agree where an invariant holds, agree along a run. -/
theorem along_congr {I : σ → Prop} {P : σ → ε → Prop} (h : Along step P s events) (hs : I s)
    (hstep : ∀ s e, I s → P s e → I (step s e))
    (hQ : ∀ s e, I s → P s e → (Q s e ↔ Q' s e)) :
    Along step Q s events ↔ Along step Q' s events := by
  induction events generalizing s with
  | nil => exact Iff.rfl
  | cons e events ih =>
    exact and_congr (hQ s e hs h.1) (ih h.2 (hstep s e hs h.1))

/-- What holds after a step if and only if it held before and the step is right, holds after a run
if and only if all its steps are right. -/
theorem along_accumulates {I G : σ → Prop} {P : σ → ε → Prop} (h : Along step P s events)
    (hs : I s) (hstep : ∀ s e, I s → P s e → I (step s e))
    (hG : ∀ s e, I s → P s e → (G (step s e) ↔ G s ∧ Q s e)) :
    G (run step s events) ↔ G s ∧ Along step Q s events := by
  induction events generalizing s with
  | nil => simp
  | cons e events ih =>
    rw [run_cons, ih h.2 (hstep s e hs h.1), hG s e hs h.1, along_cons, and_assoc]

/-- What holds under an invariant of the right steps, and after no other step, holds of every state
of a run if and only if all the steps are right. -/
theorem forall_take_iff_along {I G : σ → Prop} (hs : I s) (hG : ∀ s, I s → G s)
    (hstep : ∀ s e, I s → Q s e → I (step s e)) (hQ : ∀ s e, I s → G (step s e) → Q s e) :
    (∀ k, G (run step s (events.take k))) ↔ Along step Q s events := by
  induction events generalizing s with
  | nil => simp [hG s hs]
  | cons e events ih =>
    constructor
    · intro h
      have hright : Q s e := hQ s e hs (h 1)
      exact ⟨hright, (ih (hstep s e hs hright)).1 fun k => h (k + 1)⟩
    · rintro ⟨hright, hevents⟩ k
      cases k with
      | zero => exact hG s hs
      | succ k => exact (ih (hstep s e hs hright)).2 hevents k

end Runs
