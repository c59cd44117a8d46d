import Mathlib.Logic.Function.Basic
import Mathlib.Data.List.Basic

/-!
# A record shared by tasks that read and write it as a whole

Tasks share one record.  A task loads the record into a copy of its own and later saves from the
copy; each load and each save is atomic, and between them the other tasks may do what they like.
A save is *fresh* when nobody saved since the task last loaded or saved, and *stale* otherwise: a
stale save undoes the saves it did not see.

* `Protocol`, `State`, `step`, `run`: the tasks and their interleavings, with a log of the saves;
* `FreshRun`: no save of the run is stale;
* `run_keeps`: what every load takes to a copy and every save to the record holds all along;
* `FreshRun.invariant`: so does what a save keeps that writes over what its task has seen.
-/

namespace SharedRecord

variable {ι ℓ σ : Type*}

/-- What a load of the record puts into a task's copy, and what a save writes from it, if the task
has anything left to save. -/
structure Protocol (ι ℓ σ : Type*) where
  load : ι → σ → ℓ
  save : ι → ℓ → Option (σ × ℓ)

/-- A save: who, what the record was, what it became, and what the copy became. -/
structure Write (ι ℓ σ : Type*) where
  who : ι
  before : σ
  after : σ
  left : ℓ

/-- The record, the saves so far, and the tasks' copies with the number of saves they have seen. -/
structure State (ι ℓ σ : Type*) where
  record : σ
  log : List (Write ι ℓ σ)
  copy : ι → Option (ℓ × ℕ)

/-- An atomic step. -/
inductive Event (ι : Type*)
  | load (i : ι)
  | save (i : ι)

def State.init (record : σ) : State ι ℓ σ := { record := record, log := [], copy := fun _ => none }

variable (P : Protocol ι ℓ σ)

def step [DecidableEq ι] (s : State ι ℓ σ) : Event ι → State ι ℓ σ
  | .load i =>
      { s with copy := Function.update s.copy i (some (P.load i s.record, s.log.length)) }
  | .save i =>
      match (s.copy i).bind fun c => P.save i c.1 with
      | none => s
      | some (r, l) =>
          { record := r
            log := s.log ++ [⟨i, s.record, r, l⟩]
            copy := Function.update s.copy i (some (l, s.log.length + 1)) }

def run [DecidableEq ι] (s : State ι ℓ σ) (events : List (Event ι)) : State ι ℓ σ :=
  events.foldl (step P) s

/-- Has the task seen every save, should the event be a save of its copy? -/
def Fresh (s : State ι ℓ σ) : Event ι → Prop
  | .load _ => True
  | .save i => ∀ l n, s.copy i = some (l, n) → n = s.log.length

/-- No save of the run is stale. -/
def FreshRun [DecidableEq ι] : State ι ℓ σ → List (Event ι) → Prop
  | _, [] => True
  | s, e :: events => Fresh s e ∧ FreshRun (step P s e) events

/-- What holds between events of a run without stale saves: `I` of the log and the record, and
`Link` between the record and each copy that has seen every save. -/
structure Inv (I : List (Write ι ℓ σ) → σ → Prop) (Link : ι → ℓ → σ → Prop) (s : State ι ℓ σ) :
    Prop where
  record : I s.log s.record
  copies : ∀ i l, s.copy i = some (l, s.log.length) → Link i l s.record
  seen : ∀ i l n, s.copy i = some (l, n) → n ≤ s.log.length

variable {P} {I : List (Write ι ℓ σ) → σ → Prop} {Link : ι → ℓ → σ → Prop} {s : State ι ℓ σ}

theorem Inv.init {record : σ} (h : I [] record) :
    Inv I Link (State.init record : State ι ℓ σ) where
  record := h
  copies := by
    intro i l hcopy
    cases hcopy
  seen := by
    intro i l n hcopy
    cases hcopy

/-- Another invariant of the record can take the place of `I` at any time. -/
theorem Inv.restart {J : List (Write ι ℓ σ) → σ → Prop} (h : Inv I Link s) (hJ : J s.log s.record) :
    Inv J Link s :=
  ⟨hJ, h.copies, h.seen⟩

variable [DecidableEq ι]

theorem Inv.load (h : Inv I Link s) (hload : ∀ i r, Link i (P.load i r) r) (i : ι) :
    Inv I Link (step P s (.load i)) where
  record := h.record
  copies := by
    intro j l hcopy
    by_cases hj : j = i
    · subst hj
      simp only [step, Function.update_self] at hcopy
      cases hcopy
      exact hload j s.record
    · simp only [step, Function.update_of_ne hj] at hcopy
      exact h.copies j l hcopy
  seen := by
    intro j l n hcopy
    by_cases hj : j = i
    · subst hj
      simp only [step, Function.update_self] at hcopy
      cases hcopy
      exact Nat.le_refl _
    · simp only [step, Function.update_of_ne hj] at hcopy
      exact h.seen j l n hcopy

theorem step_save_of_none {i : ι} (h : (s.copy i).bind (fun c => P.save i c.1) = none) :
    step P s (.save i) = s := by
  rw [step, h]

theorem step_save_of_some {i : ι} {r : σ} {l : ℓ}
    (h : (s.copy i).bind (fun c => P.save i c.1) = some (r, l)) :
    step P s (.save i) =
      { record := r
        log := s.log ++ [⟨i, s.record, r, l⟩]
        copy := Function.update s.copy i (some (l, s.log.length + 1)) } := by
  rw [step, h]

/-- A save, stale or not, keeps the invariant if what it writes is as `I` asks. -/
theorem Inv.save (h : Inv I Link s)
    (hlink : ∀ i l l' r', P.save i l = some (r', l') → Link i l' r') (i : ι)
    (hsave : ∀ l n r' l', s.copy i = some (l, n) → P.save i l = some (r', l') →
      I (s.log ++ [⟨i, s.record, r', l'⟩]) r') :
    Inv I Link (step P s (.save i)) := by
  cases hbind : (s.copy i).bind (fun c => P.save i c.1) with
  | none =>
    rw [step_save_of_none hbind]
    exact h
  | some rl =>
    obtain ⟨c, hcopy, hsaved⟩ := Option.bind_eq_some_iff.1 hbind
    rw [step_save_of_some hbind]
    have hlen : (s.log ++ [Write.mk i s.record rl.1 rl.2]).length = s.log.length + 1 := by simp
    refine ⟨hsave c.1 c.2 rl.1 rl.2 hcopy hsaved, ?_, ?_⟩
    · intro j l hj
      dsimp only at hj
      rw [hlen] at hj
      by_cases hji : j = i
      · subst hji
        rw [Function.update_self] at hj
        cases hj
        exact hlink j c.1 rl.2 rl.1 hsaved
      · rw [Function.update_of_ne hji] at hj
        have := h.seen j l _ hj
        omega
    · intro j l n hj
      dsimp only at hj
      rw [hlen]
      by_cases hji : j = i
      · subst hji
        rw [Function.update_self] at hj
        cases hj
        exact Nat.le_refl _
      · rw [Function.update_of_ne hji] at hj
        exact Nat.le_succ_of_le (h.seen j l n hj)

/-- What links a copy to the record holds in every run, stale saves or not. -/
theorem Inv.reachable {events : List (Event ι)} (hload : ∀ i r, Link i (P.load i r) r)
    (hlink : ∀ i l l' r', P.save i l = some (r', l') → Link i l' r')
    (h : Inv (fun _ _ => True) Link s) : Inv (fun _ _ => True) Link (run P s events) := by
  induction events generalizing s with
  | nil => exact h
  | cons e events ih =>
    apply ih
    cases e with
    | load i => exact h.load hload i
    | save i => exact h.save hlink i (fun _ _ _ _ _ _ => trivial)

/-- **The rule for all runs**: what every load takes over from the record to the copy, and every
save from the copy to the record. -/
theorem run_keeps {events : List (Event ι)} {R : σ → Prop} {C : ι → ℓ → Prop}
    (hload : ∀ i r, R r → C i (P.load i r))
    (hsave : ∀ i l l' r', C i l → P.save i l = some (r', l') → R r' ∧ C i l')
    (h : R s.record ∧ ∀ i l n, s.copy i = some (l, n) → C i l) :
    R (run P s events).record ∧ ∀ i l n, (run P s events).copy i = some (l, n) → C i l := by
  induction events generalizing s with
  | nil => exact h
  | cons e events ih =>
    obtain ⟨hrecord, hcopies⟩ := h
    apply ih
    cases e with
    | load i =>
      refine ⟨hrecord, ?_⟩
      intro j l n hcopy
      by_cases hj : j = i
      · subst hj
        simp only [step, Function.update_self] at hcopy
        cases hcopy
        exact hload j s.record hrecord
      · simp only [step, Function.update_of_ne hj] at hcopy
        exact hcopies j l n hcopy
    | save i =>
      cases hbind : (s.copy i).bind (fun c => P.save i c.1) with
      | none =>
        rw [step_save_of_none hbind]
        exact ⟨hrecord, hcopies⟩
      | some rl =>
        obtain ⟨c, hcopy, hsaved⟩ := Option.bind_eq_some_iff.1 hbind
        obtain ⟨hrecord', hlocal⟩ := hsave i c.1 rl.2 rl.1 (hcopies i c.1 c.2 hcopy) hsaved
        rw [step_save_of_some hbind]
        refine ⟨hrecord', ?_⟩
        intro j l n hj
        by_cases hji : j = i
        · subst hji
          simp only [Function.update_self] at hj
          cases hj
          exact hlocal
        · simp only [Function.update_of_ne hji] at hj
          exact hcopies j l n hj

/-- **The rule for runs without stale saves.** -/
theorem FreshRun.invariant {events : List (Event ι)} (hload : ∀ i r, Link i (P.load i r) r)
    (hlink : ∀ i l l' r', P.save i l = some (r', l') → Link i l' r')
    (hsave : ∀ i l l' r r' log, I log r → Link i l r → P.save i l = some (r', l') →
      I (log ++ [⟨i, r, r', l'⟩]) r')
    (hfresh : FreshRun P s events) (h : Inv I Link s) : Inv I Link (run P s events) := by
  induction events generalizing s with
  | nil => exact h
  | cons e events ih =>
    obtain ⟨he, hrest⟩ := hfresh
    apply ih hrest
    cases e with
    | load i => exact h.load hload i
    | save i =>
      apply h.save hlink i
      intro l n r' l' hcopy hsaved
      -- the copy has seen every save, so it is linked to the record
      have hseen := he l n hcopy
      rw [hseen] at hcopy
      exact hsave i l l' s.record r' s.log h.record (h.copies i l hcopy) hsaved

instance (s : State ι ℓ σ) (e : Event ι) : Decidable (Fresh s e) :=
  match e with
  | .load _ => isTrue trivial
  | .save i =>
    match h : s.copy i with
    | none => isTrue (by
        intro l n hcopy
        rw [h] at hcopy
        cases hcopy)
    | some c =>
      if hc : c.2 = s.log.length then isTrue (by
        intro l n hcopy
        rw [h] at hcopy
        cases hcopy
        exact hc)
      else isFalse (fun hall => hc (hall c.1 c.2 h))

instance decidableFreshRun (s : State ι ℓ σ) : ∀ events, Decidable (FreshRun P s events)
  | [] => isTrue trivial
  | e :: events =>
    have := decidableFreshRun (step P s e) events
    inferInstanceAs (Decidable (Fresh s e ∧ FreshRun P (step P s e) events))

end SharedRecord
