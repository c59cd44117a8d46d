import Mathlib.Algebra.Order.Ring.Int
import Mathlib.Data.Nat.Notation
import Mathlib.Tactic.IntervalCases

/-!
# The Gregorian calendar

Days are counted in both directions from the first of January 1970, a Thursday.

* `yearStart`, `year`: the first day of a year, and the year of a day;
* `month`, `dayOfMonth`, `weekday`: what else a day is called; `0` is Sunday;
* `yearStart_le`, `year_eq`: a day is in its year, and in no other;
* `dayOfMonth_le`: a day is one of its month;
* `exists_day`: in 28 years, every day of every month is every day of the week.
-/

namespace Calendar

/-- A year with a 29th of February. -/
def isLeap (y : ℤ) : Bool := y % 4 = 0 && (y % 100 ≠ 0 || y % 400 = 0)

/-- The first day of a year. -/
def yearStart (y : ℤ) : ℤ :=
  365 * (y - 1970) + ((y - 1) / 4 - (y - 1) / 100 + (y - 1) / 400) - 477

/-- The year of a day: 400 years have 146097 days, and the quotient is off by one at most. -/
def year (n : ℤ) : ℤ :=
  let y := 1970 + 400 * n / 146097
  if n < yearStart y then y - 1 else if yearStart (y + 1) ≤ n then y + 1 else y

/-- The lengths of the months. -/
def monthLengths (leap : Bool) : List ℕ :=
  [31, if leap then 29 else 28, 31, 30, 31, 30, 31, 31, 30, 31, 30, 31]

/-- The length of a month in its longest year. -/
def monthLength (m : ℕ) : ℕ := (monthLengths true).getD (m - 1) 0

/-- The month and the day of the month, from the months that are still to come. -/
def monthDay : List ℕ → ℕ → ℕ × ℕ
  | [], d => (1, d + 1)
  | len :: lens, d =>
    if d < len then (1, d + 1) else ((monthDay lens (d - len)).1 + 1, (monthDay lens (d - len)).2)

/-- The month and the day of the month of a day. -/
def date (n : ℤ) : ℕ × ℕ :=
  monthDay (monthLengths (isLeap (year n))) (n - yearStart (year n)).toNat

/-- The month of a day, from `1`. -/
def month (n : ℤ) : ℕ := (date n).1

/-- The day of the month of a day, from `1`. -/
def dayOfMonth (n : ℤ) : ℕ := (date n).2

/-- The day of the week of a day, from Sunday. -/
def weekday (n : ℤ) : ℕ := ((n + 4) % 7).toNat

/-! ### Years -/

theorem yearStart_succ (y : ℤ) :
    yearStart (y + 1) = yearStart y + (monthLengths (isLeap y)).sum := by
  have hlen : ((monthLengths (isLeap y)).sum : ℤ) = if isLeap y then 366 else 365 := by
    cases isLeap y <;> rfl
  rw [hlen]
  simp only [yearStart, isLeap, Bool.and_eq_true, Bool.or_eq_true, decide_eq_true_eq, ne_eq]
  split_ifs <;> omega

/-- Years follow one another. -/
theorem yearStart_succ_le {a b : ℤ} (h : a < b) : yearStart (a + 1) ≤ yearStart b := by
  simp only [yearStart]
  omega

theorem yearStart_le (n : ℤ) : yearStart (year n) ≤ n ∧ n < yearStart (year n + 1) := by
  simp only [year]
  have hlow : yearStart (1970 + 400 * n / 146097 - 1) ≤ n := by
    simp only [yearStart]
    omega
  have hhigh : n < yearStart (1970 + 400 * n / 146097 + 1 + 1) := by
    simp only [yearStart]
    omega
  split_ifs with hbefore hafter
  · exact ⟨hlow, by simpa using hbefore⟩
  · exact ⟨hafter, hhigh⟩
  · exact ⟨not_lt.1 hbefore, not_le.1 hafter⟩

theorem year_eq {n y : ℤ} (hlow : yearStart y ≤ n) (hhigh : n < yearStart (y + 1)) :
    year n = y := by
  obtain ⟨hstart, hend⟩ := yearStart_le n
  rcases lt_trichotomy (year n) y with h | h | h
  · exact absurd (yearStart_succ_le h) (by omega)
  · exact h
  · exact absurd (yearStart_succ_le h) (by omega)

/-- The years between two years are those of the days between them. -/
theorem year_mem_Ico {a b n : ℤ} (hlow : yearStart a ≤ n) (hhigh : n < yearStart b) :
    a ≤ year n ∧ year n < b := by
  obtain ⟨hstart, hend⟩ := yearStart_le n
  constructor
  · by_contra hlt
    have := yearStart_succ_le (not_le.1 hlt)
    omega
  · by_contra hle
    rcases (not_lt.1 hle).eq_or_lt with heq | hlt
    · rw [heq] at hhigh
      omega
    · have := yearStart_succ_le hlt
      have := yearStart_succ b
      omega

/-! ### Months -/

theorem monthDay_mem {lens : List ℕ} {d : ℕ} (h : d < lens.sum) :
    1 ≤ (monthDay lens d).1 ∧ (monthDay lens d).1 ≤ lens.length ∧ 1 ≤ (monthDay lens d).2 ∧
      (monthDay lens d).2 ≤ lens.getD ((monthDay lens d).1 - 1) 0 := by
  induction lens generalizing d with
  | nil => exact absurd h (Nat.not_lt_zero d)
  | cons len lens ih =>
    rw [List.sum_cons] at h
    rw [monthDay]
    split_ifs with hd
    · exact ⟨le_rfl, by simp, by simp, by simpa using Nat.succ_le_of_lt hd⟩
    · obtain ⟨hfirst, hlast, hday, hle⟩ := ih (d := d - len) (by omega)
      refine ⟨by simp, by simpa using hlast, hday, ?_⟩
      obtain ⟨k, hk⟩ := Nat.exists_eq_add_of_le' hfirst
      rw [hk] at hle ⊢
      simpa using hle

/-- The day `d` of the month after the first `k`, both counted from `0`. -/
theorem monthDay_eq {lens : List ℕ} {k d : ℕ} (hd : d < lens.getD k 0) :
    monthDay lens ((lens.take k).sum + d) = (k + 1, d + 1) := by
  induction lens generalizing k with
  | nil => simp at hd
  | cons len lens ih =>
    cases k with
    | zero =>
      rw [List.take_zero, List.sum_nil, Nat.zero_add, monthDay, if_pos (by simpa using hd)]
    | succ k =>
      have hrest := ih (by simpa using hd)
      rw [List.take_succ_cons, List.sum_cons, monthDay, if_neg (by omega),
        show len + (lens.take k).sum + d - len = (lens.take k).sum + d by omega, hrest]

theorem sum_take_add_lt {lens : List ℕ} {k d : ℕ} (hd : d < lens.getD k 0) :
    (lens.take k).sum + d < lens.sum := by
  induction lens generalizing k with
  | nil => simp at hd
  | cons len lens ih =>
    cases k with
    | zero =>
      have : d < len := by simpa using hd
      simp only [List.take_zero, List.sum_nil, List.sum_cons]
      omega
    | succ k =>
      have := ih (by simpa using hd)
      simp only [List.take_succ_cons, List.sum_cons]
      omega

theorem length_le_monthLength (leap : Bool) (k : ℕ) :
    (monthLengths leap).getD k 0 ≤ (monthLengths true).getD k 0 := by
  cases leap with
  | true => exact le_rfl
  | false => rcases k with _ | _ | k <;> simp [monthLengths]

theorem month_mem (n : ℤ) : 1 ≤ month n ∧ month n ≤ 12 := by
  obtain ⟨hstart, hend⟩ := yearStart_le n
  rw [yearStart_succ] at hend
  obtain ⟨hfirst, hlast, -⟩ := @monthDay_mem (monthLengths (isLeap (year n)))
    (n - yearStart (year n)).toNat (by omega)
  exact ⟨hfirst, hlast⟩

theorem dayOfMonth_le (n : ℤ) : 1 ≤ dayOfMonth n ∧ dayOfMonth n ≤ monthLength (month n) := by
  obtain ⟨hstart, hend⟩ := yearStart_le n
  rw [yearStart_succ] at hend
  obtain ⟨-, -, hday, hle⟩ := @monthDay_mem (monthLengths (isLeap (year n)))
    (n - yearStart (year n)).toNat (by omega)
  exact ⟨hday, hle.trans (length_le_monthLength ..)⟩

theorem weekday_lt (n : ℤ) : weekday n < 7 := by
  unfold weekday
  omega

/-- The day `d` of the month after the first `k` of a year. -/
theorem date_eq {y : ℤ} {k d : ℕ} (hd : d < (monthLengths (isLeap y)).getD k 0) :
    date (yearStart y + (((monthLengths (isLeap y)).take k).sum + d : ℕ)) = (k + 1, d + 1) := by
  have hsum := sum_take_add_lt hd
  have hyear : year (yearStart y + (((monthLengths (isLeap y)).take k).sum + d : ℕ)) = y :=
    year_eq (by omega) (by rw [yearStart_succ]; omega)
  rw [date, hyear, show (yearStart y + (((monthLengths (isLeap y)).take k).sum + d : ℕ) -
    yearStart y).toNat = ((monthLengths (isLeap y)).take k).sum + d by omega, monthDay_eq hd]

/-! ### Days of the week -/

/-- Within 28 years from 1972 or 2000 a leap year begins on every day of the week. -/
theorem exists_leap_yearStart : ∀ start ∈ [1972, 2000], ∀ w < 7, ∃ i < 28,
    isLeap (start + (i : ℕ)) = true ∧ weekday (yearStart (start + (i : ℕ))) = w := by
  decide

/-- In 28 years, every day of every month is every day of the week. -/
theorem exists_day {start : ℤ} (hstart : start ∈ [1972, 2000]) {m d w : ℕ} (hm : 1 ≤ m)
    (hm' : m ≤ 12) (hd : 1 ≤ d) (hd' : d ≤ monthLength m) (hw : w < 7) :
    ∃ n, yearStart start ≤ n ∧ n < yearStart (start + 28) ∧ month n = m ∧ dayOfMonth n = d ∧
      weekday n = w := by
  obtain ⟨k, rfl⟩ := Nat.exists_eq_add_of_le' hm
  obtain ⟨d, rfl⟩ := Nat.exists_eq_add_of_le' hd
  have hlen : d < (monthLengths true).getD k 0 := hd'
  -- The month has to begin on the day of the week `d` days before `w`.
  obtain ⟨i, hi, hleap, hweekday⟩ := exists_leap_yearStart start hstart
    ((w + 6 * (((monthLengths true).take k).sum + d)) % 7) (Nat.mod_lt _ (by decide))
  have hin : d < (monthLengths (isLeap (start + (i : ℕ)))).getD k 0 := by rwa [hleap]
  have hdate := date_eq hin
  have hsum := sum_take_add_lt hin
  have hnext := yearStart_succ (start + (i : ℕ))
  have hfirst : yearStart start ≤ yearStart (start + (i : ℕ)) := by
    simp only [yearStart]
    omega
  have hlast : yearStart (start + (i : ℕ) + 1) ≤ yearStart (start + 28) :=
    yearStart_succ_le (by omega)
  refine ⟨_, ?_, ?_, congrArg Prod.fst hdate, congrArg Prod.snd hdate, ?_⟩
  · omega
  · omega
  · rw [hleap]
    simp only [weekday] at hweekday ⊢
    omega

example : (year 19782, date 19782, weekday 19782) = (2024, (2, 29), 4) := by decide

end Calendar
