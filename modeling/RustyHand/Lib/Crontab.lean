import Mathlib.Data.Int.LeastGreatest
import Mathlib.Order.Bounds.Basic
import Mathlib.Tactic.Ring
import RustyHand.Lib.Calendar

/-!
# Cron expressions

An expression has a field for each part of a moment, and a field is a list of values, ranges and
steps.  Two conventions give meaning to the same text:

* `standard`: the days of the week are `0` to `7`, both of these Sunday, and of the two fields for
  days one is enough when both are restricted;
* `sundayFirst`: the days of the week are `1` to `7` from Sunday on, and every field has to match.

`Field` and `Expression` are what is read, `Expression.Matches` says which moments match, and
`matches_iff_sameDays` tells for one text when the two conventions mean the same.  `SevenFields` is
the form with seconds and years.
-/

namespace Crontab

/-! ### Fields -/

/-- The values `first`, `first + step`, and so on up to `last`, among those from `lo` to `hi`. -/
structure Item (lo hi : ℕ) where
  first : ℕ
  last : ℕ
  step : ℕ
  lo_le : lo ≤ first
  first_le : first ≤ last
  last_le : last ≤ hi
  step_pos : 0 < step

/-- A value of an item. -/
def Item.Has {lo hi : ℕ} (i : Item lo hi) (v : ℕ) : Prop :=
  i.first ≤ v ∧ v ≤ i.last ∧ i.step ∣ v - i.first

instance {lo hi : ℕ} (i : Item lo hi) : DecidablePred i.Has :=
  fun v => inferInstanceAs (Decidable (i.first ≤ v ∧ v ≤ i.last ∧ i.step ∣ v - i.first))

/-- A field: one item or more. -/
structure Field (lo hi : ℕ) where
  first : Item lo hi
  rest : List (Item lo hi)

/-- A value of a field. -/
def Field.Has {lo hi : ℕ} (f : Field lo hi) (v : ℕ) : Prop := ∃ i ∈ f.first :: f.rest, i.Has v

instance {lo hi : ℕ} (f : Field lo hi) : DecidablePred f.Has :=
  fun v => inferInstanceAs (Decidable (∃ i ∈ f.first :: f.rest, i.Has v))

theorem Field.exists_has {lo hi : ℕ} (f : Field lo hi) : ∃ v, f.Has v :=
  ⟨f.first.first, f.first, List.mem_cons_self, le_rfl, f.first.first_le, by simp⟩

theorem Field.Has.mem {lo hi v : ℕ} {f : Field lo hi} (h : f.Has v) : lo ≤ v ∧ v ≤ hi := by
  obtain ⟨i, -, hfirst, hlast, -⟩ := h
  exact ⟨i.lo_le.trans hfirst, hlast.trans i.last_le⟩

/-! ### How a field is read -/

/-- A number. -/
def number (cs : List Char) : Option ℕ :=
  if cs ≠ [] ∧ cs.all Char.isDigit then some (Nat.ofDigitChars 10 cs 0) else none

/-- An item, if its values are in their bounds. -/
def makeItem (lo hi first last step : ℕ) : Option (Item lo hi) :=
  if h : lo ≤ first ∧ first ≤ last ∧ last ≤ hi ∧ 0 < step then
    some ⟨first, last, step, h.1, h.2.1, h.2.2.1, h.2.2.2⟩
  else none

/-- The ends of a range: `*`, `a` or `a-b`, and `?` where that is allowed.  A number before a step
is where a range up to the greatest value begins. -/
def ends (lo hi : ℕ) (question stepped : Bool) (cs : List Char) : Option (ℕ × ℕ) :=
  if cs = ['*'] ∨ question = true ∧ cs = ['?'] then some (lo, hi)
  else
    match cs.splitOn '-' with
    | [a] => (number a).map fun n => (n, if stepped then hi else n)
    | [a, b] => do
      let first ← number a
      let last ← number b
      some (first, last)
    | _ => none

/-- An item: a range, and perhaps a step after a slash. -/
def readItem (lo hi : ℕ) (question : Bool) (cs : List Char) : Option (Item lo hi) :=
  match cs.splitOn '/' with
  | [range] => do
    let r ← ends lo hi question false range
    makeItem lo hi r.1 r.2 1
  | [range, step] => do
    let r ← ends lo hi question true range
    let step ← (number step).filter (· ≤ hi)
    makeItem lo hi r.1 r.2 step
  | _ => none

/-- A field: items with commas between them. -/
def readField (lo hi : ℕ) (question : Bool) (cs : List Char) : Option (Field lo hi) :=
  match (cs.splitOn ',').mapM (readItem lo hi question) with
  | some (i :: items) => some ⟨i, items⟩
  | _ => none

/-- A blank between fields. -/
def isBlank (c : Char) : Bool := c = ' ' || c = '\t' || c = '\n' || c = '\r'

/-- The fields of a text. -/
def columns (text : List Char) : List (List Char) := (text.splitOnP isBlank).filter (· ≠ [])

theorem number_toDigits (n : ℕ) : number (Nat.toDigits 10 n) = some n := by
  have hdigits : (Nat.toDigits 10 n).all Char.isDigit = true := List.all_eq_true.2 fun d hd =>
    Nat.isDigit_of_mem_toDigits (by decide) (by decide) hd
  rw [number, if_pos ⟨Nat.toDigits_ne_nil, hdigits⟩, Nat.ofDigitChars_ten_toDigits]

theorem not_mem_toDigits (n : ℕ) {c : Char} (hc : c.isDigit = false) : c ∉ Nat.toDigits 10 n :=
  fun h => absurd (Nat.isDigit_of_mem_toDigits (by decide) (by decide) h) (by simp [hc])

theorem number_bounds {lo hi n : ℕ} (question stepped : Bool) :
    ends lo hi question stepped (Nat.toDigits 10 n) = some (n, if stepped then hi else n) := by
  have hsign : ∀ c : Char, c.isDigit = false → Nat.toDigits 10 n ≠ [c] := fun c hc h =>
    not_mem_toDigits n hc (h ▸ List.mem_singleton_self c)
  rw [ends, if_neg (by simp [hsign '*' rfl, hsign '?' rfl]),
    List.splitOn_eq_singleton (not_mem_toDigits n rfl)]
  simp [number_toDigits]

theorem readField_singleton {lo hi : ℕ} {question : Bool} {cs : List Char} {i : Item lo hi}
    (hcomma : ',' ∉ cs) (h : readItem lo hi question cs = some i) :
    readField lo hi question cs = some ⟨i, []⟩ := by
  rw [readField, List.splitOn_eq_singleton hcomma]
  simp [h]

theorem readField_number {lo hi n : ℕ} (question : Bool) (hlo : lo ≤ n) (hhi : n ≤ hi) :
    ∃ f, readField lo hi question (Nat.toDigits 10 n) = some f ∧ ∀ v, f.Has v ↔ v = n := by
  refine ⟨⟨⟨n, n, 1, hlo, le_rfl, hhi, by decide⟩, []⟩,
    readField_singleton (not_mem_toDigits n rfl) ?_, fun v => ?_⟩
  · rw [readItem, List.splitOn_eq_singleton (not_mem_toDigits n rfl)]
    simp [number_bounds, makeItem, hlo, hhi]
  · simp only [Field.Has, List.mem_singleton, exists_eq_left, Item.Has]
    constructor
    · rintro ⟨hfirst, hlast, -⟩
      omega
    · rintro rfl
      exact ⟨le_rfl, le_rfl, one_dvd _⟩

theorem readField_star {lo hi : ℕ} (question : Bool) (h : lo ≤ hi) :
    ∃ f, readField lo hi question ['*'] = some f ∧ ∀ v, f.Has v ↔ lo ≤ v ∧ v ≤ hi := by
  refine ⟨⟨⟨lo, hi, 1, le_rfl, h, le_rfl, by decide⟩, []⟩,
    readField_singleton (by decide) ?_, fun v => ?_⟩
  · rw [readItem, List.splitOn_eq_singleton (by decide)]
    simp [ends, makeItem, h]
  · simp [Field.Has, Item.Has]

/-- A star with a step is read as every `n`-th value. -/
theorem readField_step {hi n : ℕ} (question : Bool) (hn : 1 ≤ n) (hn' : n ≤ hi) :
    ∃ f, readField 0 hi question ('*' :: '/' :: Nat.toDigits 10 n) = some f ∧
      ∀ v, f.Has v ↔ v ≤ hi ∧ n ∣ v := by
  refine ⟨⟨⟨0, hi, n, le_rfl, Nat.zero_le hi, le_rfl, hn⟩, []⟩,
    readField_singleton (by simp [not_mem_toDigits]) ?_, fun v => ?_⟩
  · have hsplit : ('*' :: '/' :: Nat.toDigits 10 n).splitOn '/' = [['*'], Nat.toDigits 10 n] := by
      rw [show '*' :: '/' :: Nat.toDigits 10 n = ['*'] ++ '/' :: Nat.toDigits 10 n from rfl,
        List.splitOn_append_cons_self_of_not_mem (by decide : '/' ∉ ['*']),
        List.splitOn_eq_singleton (not_mem_toDigits n rfl)]
    rw [readItem, hsplit]
    simp [ends, makeItem, number_toDigits, Option.filter, hn',
      Nat.lt_of_lt_of_le Nat.zero_lt_one hn]
  · simp [Field.Has, Item.Has]

/-- With more values below, what was read is read still. -/
theorem ends_of_le {lo lo' hi : ℕ} {question stepped : Bool} {cs : List Char} {r : ℕ × ℕ}
    (hlo : lo' ≤ lo) (h : ends lo hi question stepped cs = some r) (hfirst : lo ≤ r.1)
    (hlast : r.1 ≤ r.2) :
    ∃ r', ends lo' hi question stepped cs = some r' ∧ lo' ≤ r'.1 ∧ r'.1 ≤ r'.2 ∧ r'.2 = r.2 := by
  by_cases hstar : cs = ['*'] ∨ question = true ∧ cs = ['?']
  · rw [ends, if_pos hstar] at h
    cases h
    exact ⟨(lo', hi), by rw [ends, if_pos hstar], le_rfl, hlo.trans hlast, rfl⟩
  · rw [ends, if_neg hstar] at h
    exact ⟨r, by rw [ends, if_neg hstar, h], hlo.trans hfirst, hlast, rfl⟩

theorem makeItem_eq_some {lo hi first last step : ℕ} {i : Item lo hi}
    (h : makeItem lo hi first last step = some i) :
    lo ≤ first ∧ first ≤ last ∧ last ≤ hi ∧ 0 < step := by
  unfold makeItem at h
  split_ifs at h with hin
  exact hin

theorem exists_readItem_of_le {lo lo' hi : ℕ} {question : Bool} {cs : List Char} {i : Item lo hi}
    (hlo : lo' ≤ lo) (h : readItem lo hi question cs = some i) :
    ∃ j, readItem lo' hi question cs = some j := by
  unfold readItem at h ⊢
  split at h
  · obtain ⟨r, hr, hmake⟩ := Option.bind_eq_some_iff.1 h
    obtain ⟨hfirst, hle, hlast, hstep⟩ := makeItem_eq_some hmake
    obtain ⟨r', hr', hfirst', hle', heq⟩ := ends_of_le hlo hr hfirst hle
    exact ⟨_, Option.bind_eq_some_iff.2 ⟨r', hr', dif_pos ⟨hfirst', hle', heq ▸ hlast, hstep⟩⟩⟩
  · obtain ⟨r, hr, hmake⟩ := Option.bind_eq_some_iff.1 h
    obtain ⟨step, hstep, hmake⟩ := Option.bind_eq_some_iff.1 hmake
    obtain ⟨hfirst, hle, hlast, hpos⟩ := makeItem_eq_some hmake
    obtain ⟨r', hr', hfirst', hle', heq⟩ := ends_of_le hlo hr hfirst hle
    exact ⟨_, Option.bind_eq_some_iff.2 ⟨r', hr', Option.bind_eq_some_iff.2
      ⟨step, hstep, dif_pos ⟨hfirst', hle', heq ▸ hlast, hpos⟩⟩⟩⟩
  · exact nomatch h

theorem exists_readField_of_le {lo lo' hi : ℕ} {question : Bool} {cs : List Char} {f : Field lo hi}
    (hlo : lo' ≤ lo) (h : readField lo hi question cs = some f) :
    ∃ g, readField lo' hi question cs = some g := by
  have hmap : ∀ (texts : List (List Char)) items,
      texts.mapM (readItem lo hi question) = some items →
      ∃ items', texts.mapM (readItem lo' hi question) = some items' ∧
        items'.length = items.length := by
    intro texts
    induction texts with
    | nil =>
      intro items hitems
      cases hitems
      exact ⟨[], rfl, rfl⟩
    | cons text texts ih =>
      intro items hitems
      rw [List.mapM_cons] at hitems
      obtain ⟨i, hi, hrest⟩ := Option.bind_eq_some_iff.1 hitems
      obtain ⟨is, his, heq⟩ := Option.bind_eq_some_iff.1 hrest
      cases heq
      obtain ⟨j, hj⟩ := exists_readItem_of_le hlo hi
      obtain ⟨js, hjs, hlen⟩ := ih is his
      exact ⟨j :: js, by simp [hj, hjs], by simp [hlen]⟩
  unfold readField at h ⊢
  split at h
  · rename_i i items hitems
    obtain ⟨items', hitems', hlen⟩ := hmap _ _ hitems
    cases items' with
    | nil => exact nomatch hlen
    | cons j js => exact ⟨⟨j, js⟩, by rw [hitems']⟩
  · exact nomatch h

/-! ### Columns -/

theorem columns_append_cons (xs ys : List Char) {b : Char} (hb : isBlank b = true) :
    columns (xs ++ b :: ys) = columns xs ++ columns ys := by
  rw [columns, List.splitOnP_append_cons xs ys hb, List.filter_append, columns, columns]

theorem columns_of_word {w : List Char} (hne : w ≠ []) (h : ∀ c ∈ w, isBlank c = false) :
    columns w = [w] := by
  rw [columns, List.splitOnP_eq_singleton h, List.filter_cons_of_pos (by simpa using hne),
    List.filter_nil]

/-! ### Expressions -/

/-- What the numbers of the days of the week mean, and how the days are picked. -/
inductive Convention
  | standard
  | sundayFirst

/-- The least number of a day of the week. -/
def Convention.least : Convention → ℕ
  | .standard => 0
  | .sundayFirst => 1

/-- What the two conventions read alike.  A field is free when it begins with a star. -/
structure Times where
  minute : Field 0 59
  hour : Field 0 23
  dayOfMonth : Field 1 31
  month : Field 1 12
  freeDayOfMonth : Bool
  freeDayOfWeek : Bool

/-- An expression of five fields. -/
structure Expression (c : Convention) where
  times : Times
  dayOfWeek : Field c.least 7

/-- A field that does not restrict anything. -/
def isFree (cs : List Char) : Bool := cs.head? = some '*' || cs.head? = some '?'

/-- An expression, from its columns. -/
def read (c : Convention) : List (List Char) → Option (Expression c)
  | [minute, hour, dayOfMonth, month, dayOfWeek] => do
    let minute ← readField 0 59 false minute
    let hour ← readField 0 23 false hour
    let month ← readField 1 12 false month
    let days ← readField 1 31 true dayOfMonth
    let weekdays ← readField c.least 7 true dayOfWeek
    some ⟨⟨minute, hour, days, month, isFree dayOfMonth, isFree dayOfWeek⟩, weekdays⟩
  | _ => none

/-- A minute of some day. -/
structure Moment where
  minute : ℕ
  hour : ℕ
  dayOfMonth : ℕ
  month : ℕ
  weekday : ℕ

/-- A day of the week, from Sunday, that a field picks. -/
def OnWeekday : (c : Convention) → Field c.least 7 → ℕ → Prop
  | .standard, f, w => f.Has w ∨ w = 0 ∧ f.Has 7
  | .sundayFirst, f, w => f.Has (w + 1)

/-- A day of the month and of the week on which an expression may match. -/
def Expression.OnDay : {c : Convention} → Expression c → ℕ → ℕ → Prop
  | .standard, e, d, w =>
    if e.times.freeDayOfMonth || e.times.freeDayOfWeek then
      e.times.dayOfMonth.Has d ∧ OnWeekday .standard e.dayOfWeek w
    else e.times.dayOfMonth.Has d ∨ OnWeekday .standard e.dayOfWeek w
  | .sundayFirst, e, d, w => e.times.dayOfMonth.Has d ∧ OnWeekday .sundayFirst e.dayOfWeek w

/-- An expression matches a moment. -/
def Expression.Matches {c : Convention} (e : Expression c) (p : Moment) : Prop :=
  e.times.minute.Has p.minute ∧ e.times.hour.Has p.hour ∧ e.times.month.Has p.month ∧
    e.OnDay p.dayOfMonth p.weekday

instance : (c : Convention) → (f : Field c.least 7) → DecidablePred (OnWeekday c f)
  | .standard, f => fun w => inferInstanceAs (Decidable (f.Has w ∨ w = 0 ∧ f.Has 7))
  | .sundayFirst, f => fun w => inferInstanceAs (Decidable (f.Has (w + 1)))

theorem OnWeekday.exists : {c : Convention} → (f : Field c.least 7) →
    ∃ w < 7, OnWeekday c f w
  | .standard, f => by
    obtain ⟨v, hv⟩ := f.exists_has
    rcases hv.mem.2.eq_or_lt with rfl | hlt
    · exact ⟨0, by decide, .inr ⟨rfl, hv⟩⟩
    · exact ⟨v, hlt, .inl hv⟩
  | .sundayFirst, f => by
    obtain ⟨v, hv⟩ := f.exists_has
    have hlow : 1 ≤ v := hv.mem.1
    have hhigh : v ≤ 7 := hv.mem.2
    obtain ⟨w, rfl⟩ := Nat.exists_eq_add_of_le' hlow
    exact ⟨w, by omega, hv⟩

theorem read_of_fields {c : Convention} {m h d o w : List Char} {fm : Field 0 59} {fh : Field 0 23}
    {fd : Field 1 31} {fo : Field 1 12} {fw : Field c.least 7}
    (hm : readField 0 59 false m = some fm) (hh : readField 0 23 false h = some fh)
    (hd : readField 1 31 true d = some fd) (ho : readField 1 12 false o = some fo)
    (hw : readField c.least 7 true w = some fw) :
    read c [m, h, d, o, w] = some ⟨⟨fm, fh, fd, fo, isFree d, isFree w⟩, fw⟩ := by
  simp only [read, hm, hh, hd, ho, hw, Option.bind_eq_bind, Option.bind_some]

theorem read_eq_some {c : Convention} {cs : List (List Char)} {e : Expression c}
    (h : read c cs = some e) : ∃ minute hour dayOfMonth month dayOfWeek,
      cs = [minute, hour, dayOfMonth, month, dayOfWeek] ∧
      readField 0 59 false minute = some e.times.minute ∧
      readField 0 23 false hour = some e.times.hour ∧
      readField 1 12 false month = some e.times.month ∧
      readField 1 31 true dayOfMonth = some e.times.dayOfMonth ∧
      readField c.least 7 true dayOfWeek = some e.dayOfWeek ∧
      e.times.freeDayOfMonth = isFree dayOfMonth ∧ e.times.freeDayOfWeek = isFree dayOfWeek := by
  unfold read at h
  split at h
  · rename_i minute hour dayOfMonth month dayOfWeek
    simp only [Option.bind_eq_bind, Option.bind_eq_some_iff, Option.some.injEq] at h
    obtain ⟨fm, hm, fh, hh, fmo, hmo, fd, hd, fw, hw, rfl⟩ := h
    exact ⟨minute, hour, dayOfMonth, month, dayOfWeek, rfl, hm, hh, hmo, hd, hw, rfl, rfl⟩
  · exact nomatch h

theorem times_eq_of_read {c d : Convention} {cs : List (List Char)} {e : Expression c}
    {f : Expression d} (he : read c cs = some e) (hf : read d cs = some f) :
    f.times = e.times := by
  obtain ⟨mi, h, d, mo, w, rfl, hmi, hh, hmo, hd, -, hfd, hfw⟩ := read_eq_some he
  obtain ⟨mi', h', d', mo', w', heq, hmi', hh', hmo', hd', -, hfd', hfw'⟩ := read_eq_some hf
  simp only [List.cons.injEq, and_true] at heq
  obtain ⟨rfl, rfl, rfl, rfl, rfl⟩ := heq
  rcases he' : e.times with ⟨em, eh, ed, emo, efd, efw⟩
  rcases hf' : f.times with ⟨fm, fh, fd, fmo, ffd, ffw⟩
  simp only [he', hf'] at *
  simp_all

theorem exists_read_standard {cs : List (List Char)} {e : Expression .sundayFirst}
    (h : read .sundayFirst cs = some e) : ∃ f, read .standard cs = some f := by
  obtain ⟨mi, hr, d, mo, w, rfl, hmi, hhr, hmo, hd, hw, -, -⟩ := read_eq_some h
  obtain ⟨g, hg⟩ := exists_readField_of_le
    (show Convention.standard.least ≤ Convention.sundayFirst.least by decide) hw
  exact ⟨_, read_of_fields hmi hhr hd hmo hg⟩

/-! ### Moments -/

/-- The moment of a minute, counted from the first of January 1970. -/
def moment (k : ℤ) : Moment where
  minute := (k % 60).toNat
  hour := (k / 60 % 24).toNat
  dayOfMonth := Calendar.dayOfMonth (k / 1440)
  month := Calendar.month (k / 1440)
  weekday := Calendar.weekday (k / 1440)

/-- A moment of the calendar. -/
structure Moment.Real (p : Moment) : Prop where
  minute_lt : p.minute < 60
  hour_lt : p.hour < 24
  month_pos : 1 ≤ p.month
  month_le : p.month ≤ 12
  day_pos : 1 ≤ p.dayOfMonth
  day_le : p.dayOfMonth ≤ Calendar.monthLength p.month
  weekday_lt : p.weekday < 7

theorem moment_real (k : ℤ) : (moment k).Real where
  minute_lt := by
    simp only [moment]
    omega
  hour_lt := by
    simp only [moment]
    omega
  month_pos := (Calendar.month_mem _).1
  month_le := (Calendar.month_mem _).2
  day_pos := (Calendar.dayOfMonth_le _).1
  day_le := (Calendar.dayOfMonth_le _).2
  weekday_lt := Calendar.weekday_lt _

/-- The first minute of a year. -/
def yearStart (y : ℤ) : ℤ := 1440 * Calendar.yearStart y

/-- The year of a minute. -/
def year (k : ℤ) : ℤ := Calendar.year (k / 1440)

theorem year_mem_Ico {a b k : ℤ} (hlow : yearStart a ≤ k) (hhigh : k < yearStart b) :
    a ≤ year k ∧ year k < b := by
  unfold yearStart at hlow hhigh
  exact Calendar.year_mem_Ico (by omega) (by omega)

/-- In 28 years, every moment of the calendar is one of some minute. -/
theorem exists_moment {start : ℤ} (hstart : start ∈ [1972, 2000]) {p : Moment} (hp : p.Real) :
    ∃ k, yearStart start ≤ k ∧ k < yearStart (start + 28) ∧ moment k = p := by
  obtain ⟨n, hlow, hhigh, hmonth, hday, hweekday⟩ := Calendar.exists_day hstart hp.month_pos
    hp.month_le hp.day_pos hp.day_le hp.weekday_lt
  have hminute := hp.minute_lt
  have hhour := hp.hour_lt
  have hn : (1440 * n + 60 * p.hour + p.minute) / 1440 = n := by omega
  refine ⟨1440 * n + 60 * p.hour + p.minute, ?_, ?_, ?_⟩
  · unfold yearStart
    omega
  · unfold yearStart
    omega
  · rcases p with ⟨minute, hour, day, month, weekday⟩
    simp only [moment, hn, hmonth, hday, hweekday, Moment.mk.injEq, and_true] at *
    omega

/-! ### The two conventions -/

/-- Two readings pick the same days.  Where one of the fields for days is free, the days of the week
are the same; where both are restricted, each of them admits every day. -/
def SameDays (e : Expression .sundayFirst) (f : Expression .standard) : Prop :=
  if e.times.freeDayOfMonth || e.times.freeDayOfWeek then
    ∀ w < 7, OnWeekday .sundayFirst e.dayOfWeek w ↔ OnWeekday .standard f.dayOfWeek w
  else
    (∀ w < 7, OnWeekday .sundayFirst e.dayOfWeek w) ∧
      ∀ m < 13, e.times.month.Has m → ∀ d < Calendar.monthLength m + 1, 1 ≤ d →
        e.times.dayOfMonth.Has d

instance (e : Expression .sundayFirst) (f : Expression .standard) : Decidable (SameDays e f) :=
  inferInstanceAs (Decidable (ite _ _ _))

theorem onDay_standard {f : Expression .standard} (d w : ℕ) :
    f.OnDay d w = if f.times.freeDayOfMonth || f.times.freeDayOfWeek then
      f.times.dayOfMonth.Has d ∧ OnWeekday .standard f.dayOfWeek w
    else f.times.dayOfMonth.Has d ∨ OnWeekday .standard f.dayOfWeek w := rfl

/-- The standard reading matches on some day of the week wherever the other one matches. -/
theorem exists_standard_matches {e : Expression .sundayFirst} {f : Expression .standard}
    (htimes : f.times = e.times) {p : Moment} (hp : p.Real) (h : e.Matches p) :
    ∃ q : Moment, q.Real ∧ f.Matches q := by
  obtain ⟨w, hw, hon⟩ := OnWeekday.exists f.dayOfWeek
  obtain ⟨hminute, hhour, hmonth, hday, -⟩ := h
  refine ⟨{ p with weekday := w }, { hp with weekday_lt := hw }, ?_⟩
  rw [Expression.Matches, onDay_standard, htimes]
  refine ⟨hminute, hhour, hmonth, ?_⟩
  split_ifs
  · exact ⟨hday, hon⟩
  · exact .inl hday

/-- The days of a month of the expression on which the conventions have to agree, once they agree on
all moments. -/
theorem onDay_iff {e : Expression .sundayFirst} {f : Expression .standard}
    (htimes : f.times = e.times) {p : Moment} (hp : p.Real) (hmatch : e.Matches p)
    (hall : ∀ q : Moment, q.Real → (e.Matches q ↔ f.Matches q)) {m d w : ℕ}
    (hm : e.times.month.Has m) (hd : 1 ≤ d) (hd' : d ≤ Calendar.monthLength m) (hw : w < 7) :
    e.OnDay d w ↔ f.OnDay d w := by
  obtain ⟨hminute, hhour, -, -⟩ := hmatch
  have hq := hall ⟨p.minute, p.hour, d, m, w⟩
    ⟨hp.minute_lt, hp.hour_lt, hm.mem.1, hm.mem.2, hd, hd', hw⟩
  simpa only [Expression.Matches, htimes, hminute, hhour, hm, true_and] using hq

/-- For one text, the conventions mean the same moments just if they pick the same days. -/
theorem matches_iff_sameDays {e : Expression .sundayFirst} {f : Expression .standard}
    (htimes : f.times = e.times) {p : Moment} (hp : p.Real) (hmatch : e.Matches p) :
    (∀ q : Moment, q.Real → (e.Matches q ↔ f.Matches q)) ↔ SameDays e f := by
  obtain ⟨-, -, hmonth, hday, -⟩ := id hmatch
  by_cases hfree : (e.times.freeDayOfMonth || e.times.freeDayOfWeek) = true
  · have hand : ∀ d w, f.OnDay d w ↔
        e.times.dayOfMonth.Has d ∧ OnWeekday .standard f.dayOfWeek w := by
      intro d w
      rw [onDay_standard, htimes, if_pos hfree]
    rw [SameDays, if_pos hfree]
    constructor
    · intro hall w hw
      have hon := onDay_iff htimes hp hmatch hall hmonth hp.day_pos hp.day_le hw
      rw [hand] at hon
      simpa only [Expression.OnDay, hday, true_and] using hon
    · intro hweekdays q hq
      rw [Expression.Matches, Expression.Matches, htimes, hand]
      simp only [Expression.OnDay, hweekdays q.weekday hq.weekday_lt]
  · have hor : ∀ d w, f.OnDay d w ↔
        e.times.dayOfMonth.Has d ∨ OnWeekday .standard f.dayOfWeek w := by
      intro d w
      rw [onDay_standard, htimes, if_neg hfree]
    rw [SameDays, if_neg hfree]
    constructor
    · intro hall
      refine ⟨fun w hw => ?_, fun m _ hm d hd hd1 => ?_⟩
      · exact ((onDay_iff htimes hp hmatch hall hmonth hp.day_pos hp.day_le hw).2
          ((hor _ _).2 (.inl hday))).2
      · obtain ⟨v, hv, hon⟩ := OnWeekday.exists f.dayOfWeek
        exact ((onDay_iff htimes hp hmatch hall hm hd1 (by omega) hv).2
          ((hor d v).2 (.inr hon))).1
    · rintro ⟨hweekdays, hdays⟩ q hq
      have hmonth_day : e.times.month.Has q.month → e.times.dayOfMonth.Has q.dayOfMonth :=
        fun hm => hdays q.month (Nat.lt_succ_of_le hq.month_le) hm q.dayOfMonth
          (Nat.lt_succ_of_le hq.day_le) hq.day_pos
      rw [Expression.Matches, Expression.Matches, htimes, hor]
      constructor
      · rintro ⟨hminute, hhour, hm, hd, -⟩
        exact ⟨hminute, hhour, hm, .inl hd⟩
      · rintro ⟨hminute, hhour, hm, -⟩
        exact ⟨hminute, hhour, hm, hmonth_day hm, hweekdays q.weekday hq.weekday_lt⟩

/-! ### Seven fields -/

/-- An expression with seconds and with years, of which those from `first` to `last` are known. -/
structure SevenFields (first last : ℕ) where
  second : Field 0 59
  five : Expression .sundayFirst
  year : Field first last

/-- An expression of seven fields, from its columns. -/
def readSeven (first last : ℕ) : List (List Char) → Option (SevenFields first last)
  | [second, minute, hour, dayOfMonth, month, dayOfWeek, year] => do
    let second ← readField 0 59 false second
    let five ← read .sundayFirst [minute, hour, dayOfMonth, month, dayOfWeek]
    let year ← readField first last false year
    some ⟨second, five, year⟩
  | _ => none

theorem readSeven_append (first last : ℕ) (second year : List Char) (five : List (List Char)) :
    readSeven first last (second :: (five ++ [year])) =
      (readField 0 59 false second).bind fun s => (read .sundayFirst five).bind fun e =>
        (readField first last false year).bind fun y => some ⟨s, e, y⟩ := by
  rcases five with _ | ⟨a, _ | ⟨b, _ | ⟨c, _ | ⟨d, _ | ⟨e, _ | ⟨f, five⟩⟩⟩⟩⟩⟩
  case cons.cons.cons.cons.cons.nil => rfl
  case cons.cons.cons.cons.cons.cons =>
    cases five <;> cases readField 0 59 false second <;> rfl
  all_goals cases readField 0 59 false second <;> rfl

/-- Five fields between a `0` and a star: they begin with a minute, in every year. -/
theorem readSeven_zero_star {first last : ℕ} (h : first ≤ last) (five : List (List Char)) :
    ∃ zero year, (∀ v, Field.Has zero v ↔ v = 0) ∧
      (∀ v, Field.Has year v ↔ first ≤ v ∧ v ≤ last) ∧
      readSeven first last (['0'] :: (five ++ [['*']])) =
        (read .sundayFirst five).map fun e => ⟨zero, e, year⟩ := by
  obtain ⟨zero, hzero, hzero'⟩ := @readField_number 0 59 0 false le_rfl (by decide)
  obtain ⟨year, hyear, hyear'⟩ := @readField_star first last false h
  refine ⟨zero, year, hzero', hyear', ?_⟩
  rw [show ['0'] = Nat.toDigits 10 0 from rfl, readSeven_append, hzero, hyear]
  cases read .sundayFirst five <;> rfl

/-- Seven fields match the second that begins at the tick `l`, with `unit` ticks in a second. -/
def SevenFields.Matches {first last : ℕ} (e : SevenFields first last) (unit l : ℤ) : Prop :=
  unit ∣ l ∧ e.second.Has (l / unit % 60).toNat ∧ e.five.Matches (moment (l / (60 * unit))) ∧
    ∃ y : ℕ, Crontab.year (l / (60 * unit)) = y ∧ e.year.Has y

/-- With `0` for the second and every year, the minutes are those of the other five fields. -/
theorem SevenFields.matches_iff {first last : ℕ} {e : SevenFields first last} {unit l : ℤ}
    (hunit : 0 < unit) (hsecond : ∀ v, e.second.Has v ↔ v = 0)
    (hyear : ∀ v, e.year.Has v ↔ first ≤ v ∧ v ≤ last) :
    e.Matches unit l ↔ 60 * unit ∣ l ∧ e.five.Matches (moment (l / (60 * unit))) ∧
      (first : ℤ) ≤ Crontab.year (l / (60 * unit)) ∧
        Crontab.year (l / (60 * unit)) ≤ (last : ℤ) := by
  have hbegins : unit ∣ l ∧ e.second.Has (l / unit % 60).toNat ↔ 60 * unit ∣ l := by
    rw [hsecond]
    constructor
    · rintro ⟨⟨q, rfl⟩, hzero⟩
      rw [Int.mul_ediv_cancel_left _ hunit.ne'] at hzero
      obtain ⟨r, rfl⟩ : (60 : ℤ) ∣ q := by omega
      exact ⟨r, by ring⟩
    · rintro ⟨r, rfl⟩
      rw [show 60 * unit * r = unit * (60 * r) by ring, Int.mul_ediv_cancel_left _ hunit.ne']
      exact ⟨⟨_, rfl⟩, by omega⟩
  have hyears : (∃ y : ℕ, Crontab.year (l / (60 * unit)) = y ∧ e.year.Has y) ↔
      (first : ℤ) ≤ Crontab.year (l / (60 * unit)) ∧
        Crontab.year (l / (60 * unit)) ≤ (last : ℤ) := by
    constructor
    · rintro ⟨y, hy, hhas⟩
      have := (hyear y).1 hhas
      omega
    · rintro ⟨hlow, hhigh⟩
      obtain ⟨y, hy⟩ := Int.eq_ofNat_of_zero_le (show 0 ≤ Crontab.year (l / (60 * unit)) by omega)
      exact ⟨y, hy, (hyear y).2 (by omega)⟩
  rw [SevenFields.Matches, ← and_assoc, hbegins, hyears]

end Crontab

/-!
## Timetables

A timetable is a set of times, and `Next` is its earliest time after a clock.  A component that
follows a timetable `S` gives the next time of `S` whenever that is one of the times `K` that it
knows; one that runs by its own timetable `C` follows `S` if the two agree on `K`, and where `S`
goes on, only then.
-/

namespace Timetable

/-- The earliest time after `now`. -/
def Next (S : Set ℤ) (now t : ℤ) : Prop := IsLeast {u | u ∈ S ∧ now < u} t

theorem Next.eq {S : Set ℤ} {now s t : ℤ} (hs : Next S now s) (ht : Next S now t) : s = t :=
  IsLeast.unique hs ht

/-- A time is next just before it. -/
theorem next_pred {S : Set ℤ} {t : ℤ} (ht : t ∈ S) : Next S (t - 1) t :=
  ⟨⟨ht, by omega⟩, fun u hu => by have := hu.2; omega⟩

theorem exists_next {S : Set ℤ} {now s : ℤ} (hs : s ∈ S) (h : now < s) :
    ∃ t, Next S now t ∧ t ≤ s := by
  obtain ⟨t, ht, hleast⟩ := Int.exists_least_of_bdd (P := fun u => u ∈ S ∧ now < u)
    ⟨now, fun u hu => hu.2.le⟩ ⟨s, hs, h⟩
  exact ⟨t, ⟨ht, fun u hu => hleast u hu⟩, hleast s ⟨hs, h⟩⟩

section Follows

variable {S C : Set ℤ} {K : ℤ → Prop} {run : ℤ → ℤ} {next : ℤ → Option ℤ} {delay : ℤ}

/-- The run after a time is the next time of `S`, as far as that is known. -/
def Follows (S : Set ℤ) (K : ℤ → Prop) (run : ℤ → ℤ) : Prop :=
  ∀ now t, Next S now t → K t → run now = t

theorem next_of_agree (hnext : ∀ now t, next now = some t ↔ Next C now t) (hknown : ∀ t ∈ C, K t)
    (h : ∀ t, K t → (t ∈ C ↔ t ∈ S)) {now t : ℤ} (ht : Next S now t) (hK : K t) :
    next now = some t :=
  (hnext now t).2 ⟨⟨(h t hK).2 ht.1.1, ht.1.2⟩,
    fun u hu => ht.2 ⟨(h u (hknown u hu.1)).1 hu.1, hu.2⟩⟩

theorem follows_of_agree (hnext : ∀ now t, next now = some t ↔ Next C now t)
    (hknown : ∀ t ∈ C, K t) (hrun : ∀ now, run now = (next now).getD (now + delay))
    (h : ∀ t, K t → (t ∈ C ↔ t ∈ S)) : Follows S K run := fun now t ht hK => by
  rw [hrun, next_of_agree hnext hknown h ht hK, Option.getD_some]

/-- A timetable that is followed has the component's own times, as long as it goes on. -/
theorem mem_iff_of_follows (hnext : ∀ now t, next now = some t ↔ Next C now t)
    (hrun : ∀ now, run now = (next now).getD (now + delay)) (hdelay : delay ≠ 1)
    (h : Follows S K run) {t s : ℤ} (hs : s ∈ S) (hts : t ≤ s)
    (hK : ∀ u, t ≤ u → u ≤ s → K u) : t ∈ C ↔ t ∈ S := by
  constructor
  · intro ht
    obtain ⟨u, hu, hus⟩ := exists_next hs (show t - 1 < s by omega)
    have htu : t ≤ u := by
      have := hu.1.2
      omega
    have hat := h (t - 1) u hu (hK u htu hus)
    rw [hrun, (hnext (t - 1) t).2 (next_pred ht), Option.getD_some] at hat
    exact hat ▸ hu.1.1
  · intro ht
    have hat := h (t - 1) t (next_pred ht) (hK t le_rfl hts)
    rw [hrun] at hat
    cases hn : next (t - 1) with
    | some u =>
      rw [hn, Option.getD_some] at hat
      exact hat ▸ ((hnext _ _).1 hn).1.1
    | none =>
      rw [hn, Option.getD_none] at hat
      omega

end Follows

end Timetable
