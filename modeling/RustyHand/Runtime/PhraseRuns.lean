import RustyHand.Runtime.PhraseMeaning

/-!
# Expressions run as they are named

`parse_schedule_to_cron` and `compute_next_run` together: which phrases get the runs that they name,
and which expressions the runs of standard ones.

* `Reads`: what a word of an expression is read as;
* `FiresAs`: an expression is accepted, and its runs are times that the phrase may mean;
* `firesAs_iff`: for which phrases that is so;
* `cron_standard_iff`: expressions and phrases together.
-/

namespace RustyHand
namespace SchedulePhrase

open Cron (AcceptedAt Crates Documented KnownYear MeetsStandard SameDays computeNextRun minute
  minutesOf standardTimes)
open Crontab (Expression Moment columns moment read readField readSeven)
open Scheduler (Time isFieldChar validateCronExpr)
open Text (splitWhitespace)
open Timetable (Next)

/-! ### The words of an expression -/

/-- A word of an expression, and the values of the field that it is read as. -/
def Reads (lo hi : ℕ) (question : Bool) (w : List Char) (P : ℕ → Prop) : Prop :=
  w ≠ [] ∧ w.all isFieldChar = true ∧
    ∃ f, readField lo hi question w = some f ∧ ∀ v, f.Has v ↔ P v

theorem isFieldChar_of_digit {c : Char} (h : c.isDigit = true) : isFieldChar c = true := by
  simp [isFieldChar, h]

theorem digits_isFieldChar (n : ℕ) : (Nat.toDigits 10 n).all isFieldChar = true :=
  List.all_eq_true.2 fun _ hc =>
    isFieldChar_of_digit (Nat.isDigit_of_mem_toDigits (by decide) (by decide) hc)

theorem reads_star {lo hi : ℕ} (question : Bool) (h : lo ≤ hi) :
    Reads lo hi question ['*'] fun v => lo ≤ v ∧ v ≤ hi :=
  ⟨by simp, by decide, Crontab.readField_star question h⟩

theorem reads_number {lo hi n : ℕ} (question : Bool) (hlo : lo ≤ n) (hhi : n ≤ hi) :
    Reads lo hi question (Nat.toDigits 10 n) fun v => v = n :=
  ⟨Nat.toDigits_ne_nil, digits_isFieldChar n, Crontab.readField_number question hlo hhi⟩

theorem reads_step {hi n : ℕ} (question : Bool) (hn : 1 ≤ n) (hn' : n ≤ hi) :
    Reads 0 hi question ('*' :: '/' :: Nat.toDigits 10 n) fun v => v ≤ hi ∧ n ∣ v :=
  ⟨by simp, by simpa using ⟨by decide, by decide, List.all_eq_true.1 (digits_isFieldChar n)⟩,
    Crontab.readField_step question hn hn'⟩

theorem reads_weekdays : Reads 1 7 true "1-5".toList fun v => 1 ≤ v ∧ v ≤ 5 :=
  ⟨by decide, by decide, ⟨⟨⟨1, 5, 1, by decide, by decide, by decide, by decide⟩, []⟩, by rfl,
    fun v => by simp [Crontab.Field.Has, Crontab.Item.Has]⟩⟩

theorem isFieldChar_range {c : Char} (h : isFieldChar c = true) :
    0x21 ≤ c.toNat ∧ c.toNat < 0x7F := by
  simp only [isFieldChar, Char.isDigit, Bool.or_eq_true, Bool.and_eq_true, decide_eq_true_eq] at h
  rcases h with ((((⟨hlow, hhigh⟩ | rfl) | rfl) | rfl) | rfl) | rfl
  · change 48 ≤ c.toNat at hlow
    change c.toNat ≤ 57 at hhigh
    omega
  all_goals decide

theorem isWhitespace_of_isFieldChar {c : Char} (h : isFieldChar c = true) :
    Text.isWhitespace c = false := by
  have := isFieldChar_range h
  simp only [Text.isWhitespace, Bool.or_eq_false_iff, Bool.and_eq_false_iff,
    decide_eq_false_iff_not]
  omega

theorem isBlank_of_isFieldChar {c : Char} (h : isFieldChar c = true) :
    Crontab.isBlank c = false := by
  have hrange := isFieldChar_range h
  simp only [Crontab.isBlank, Bool.or_eq_false_iff, decide_eq_false_iff_not]
  refine ⟨⟨⟨?_, ?_⟩, ?_⟩, ?_⟩ <;> rintro rfl <;> exact absurd hrange.1 (by decide)

theorem columns_cons {w rest : List Char} (hne : w ≠ []) (h : w.all isFieldChar = true) :
    columns (w ++ ' ' :: rest) = w :: columns rest := by
  rw [Crontab.columns_append_cons _ _ (by decide), Crontab.columns_of_word hne fun c hc =>
    isBlank_of_isFieldChar (List.all_eq_true.1 h c hc)]
  rfl

theorem splitWhitespace_cons {w rest : List Char} (hne : w ≠ []) (h : w.all isFieldChar = true) :
    splitWhitespace (String.ofList (w ++ ' ' :: rest)) =
      String.ofList w :: splitWhitespace (String.ofList rest) := by
  rw [Text.splitWhitespace_append_cons _ _ (by decide), Text.splitWhitespace_of_word hne fun c hc =>
    isWhitespace_of_isFieldChar (List.all_eq_true.1 h c hc)]
  rfl

/-- Words with blanks between them have the shape of an expression, and are read one by one. -/
theorem read_of_reads {expr : String} {m h d w : List Char} {M H D W : ℕ → Prop}
    (hexpr : expr.toList = m ++ ' ' :: (h ++ ' ' :: (d ++ ' ' :: (['*'] ++ ' ' :: w))))
    (hm : Reads 0 59 false m M) (hh : Reads 0 23 false h H) (hd : Reads 1 31 true d D)
    (hw : Reads Crontab.Convention.sundayFirst.least 7 true w W) :
    validateCronExpr expr = .ok () ∧ ∃ e, read .sundayFirst (columns expr.toList) = some e ∧
      ∀ p : Moment, p.Real →
        (e.Matches p ↔ M p.minute ∧ H p.hour ∧ D p.dayOfMonth ∧ W (p.weekday + 1)) := by
  obtain ⟨hmne, hmall, fm, hfm, hM⟩ := hm
  obtain ⟨hhne, hhall, fh, hfh, hH⟩ := hh
  obtain ⟨hdne, hdall, fd, hfd, hD⟩ := hd
  obtain ⟨hwne, hwall, fw, hfw, hW⟩ := hw
  obtain ⟨fo, hfo, hO⟩ := @Crontab.readField_star 1 12 false (by decide)
  constructor
  · have hsplit : splitWhitespace expr = [String.ofList m, String.ofList h, String.ofList d,
        String.ofList ['*'], String.ofList w] := by
      rw [← String.ofList_toList (s := expr), hexpr, splitWhitespace_cons hmne hmall,
        splitWhitespace_cons hhne hhall, splitWhitespace_cons hdne hdall,
        splitWhitespace_cons (by decide) (by decide), Text.splitWhitespace_of_word hwne fun c hc =>
          isWhitespace_of_isFieldChar (List.all_eq_true.1 hwall c hc)]
    rw [Scheduler.validateCronExpr_eq_ok, hsplit]
    refine ⟨rfl, fun field hfield => ?_⟩
    simp only [List.mem_cons, List.not_mem_nil, or_false] at hfield
    rcases hfield with rfl | rfl | rfl | rfl | rfl <;> rw [String.toList_ofList]
    · exact hmall
    · exact hhall
    · exact hdall
    · decide
    · exact hwall
  · have hcolumns : columns expr.toList = [m, h, d, ['*'], w] := by
      rw [hexpr, columns_cons hmne hmall, columns_cons hhne hhall, columns_cons hdne hdall,
        columns_cons (by decide) (by decide), Crontab.columns_of_word hwne fun c hc =>
          isBlank_of_isFieldChar (List.all_eq_true.1 hwall c hc)]
    refine ⟨⟨⟨fm, fh, fd, fo, Crontab.isFree d, Crontab.isFree w⟩, fw⟩, ?_, fun p hp => ?_⟩
    · rw [hcolumns, Crontab.read_of_fields hfm hfh hfd hfo hfw]
    · have hmonth : fo.Has p.month := (hO _).2 ⟨hp.month_pos, hp.month_le⟩
      have hweekday : Crontab.OnWeekday .sundayFirst fw p.weekday ↔ W (p.weekday + 1) := hW _
      simp only [Expression.Matches, Expression.OnDay, hM, hH, hD, hweekday, hmonth, true_and]

/-- A word of the days of the week that cannot be read spoils an expression. -/
theorem read_eq_none {expr : String} {m h d w : List Char}
    (hexpr : expr.toList = m ++ ' ' :: (h ++ ' ' :: (d ++ ' ' :: (['*'] ++ ' ' :: w))))
    (hm : m ≠ [] ∧ m.all isFieldChar = true) (hh : h ≠ [] ∧ h.all isFieldChar = true)
    (hd : d ≠ [] ∧ d.all isFieldChar = true) (hw : w ≠ [] ∧ w.all isFieldChar = true)
    (hnone : readField 1 7 true w = none) : read .sundayFirst (columns expr.toList) = none := by
  have hcolumns : columns expr.toList = [m, h, d, ['*'], w] := by
    rw [hexpr, columns_cons hm.1 hm.2, columns_cons hh.1 hh.2, columns_cons hd.1 hd.2,
      columns_cons (by decide) (by decide), Crontab.columns_of_word hw.1 fun c hc =>
        isBlank_of_isFieldChar (List.all_eq_true.1 hw.2 c hc)]
  by_contra hsome
  obtain ⟨e, he⟩ := Option.ne_none_iff_exists'.1 hsome
  obtain ⟨m', h', d', o', w', heq, -, -, -, -, hfield, -⟩ := Crontab.read_eq_some he
  rw [hcolumns] at heq
  cases heq
  exact absurd (hfield.symm.trans hnone) (by simp)

/-! ### The runs of a phrase -/

variable {ι σ ζ : Type} [DecidableEq ι] (crates : Crates ι σ ζ)

/-- An expression is accepted, and its runs are times that the phrase may mean. -/
def FiresAs (firstYear lastYear : ℕ) (expr : String) (p : Phrase) : Prop :=
  (∃ now, AcceptedAt crates now expr none) ∧ ∃ S, p.Names S ∧
    ∀ now t, Next S now t → KnownYear firstYear lastYear id t →
      AcceptedAt crates now expr none ∧ computeNextRun crates now (.cron expr none) = t

/-- The phrases whose expression is accepted and runs as they say. -/
def Phrase.Kept : Phrase → Prop
  | .expression text => SameDays text ∧
      ∃ e p, read .sundayFirst (columns text.toList) = some e ∧ Moment.Real p ∧ e.Matches p
  | .everyMinutes n => n ∣ 60
  | .everyHours n => n ∣ 24
  | .everyWeek => False
  | .timeOf days _ _ => days = .daily
  | .everyMinute | .everyHour | .everyDay | .monthly => True

section Fires

variable {crates} [Nonempty ι] {clock : ζ → Time → Time} {firstYear lastYear : ℕ}
  (hdoc : Documented crates clock firstYear lastYear)

include hdoc

theorem firesAs_of_read {expr : String} {p : Phrase} {e : Expression .sundayFirst} {q : Moment}
    {S : Set Time} (hvalid : validateCronExpr expr = .ok ())
    (he : read .sundayFirst (columns expr.toList) = some e) (hq : q.Real) (hmatch : e.Matches q)
    (hnames : p.Names S) (hS : ∀ t, t ∈ minutesOf id e.Matches ↔ t ∈ S) :
    FiresAs crates firstYear lastYear expr p := by
  obtain ⟨schedule, hparse⟩ := (Cron.parseCron_iff hdoc hvalid).2 ⟨e, he⟩
  have hutc : clock (Cron.zoneOf crates none) = id := funext (Cron.clock_none crates hdoc)
  refine ⟨Cron.acceptedAt_utc crates hdoc hvalid hparse he hq hmatch, S, hnames,
    fun now t ht hknown => ?_⟩
  have hup : crates.upcoming schedule (Cron.zoneOf crates none) now = some t := by
    refine Timetable.next_of_agree (K := KnownYear firstYear lastYear id)
      (Cron.upcoming_iff hdoc hparse he (Cron.zoneOf crates none)) ?_ ?_ ht hknown
    · rw [hutc]
      exact fun u hu => hu.2
    · rw [hutc]
      exact fun u hu => ⟨fun hmem => (hS u).1 hmem.1, fun hmem => ⟨(hS u).2 hmem, hu⟩⟩
  refine ⟨(Cron.acceptedAt_iff crates).2 ⟨hvalid, rfl, schedule, hparse, by rw [hup]; rfl⟩, ?_⟩
  rw [computeNextRun, hparse]
  simp only [hup, Option.getD_some]

/-- An expression of readable words runs as a phrase that may mean its times. -/
theorem firesAs_of_reads {expr : String} {p : Phrase} {m h d w : List Char} {M H D W : ℕ → Prop}
    (hexpr : expr.toList = m ++ ' ' :: (h ++ ' ' :: (d ++ ' ' :: (['*'] ++ ' ' :: w))))
    (hm : Reads 0 59 false m M) (hh : Reads 0 23 false h H) (hd : Reads 1 31 true d D)
    (hw : Reads Crontab.Convention.sundayFirst.least 7 true w W) {q : Moment} (hq : q.Real)
    (hmatch : M q.minute ∧ H q.hour ∧ D q.dayOfMonth ∧ W (q.weekday + 1))
    (hnames : p.Names (minutesOf id fun q =>
      M q.minute ∧ H q.hour ∧ D q.dayOfMonth ∧ W (q.weekday + 1))) :
    FiresAs crates firstYear lastYear expr p := by
  obtain ⟨hvalid, e, he, hmatches⟩ := read_of_reads hexpr hm hh hd hw
  exact firesAs_of_read hdoc hvalid he hq ((hmatches q hq).2 hmatch) hnames fun t =>
    and_congr_right fun _ => hmatches _ (Crontab.moment_real _)

omit [Nonempty ι] in
theorem runsAt_of_firesAs {expr : String} {p : Phrase}
    (hfires : FiresAs crates firstYear lastYear expr p) : ∃ S, p.Names S ∧
      Cron.RunsAt crates clock firstYear lastYear expr none S := by
  obtain ⟨-, S, hnames, hruns⟩ := hfires
  have hutc : clock (Cron.zoneOf crates none) = id := funext (Cron.clock_none crates hdoc)
  refine ⟨S, hnames, fun now t ht hknown => (hruns now t ht ?_).2⟩
  rwa [hutc] at hknown

end Fires

theorem every_of {n : ℕ} {P : Moment → Prop} (hP : ∀ k, P (moment k) ↔ (n : ℤ) ∣ k) :
    Every n (minutesOf id P) :=
  ⟨0, Set.ext fun t => and_congr_right fun _ => by rw [sub_zero]; exact hP _⟩

theorem monthLength_le (m : ℕ) : Calendar.monthLength m ≤ 31 := by
  have hall : ∀ len ∈ Calendar.monthLengths true, len ≤ 31 := by decide
  rw [Calendar.monthLength, List.getD_eq_getElem?_getD]
  cases hlen : (Calendar.monthLengths true)[m - 1]? with
  | none => exact Nat.zero_le 31
  | some len => exact hall len (List.mem_of_getElem? hlen)

theorem moment_bounds (k : ℤ) : (moment k).minute ≤ 59 ∧ (moment k).hour ≤ 23 ∧
    1 ≤ (moment k).dayOfMonth ∧ (moment k).dayOfMonth ≤ 31 ∧ (moment k).weekday ≤ 6 := by
  have hreal := Crontab.moment_real k
  have := hreal.minute_lt
  have := hreal.hour_lt
  have := hreal.weekday_lt
  exact ⟨by omega, by omega, hreal.day_pos, hreal.day_le.trans (monthLength_le _), by omega⟩

theorem moment_minute (k : ℤ) : ((moment k).minute : ℤ) = k % 60 := by
  simp only [moment]
  omega

theorem moment_hour (k : ℤ) : ((moment k).hour : ℤ) = k / 60 % 24 := by
  simp only [moment]
  omega

theorem dvd_emod_iff {n m : ℤ} (h : n ∣ m) (k : ℤ) : n ∣ k % m ↔ n ∣ k := by
  rw [Int.dvd_iff_emod_eq_zero, Int.dvd_iff_emod_eq_zero, Int.emod_emod_of_dvd k h]

theorem validateCronExpr_of_inRange {text : String} (h : (Phrase.expression text).InRange) :
    validateCronExpr text = .ok () := by
  refine Scheduler.validateCronExpr_eq_ok.2 ⟨h.1, fun field hfield => ?_⟩
  refine List.all_eq_true.2 fun c hc => ?_
  have := List.all_eq_true.1 (h.2 field hfield) c hc
  simp only [isCronChar, isFieldChar, Bool.or_eq_true, decide_eq_true_eq] at this ⊢
  tauto

/-- A first of January, at some time, on some day of the week. -/
theorem firstOfJanuary_real {m h w : ℕ} (hm : m < 60) (hh : h < 24) (hw : w < 7) :
    Moment.Real ⟨m, h, 1, 1, w⟩ where
  minute_lt := hm
  hour_lt := hh
  month_pos := le_rfl
  month_le := show 1 ≤ 12 by decide
  day_pos := le_rfl
  day_le := show 1 ≤ Calendar.monthLength 1 by decide
  weekday_lt := hw

section Fires

variable {crates} [Nonempty ι] {clock : ζ → Time → Time} {firstYear lastYear : ℕ}
  (hdoc : Documented crates clock firstYear lastYear)

include hdoc

theorem firesAs_of_kept {p : Phrase} (hrange : p.InRange) (hkept : p.Kept) :
    FiresAs crates firstYear lastYear p.cron p := by
  have hour : Reads 0 23 false ['*'] fun v => 0 ≤ v ∧ v ≤ 23 := reads_star _ (by decide)
  have day : Reads 1 31 true ['*'] fun v => 1 ≤ v ∧ v ≤ 31 := reads_star _ (by decide)
  have weekday : Reads 1 7 true ['*'] fun v => 1 ≤ v ∧ v ≤ 7 := reads_star _ (by decide)
  have zero : Reads 0 59 false ['0'] fun v => v = 0 := @reads_number 0 59 0 false le_rfl (by decide)
  have zeroHour : Reads 0 23 false ['0'] fun v => v = 0 :=
    @reads_number 0 23 0 false le_rfl (by decide)
  have hfirst : (moment 0).minute = 0 ∧ (moment 0).hour = 0 := by decide
  have hbounds := moment_bounds 0
  cases p with
  | expression text =>
    obtain ⟨hdays, e, q, he, hq, hmatch⟩ := hkept
    exact firesAs_of_read hdoc (validateCronExpr_of_inRange hrange) he hq hmatch rfl
      (Cron.mem_minutesOf_iff_standardTimes he hq hmatch hdays id)
  | everyMinute =>
    refine firesAs_of_reads hdoc (by decide) (reads_star _ (by decide)) hour day weekday
      (Crontab.moment_real 0) (by omega) (every_of fun k => ?_)
    have := moment_bounds k
    exact iff_of_true (by omega) (one_dvd _)
  | everyMinutes n =>
    refine firesAs_of_reads hdoc ?_ (reads_step _ hrange.1 hrange.2) hour day weekday
      (Crontab.moment_real 0) ?_ (every_of fun k => ?_)
    · simp [Phrase.cron]
    · rw [hfirst.1]
      exact ⟨⟨by decide, dvd_zero n⟩, by omega⟩
    · have := moment_bounds k
      rw [← dvd_emod_iff (show (n : ℤ) ∣ 60 by exact_mod_cast hkept) k, ← moment_minute,
        Int.natCast_dvd_natCast]
      omega
  | everyHour =>
    refine firesAs_of_reads hdoc (by decide) zero hour day weekday
      (Crontab.moment_real 0) (by omega) (every_of fun k => ?_)
    have := moment_bounds k
    have := moment_minute k
    omega
  | everyHours n =>
    refine firesAs_of_reads hdoc ?_ zero (reads_step _ hrange.1 hrange.2) day weekday
      (Crontab.moment_real 0) ?_ (every_of fun k => ?_)
    · simp [Phrase.cron]
    · rw [hfirst.1, hfirst.2]
      exact ⟨rfl, ⟨by decide, dvd_zero n⟩, by omega⟩
    · have := moment_bounds k
      have := moment_minute k
      have hdvd : (n : ℤ) ∣ k / 60 ↔ n ∣ (moment k).hour := by
        rw [← dvd_emod_iff (show (n : ℤ) ∣ 24 by exact_mod_cast hkept), ← moment_hour,
          Int.natCast_dvd_natCast]
      rw [← hdvd]
      constructor
      · rintro ⟨hminute, ⟨-, q, hq⟩, -⟩
        exact ⟨q, by push_cast; rw [mul_assoc, ← hq]; omega⟩
      · rintro ⟨q, hq⟩
        push_cast at hq
        rw [mul_assoc] at hq
        exact ⟨by omega, ⟨by omega, q, by omega⟩, by omega⟩
  | everyDay =>
    refine firesAs_of_reads hdoc (by decide) zero zeroHour day weekday
      (Crontab.moment_real 0) (by omega) (every_of fun k => ?_)
    have := moment_bounds k
    have := moment_minute k
    have := moment_hour k
    omega
  | everyWeek => exact hkept.elim
  | monthly =>
    refine firesAs_of_reads hdoc (d := ['1']) (by decide) zero zeroHour
      (@reads_number 1 31 1 true le_rfl (by decide)) weekday
      (firstOfJanuary_real (m := 0) (h := 0) (w := 0) (by decide) (by decide) (by decide))
      (by decide) ⟨1, 0, 0, le_rfl, by decide, by decide, by decide, Set.ext fun t => ?_⟩
    · refine and_congr_right fun _ => ?_
      have := moment_bounds (id t / Cron.minute)
      omega
  | timeOf days hour' minute' =>
    cases hkept
    refine firesAs_of_reads hdoc ?_ (reads_number _ (Nat.zero_le _) (Nat.le_of_lt_succ hrange.2))
      (reads_number _ (Nat.zero_le _) (Nat.le_of_lt_succ hrange.1)) day weekday
      (firstOfJanuary_real (w := 0) hrange.2 hrange.1 (by decide)) (by simp)
      (Set.ext fun t => ?_)
    · simp [Phrase.cron, Days.field]
    · refine and_congr_right fun _ => ?_
      have := moment_bounds (id t / Cron.minute)
      simp only [Days.Has, true_and]
      omega

omit [Nonempty ι] in
/-- What runs as a phrase has the times of the phrase for its moments. -/
theorem exists_mem_iff_of_firesAs {expr : String} {p : Phrase} {m h d w : List Char}
    {M H D W : ℕ → Prop}
    (hexpr : expr.toList = m ++ ' ' :: (h ++ ' ' :: (d ++ ' ' :: (['*'] ++ ' ' :: w))))
    (hm : Reads 0 59 false m M) (hh : Reads 0 23 false h H) (hd : Reads 1 31 true d D)
    (hw : Reads Crontab.Convention.sundayFirst.least 7 true w W)
    (hfires : FiresAs crates firstYear lastYear expr p) :
    ∃ S, p.Names S ∧ ∀ k l, Crontab.yearStart 1972 ≤ k → k ≤ l → l < Crontab.yearStart 2028 →
      l * minute ∈ S → (M (moment k).minute ∧ H (moment k).hour ∧ D (moment k).dayOfMonth ∧
        W ((moment k).weekday + 1) ↔ k * minute ∈ S) := by
  obtain ⟨-, e, he, hmatches⟩ := read_of_reads hexpr hm hh hd hw
  obtain ⟨schedule, e', q, hparse, -⟩ := hfires.1.choose_spec.read crates hdoc
  obtain ⟨S, hnames, hruns⟩ := runsAt_of_firesAs hdoc hfires
  refine ⟨S, hnames, fun k l hk hkl hl hmem => ?_⟩
  rw [← hmatches _ (Crontab.moment_real k)]
  exact Cron.matches_iff_of_runsAt hdoc hparse he hruns hk hkl hl hmem

end Fires

theorem mem_every {n : ℕ} {start k : ℤ} :
    k * minute ∈ {t | minute ∣ t ∧ (n : ℤ) ∣ t / minute - start} ↔ (n : ℤ) ∣ k - start := by
  rw [Set.mem_ofPred_eq, Int.mul_ediv_cancel _ (by decide : minute ≠ 0)]
  exact and_iff_right (dvd_mul_left _ _)

/-- Every `n` minutes, there is one of the times in `n` minutes. -/
theorem exists_mem_every {n : ℕ} (hn : 0 < n) (start k : ℤ) :
    ∃ l, k ≤ l ∧ l < k + n ∧ (n : ℤ) ∣ l - start := by
  refine ⟨k + (start - k) % n, ?_, ?_, ?_⟩
  · have := Int.emod_nonneg (start - k) (show (n : ℤ) ≠ 0 by omega)
    omega
  · have := Int.emod_lt_of_pos (start - k) (show (0 : ℤ) < n by omega)
    omega
  · refine ⟨-((start - k) / n), ?_⟩
    have := Int.emod_add_mul_ediv (start - k) n
    rw [mul_neg]
    omega

section Fires

variable {crates} {clock : ζ → Time → Time} {firstYear lastYear : ℕ}
  (hdoc : Documented crates clock firstYear lastYear)

include hdoc

theorem kept_of_firesAs {p : Phrase} (hrange : p.InRange)
    (hfires : FiresAs crates firstYear lastYear p.cron p) : p.Kept := by
  have hour : Reads 0 23 false ['*'] fun v => 0 ≤ v ∧ v ≤ 23 := reads_star _ (by decide)
  have day : Reads 1 31 true ['*'] fun v => 1 ≤ v ∧ v ≤ 31 := reads_star _ (by decide)
  have weekday : Reads 1 7 true ['*'] fun v => 1 ≤ v ∧ v ≤ 7 := reads_star _ (by decide)
  have zero : Reads 0 59 false ['0'] fun v => v = 0 := @reads_number 0 59 0 false le_rfl (by decide)
  have hstart : 1051200 = Crontab.yearStart 1972 := by decide
  have hend : 30504960 = Crontab.yearStart 2028 := by decide
  cases p with
  | expression text =>
    obtain ⟨now, hnow⟩ := hfires.1
    obtain ⟨schedule, e, q, hparse, he, hq, hmatch⟩ := hnow.read crates hdoc
    obtain ⟨S, rfl, hruns⟩ := runsAt_of_firesAs hdoc hfires
    have hutc : clock (Cron.zoneOf crates none) = id := funext (Cron.clock_none crates hdoc)
    exact ⟨Cron.sameDays_of_runsAt hdoc hparse he hq hmatch (by rw [hutc]; exact hruns),
      e, q, he, hq, hmatch⟩
  | everyMinutes n =>
    obtain ⟨S, ⟨start, rfl⟩, hmem⟩ := exists_mem_iff_of_firesAs hdoc (by simp [Phrase.cron])
      (reads_step _ hrange.1 hrange.2) hour day weekday hfires
    -- Two full hours have to be times.
    have hfull : ∀ k, 1051200 ≤ k → k ≤ 1051260 → k % 60 = 0 → (n : ℤ) ∣ k - start := by
      intro k hk hk' hzero
      obtain ⟨l, hkl, hl, hdvd⟩ := exists_mem_every hrange.1 start k
      have := hrange.2
      have hminute : (moment k).minute = 0 := by
        have := moment_minute k
        omega
      have := moment_bounds k
      exact mem_every.1 ((hmem k l (hstart ▸ hk) hkl (hend ▸ by omega) (mem_every.2 hdvd)).1
        ⟨by rw [hminute]; exact ⟨by decide, dvd_zero n⟩, by omega⟩)
    have hsub := Int.dvd_sub (hfull 1051260 (by decide) le_rfl rfl)
        (hfull 1051200 le_rfl (by decide) rfl)
    rw [show (1051260 - start - (1051200 - start) : ℤ) = 60 by ring] at hsub
    exact Int.natCast_dvd_natCast.1 hsub
  | everyHours n =>
    obtain ⟨S, ⟨start, rfl⟩, hmem⟩ := exists_mem_iff_of_firesAs hdoc (by simp [Phrase.cron]) zero
      (reads_step _ hrange.1 hrange.2) day weekday hfires
    -- Two midnights have to be times.
    have hfull : ∀ k, 1051200 ≤ k → k ≤ 1052640 → k % 1440 = 0 →
        ((60 * n : ℕ) : ℤ) ∣ k - start := by
      intro k hk hk' hzero
      obtain ⟨l, hkl, hl, hdvd⟩ := exists_mem_every
          (Nat.mul_pos (show 0 < 60 by decide) hrange.1) start k
      have := hrange.2
      have hminute : (moment k).minute = 0 ∧ (moment k).hour = 0 := by
        have := moment_minute k
        have := moment_hour k
        omega
      have := moment_bounds k
      exact mem_every.1 ((hmem k l (hstart ▸ hk) hkl (hend ▸ by omega) (mem_every.2 hdvd)).1
        ⟨hminute.1, by rw [hminute.2]; exact ⟨by decide, dvd_zero n⟩, by omega⟩)
    have hsub := Int.dvd_sub (hfull 1052640 (by decide) le_rfl rfl)
        (hfull 1051200 le_rfl (by decide) rfl)
    rw [show (1052640 - start - (1051200 - start) : ℤ) = ((60 * 24 : ℕ) : ℤ) by push_cast; ring]
      at hsub
    exact Nat.dvd_of_mul_dvd_mul_left (by decide) (Int.natCast_dvd_natCast.1 hsub)
  | everyWeek =>
    obtain ⟨now, hnow⟩ := hfires.1
    obtain ⟨schedule, e, q, -, he, -⟩ := hnow.read crates hdoc
    have hnone : read .sundayFirst (columns Phrase.everyWeek.cron.toList) = none :=
      read_eq_none (m := ['0']) (h := ['0']) (d := ['*']) (w := ['0']) (by decide) (by decide)
        (by decide) (by decide) (by decide) rfl
    exact absurd (he.symm.trans hnone) (by simp)
  | timeOf days hour' minute' =>
    have hminute : Reads 0 59 false (Nat.toDigits 10 minute') fun v => v = minute' :=
      reads_number _ (Nat.zero_le _) (Nat.le_of_lt_succ hrange.2)
    have hhour : Reads 0 23 false (Nat.toDigits 10 hour') fun v => v = hour' :=
      reads_number _ (Nat.zero_le _) (Nat.le_of_lt_succ hrange.1)
    cases days with
    | daily => rfl
    | weekdays =>
      obtain ⟨S, rfl, hmem⟩ := exists_mem_iff_of_firesAs hdoc
        (by simp [Phrase.cron, Days.field]) hminute hhour day reads_weekdays hfires
      -- A Sunday at that time, and a Monday later.
      obtain ⟨k, hk, hk', hsunday⟩ := Crontab.exists_moment
          (show (1972 : ℤ) ∈ [1972, 2000] by decide)
        (firstOfJanuary_real (w := 0) hrange.2 hrange.1 (by decide))
      obtain ⟨l, hl, hl', hmonday⟩ := Crontab.exists_moment
          (show (2000 : ℤ) ∈ [1972, 2000] by decide)
        (firstOfJanuary_real (w := 1) hrange.2 hrange.1 (by decide))
      have hlmem := (@Cron.mul_minute_mem id (fun _ => rfl) (fun q : Moment =>
        Days.weekdays.Has q.weekday ∧ q.hour = hour' ∧ q.minute = minute') l).2
          (by rw [hmonday]; exact ⟨⟨le_rfl, show 1 ≤ 5 by decide⟩, rfl, rfl⟩)
      have hkmem := (hmem k l hk (hk'.le.trans hl) hl' hlmem).1
        (by rw [hsunday]; exact ⟨rfl, rfl, ⟨le_rfl, show 1 ≤ 31 by decide⟩, le_rfl,
            show 1 ≤ 5 by decide⟩)
      have hkday := ((Cron.mul_minute_mem (fun _ => rfl) k).1 hkmem).1.1
      rw [hsunday] at hkday
      exact absurd hkday (show ¬1 ≤ 0 by decide)
    | weekends =>
      obtain ⟨now, hnow⟩ := hfires.1
      obtain ⟨schedule, e, q, -, he, -⟩ := hnow.read crates hdoc
      have hnone : read .sundayFirst
          (columns (Phrase.timeOf .weekends hour' minute').cron.toList) = none :=
        read_eq_none (d := ['*']) (w := "0,6".toList) (by simp [Phrase.cron, Days.field])
          ⟨hminute.1, hminute.2.1⟩ ⟨hhour.1, hhour.2.1⟩ (by decide) (by decide) rfl
      exact absurd (he.symm.trans hnone) (by simp)
  | everyMinute | everyHour | everyDay | monthly => trivial

end Fires

/-- For an accepted expression, the next runs are those of a standard one just if the conventions
pick the same days; and what is made of a phrase is accepted and runs as the phrase says just for
the phrases that are kept. -/
theorem cron_standard_iff [Nonempty ι] {clock : ζ → Time → Time} {firstYear lastYear : ℕ}
    (hdoc : Documented crates clock firstYear lastYear) (toLowercase : String → String) :
    (∀ expr, (∃ tz now, AcceptedAt crates now expr tz) →
      (MeetsStandard crates clock firstYear lastYear expr ↔ SameDays expr)) ∧
    ∀ s expr, parseScheduleToCron toLowercase s = .ok expr →
      ((∃ p, phraseOf toLowercase s = some p ∧ FiresAs crates firstYear lastYear expr p) ↔
        ∃ p, phraseOf toLowercase s = some p ∧ p.Kept) := by
  refine ⟨fun expr hacc => Cron.meetsStandard_iff crates hdoc hacc, fun s expr hparse => ?_⟩
  obtain ⟨p, hp, rfl, hrange⟩ := eq_cron_of_parse toLowercase hparse
  constructor
  · rintro ⟨q, hq, hfires⟩
    rw [hp] at hq
    cases hq
    exact ⟨p, hp, kept_of_firesAs hdoc hrange hfires⟩
  · rintro ⟨q, hq, hkept⟩
    rw [hp] at hq
    cases hq
    exact ⟨p, hp, firesAs_of_kept hdoc hrange hkept⟩

/-! ### Crates that do what is documented -/

open scoped Classical in
/-- Crates that read seven fields, and find the next time by looking for it; every zone is UTC. -/
noncomputable def plainCrates : Crates ℕ (Crontab.SevenFields 1970 2100) Unit where
  isAlphanumeric := Char.isAlphanum
  parseUuid := fun _ => .error "not a UUID"
  printUuid := fun _ => ""
  parseCron := fun text =>
    match readSeven 1970 2100 (columns text.toList) with
    | some e => .ok e
    | none => .error "invalid expression"
  parseZone := fun _ => some ()
  utc := ()
  upcoming := fun e _ now =>
    if h : ∃ t, Next {u | e.Matches Scheduler.second u} now t then some h.choose else none
  readSchedule := fun _ => .error "not a schedule"
  readAction := fun _ => .error "not an action"
  readDelivery := fun _ => .error "not a delivery"

theorem plainCrates_documented : Documented plainCrates (fun _ => id) 1970 2100 where
  firstYear_le := le_rfl
  le_lastYear := le_rfl
  utc := fun _ => rfl
  parses := fun {expr} _ => by
    simp only [plainCrates]
    cases readSeven 1970 2100 (columns (Cron.sevenField expr).toList) <;> simp
  upcoming := fun {text schedule e} hparse hread zone now t => by
    simp only [plainCrates, hread] at hparse
    cases hparse
    simp only [plainCrates, id_eq]
    split_ifs with hnext
    · rw [Option.some.injEq]
      exact ⟨fun h => h ▸ hnext.choose_spec, fun h => hnext.choose_spec.eq h⟩
    · exact iff_of_false nofun fun h => hnext ⟨t, h⟩

/-- Nine o'clock from Monday to Friday is accepted. -/
theorem weekdays_accepted : ∃ now, AcceptedAt plainCrates now "0 9 * * 1-5" none := by
  obtain ⟨hvalid, e, he, hmatches⟩ := @read_of_reads "0 9 * * 1-5" _ _ _ _ _ _ _ _ (by decide)
    (@reads_number 0 59 0 false le_rfl (by decide))
        (@reads_number 0 23 9 false (by decide) (by decide))
    (reads_star true (show 1 ≤ 31 by decide)) reads_weekdays
  obtain ⟨schedule, hparse⟩ := (Cron.parseCron_iff plainCrates_documented hvalid).2 ⟨e, he⟩
  exact Cron.acceptedAt_utc plainCrates plainCrates_documented hvalid hparse he
    (firstOfJanuary_real (m := 0) (h := 9) (w := 0) (by decide) (by decide) (by decide))
    ((hmatches _ (firstOfJanuary_real (by decide) (by decide) (by decide))).2 (by decide))

theorem not_sameDays_weekdays : ¬SameDays "0 9 * * 1-5" := by
  rintro ⟨e, f, he, hf, hdays⟩
  have hcheck : ((read .sundayFirst (columns "0 9 * * 1-5".toList)).all fun e =>
      (read .standard (columns "0 9 * * 1-5".toList)).all fun f =>
        !decide (Crontab.SameDays e f)) = true := by decide
  simp only [he, hf, Option.all_some, Bool.not_eq_true', decide_eq_false_iff_not] at hcheck
  exact hcheck hdays

/-- It is run from Sunday to Thursday, while the phrase for every fifth minute is run as it says. -/
theorem cron_standard_documented :
    ¬MeetsStandard plainCrates (fun _ => id) 1970 2100 "0 9 * * 1-5" ∧
      ∃ p, phraseOf id "every 5 minutes" = some p ∧
        FiresAs plainCrates 1970 2100 "*/5 * * * *" p :=
  ⟨fun h => not_sameDays_weekdays (((cron_standard_iff plainCrates plainCrates_documented id).1 _
      ⟨none, weekdays_accepted⟩).1 h),
    ((cron_standard_iff plainCrates plainCrates_documented id).2 "every 5 minutes" _
      (by decide)).2 ⟨.everyMinutes 5, by decide, show 5 ∣ 60 by decide⟩⟩

/-- An accepted expression whose next runs are not those of a standard one. -/
theorem weekdays_misread : (∃ tz now, AcceptedAt plainCrates now "0 9 * * 1-5" tz) ∧
    ¬MeetsStandard plainCrates (fun _ => id) 1970 2100 "0 9 * * 1-5" :=
  ⟨⟨none, weekdays_accepted⟩, fun h => not_sameDays_weekdays
    ((Cron.meetsStandard_iff plainCrates plainCrates_documented ⟨none, weekdays_accepted⟩).1 h)⟩

end SchedulePhrase
end RustyHand
