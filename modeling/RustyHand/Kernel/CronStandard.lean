import RustyHand.Kernel.Cron
import RustyHand.Lib.Crontab

/-!
# What a cron expression means

An expression is documented as a standard one of five fields.  `compute_next_run` puts a second
before it and a year behind it, and lets the `cron` crate read the result.

* `Documented`: how the crate reads seven fields, and what it finds in the clock of a zone;
* `AcceptedAt`: `add_job` accepts an expression at a time;
* `standardTimes`: the times of a standard expression;
* `meetsStandard_iff`: an accepted expression means what it says just if the two conventions pick
  the same days.
-/

namespace RustyHand
namespace Cron

open Crontab (Expression Moment columns moment read readSeven)
open Scheduler
open Timetable (Next Follows next_pred mem_iff_of_follows follows_of_agree)

variable {ι σ ζ : Type} (crates : Crates ι σ ζ)

/-- A minute. -/
def minute : Time := 60 * second

/-- The times at which a minute begins that `P` picks, on the clock of a zone. -/
def minutesOf (wall : Time → Time) (P : Moment → Prop) : Set Time :=
  {t | minute ∣ wall t ∧ P (moment (wall t / minute))}

theorem mul_minute_mem {wall : Time → Time} (hutc : ∀ t, wall t = t) {P : Moment → Prop}
    (k : ℤ) : k * minute ∈ minutesOf wall P ↔ P (moment k) := by
  rw [minutesOf, Set.mem_ofPred_eq, hutc, Int.mul_ediv_cancel _ (by decide : minute ≠ 0)]
  exact and_iff_right (dvd_mul_left _ _)

/-- A time in the years from `firstYear` to `lastYear`. -/
def KnownYear (firstYear lastYear : ℕ) (wall : Time → Time) (t : Time) : Prop :=
  (firstYear : ℤ) ≤ Crontab.year (wall t / minute) ∧
    Crontab.year (wall t / minute) ≤ (lastYear : ℤ)

/-- What is documented of the crates: `parseCron` reads the seven fields of an expression that has
the shape of one, the days of the week are numbered from Sunday as `1`, all fields have to match,
and `upcoming` is the next time that does, on the clock of the zone. -/
structure Documented (clock : ζ → Time → Time) (firstYear lastYear : ℕ) : Prop where
  firstYear_le : firstYear ≤ 1970
  le_lastYear : 2100 ≤ lastYear
  utc (t : Time) : clock crates.utc t = t
  parses {expr : String} (h : validateCronExpr expr = .ok ()) :
    (∃ schedule, crates.parseCron (sevenField expr) = .ok schedule) ↔
      ∃ e, readSeven firstYear lastYear (columns (sevenField expr).toList) = some e
  upcoming {text : String} {schedule : σ} {e : Crontab.SevenFields firstYear lastYear}
    (hparse : crates.parseCron text = .ok schedule)
    (hread : readSeven firstYear lastYear (columns text.toList) = some e) (zone : ζ)
    (now t : Time) :
    crates.upcoming schedule zone now = some t ↔
      Next {u | e.Matches second (clock zone u)} now t

/-- Without a zone the clock shows UTC. -/
theorem clock_none {clock : ζ → Time → Time} {firstYear lastYear : ℕ}
    (h : Documented crates clock firstYear lastYear) (t : Time) :
    clock (zoneOf crates none) t = t := h.utc t

/-! ### Acceptance -/

/-- `add_job` accepts a job with this expression. -/
def AcceptedAt [DecidableEq ι] (now : Time) (expr : String) (tz : Option String) : Prop :=
  ∃ (s : CronScheduler ι) (job : Scheduler.CronJob ι) (oneShot : Bool) (r : ι × CronScheduler ι),
    job.schedule = .cron expr tz ∧ s.addJob crates now job oneShot = .ok r

theorem mapError_eq_ok {ε ε' α : Type} {f : ε → ε'} {x : Except ε α} {a : α} :
    x.mapError f = .ok a ↔ x = .ok a := by
  cases x <;> simp [Except.mapError]

theorem validateScheduleParses_eq_ok {now : Time} {expr : String} {tz : Option String} :
    validateScheduleParses crates now (.cron expr tz) = .ok () ↔
      (tz.all fun t => (crates.parseZone t).isSome) = true ∧
        ∃ schedule, crates.parseCron (sevenField expr) = .ok schedule ∧
          (crates.upcoming schedule (zoneOf crates tz) now).isSome = true := by
  simp only [validateScheduleParses]
  cases crates.parseCron (sevenField expr) with
  | error e => simp
  | ok schedule => simp [seq_eq_ok, require_eq_ok]

theorem exists_addJob_eq_ok [DecidableEq ι] (s : CronScheduler ι) (now : Time)
    (job : Scheduler.CronJob ι)
    (oneShot : Bool) : (∃ r, s.addJob crates now job oneShot = .ok r) ↔
      s.jobs.length < s.maxTotalJobs ∧
        job.validate crates.isAlphanumeric (fun t => (crates.parseUuid t).toBool) now
          (s.listJobs job.agentId).length = .ok () ∧
        validateScheduleParses crates now job.schedule = .ok () := by
  unfold CronScheduler.addJob
  split_ifs with hfull
  · simp [hfull]
  · simp [seq_eq_ok, mapError_eq_ok, not_le.1 hfull]

/-- A job that has nothing to refuse but its schedule. -/
def plainJob (id : ι) (now : Time) (schedule : CronSchedule) : Scheduler.CronJob ι where
  id := id
  agentId := id
  name := "-"
  enabled := true
  schedule := schedule
  action := .systemEvent "-"
  delivery := .nowhere
  createdAt := now
  lastRun := none
  nextRun := none

theorem validate_plainJob (isAlphanumeric : Char → Bool) (isUuid : String → Bool) (id : ι)
    {now : Time} {schedule : CronSchedule} (h : validateSchedule now schedule = .ok ()) :
    (plainJob id now schedule).validate isAlphanumeric isUuid now 0 = .ok () := by
  have hlen : len "-" = 1 := by decide
  simp [Scheduler.CronJob.validate, plainJob, validateAction, validateDelivery, seq_eq_ok,
    require_eq_ok, h,
    hlen, maxNameLen, maxEventTextLen, maxJobsPerAgent]

/-- What `add_job` asks of an expression. -/
theorem acceptedAt_iff [DecidableEq ι] [Nonempty ι] {now : Time} {expr : String}
    {tz : Option String} :
    AcceptedAt crates now expr tz ↔ validateCronExpr expr = .ok () ∧
      (tz.all fun t => (crates.parseZone t).isSome) = true ∧
        ∃ schedule, crates.parseCron (sevenField expr) = .ok schedule ∧
          (crates.upcoming schedule (zoneOf crates tz) now).isSome = true := by
  rw [← validateScheduleParses_eq_ok]
  constructor
  · rintro ⟨s, job, oneShot, r, hschedule, hadd⟩
    obtain ⟨-, hjob, hparses⟩ := (exists_addJob_eq_ok crates s now job oneShot).1 ⟨r, hadd⟩
    simp only [Scheduler.CronJob.validate, seq_eq_ok] at hjob
    obtain ⟨-, -, -, -, hexpr, -⟩ := hjob
    rw [hschedule] at hexpr hparses
    exact ⟨hexpr, hparses⟩
  · rintro ⟨hexpr, hparses⟩
    obtain ⟨id⟩ := ‹Nonempty ι›
    obtain ⟨r, hr⟩ := (exists_addJob_eq_ok crates { jobs := [], maxTotalJobs := 1 } now
      (plainJob id now (.cron expr tz)) false).2
        ⟨Nat.zero_lt_one, validate_plainJob _ _ id hexpr, hparses⟩
    exact ⟨_, _, _, r, rfl, hr⟩

/-! ### The seven fields -/

theorem columns_sevenField (expr : String) :
    columns (sevenField expr).toList = ['0'] :: (columns expr.toList ++ [['*']]) := by
  have htext : (sevenField expr).toList = ['0'] ++ ' ' :: (expr.toList ++ ' ' :: ['*']) := by
    simp [sevenField]
  rw [htext, Crontab.columns_append_cons _ _ (by decide),
    Crontab.columns_append_cons _ _ (by decide),
    show columns ['0'] = [['0']] from by decide, show columns ['*'] = [['*']] from by decide]
  rfl

variable {firstYear lastYear : ℕ}

/-- The crate reads the five fields with Sunday first, and they match from the start of a minute. -/
theorem readSeven_sevenField (hyears : firstYear ≤ lastYear) {expr : String}
    {e : Expression .sundayFirst} (h : read .sundayFirst (columns expr.toList) = some e) :
    ∃ seven, readSeven firstYear lastYear (columns (sevenField expr).toList) = some seven ∧
      ∀ wall t, seven.Matches second (wall t) ↔
        t ∈ minutesOf wall e.Matches ∧ KnownYear firstYear lastYear wall t := by
  obtain ⟨zero, year, hzero, hyear, hread⟩ :=
    Crontab.readSeven_zero_star hyears (columns expr.toList)
  refine ⟨⟨zero, e, year⟩, by rw [columns_sevenField, hread, h]; rfl, fun wall t => ?_⟩
  rw [Crontab.SevenFields.matches_iff (by decide) hzero hyear, ← and_assoc]
  rfl

theorem read_of_readSeven (hyears : firstYear ≤ lastYear) {expr : String}
    {seven : Crontab.SevenFields firstYear lastYear}
    (h : readSeven firstYear lastYear (columns (sevenField expr).toList) = some seven) :
    ∃ e, read .sundayFirst (columns expr.toList) = some e := by
  obtain ⟨zero, year, -, -, hread⟩ := Crontab.readSeven_zero_star hyears (columns expr.toList)
  rw [columns_sevenField, hread] at h
  obtain ⟨e, he, -⟩ := Option.map_eq_some_iff.1 h
  exact ⟨e, he⟩

/-! ### The times of an expression -/

section Runs

variable {crates} {clock : ζ → Time → Time} (h : Documented crates clock firstYear lastYear)

include h

theorem firstYear_le_lastYear : firstYear ≤ lastYear := by
  have := h.firstYear_le
  have := h.le_lastYear
  omega

theorem parseCron_iff {expr : String} (hvalid : validateCronExpr expr = .ok ()) :
    (∃ schedule, crates.parseCron (sevenField expr) = .ok schedule) ↔
      ∃ e, read .sundayFirst (columns expr.toList) = some e := by
  rw [h.parses hvalid]
  constructor
  · rintro ⟨seven, hseven⟩
    exact read_of_readSeven (firstYear_le_lastYear h) hseven
  · rintro ⟨e, he⟩
    obtain ⟨seven, hseven, -⟩ := readSeven_sevenField (firstYear_le_lastYear h) he
    exact ⟨seven, hseven⟩

/-- What the crate finds for an expression. -/
theorem upcoming_iff {expr : String} {schedule : σ} {e : Expression .sundayFirst}
    (hparse : crates.parseCron (sevenField expr) = .ok schedule)
    (he : read .sundayFirst (columns expr.toList) = some e) (zone : ζ) (now t : Time) :
    crates.upcoming schedule zone now = some t ↔
      Next {u | u ∈ minutesOf (clock zone) e.Matches ∧
        KnownYear firstYear lastYear (clock zone) u} now t := by
  obtain ⟨seven, hseven, hmatches⟩ := readSeven_sevenField (firstYear_le_lastYear h) he
  rw [h.upcoming hparse hseven zone now t]
  simp only [hmatches]

end Runs

/-- The next runs of an expression are the times of `S`, in the years that the crate knows. -/
def RunsAt (clock : ζ → Time → Time) (firstYear lastYear : ℕ) (expr : String) (tz : Option String)
    (S : Set Time) : Prop :=
  Follows S (KnownYear firstYear lastYear (clock (zoneOf crates tz))) fun now =>
    computeNextRun crates now (.cron expr tz)

section Runs

variable {crates} {clock : ζ → Time → Time} (h : Documented crates clock firstYear lastYear)
  {expr : String} {schedule : σ} {e : Expression .sundayFirst}
  (hparse : crates.parseCron (sevenField expr) = .ok schedule)
  (he : read .sundayFirst (columns expr.toList) = some e)

include h hparse he

theorem runsAt_of_agree {tz : Option String} {S : Set Time}
    (hS : ∀ t, t ∈ minutesOf (clock (zoneOf crates tz)) e.Matches ↔ t ∈ S) :
    RunsAt crates clock firstYear lastYear expr tz S :=
  follows_of_agree (upcoming_iff h hparse he (zoneOf crates tz)) (fun t ht => ht.2)
    (fun now => by rw [computeNextRun, hparse])
    fun t ht => ⟨fun hmem => (hS t).1 hmem.1, fun hmem => ⟨(hS t).2 hmem, ht⟩⟩

/-- A minute of the years from 1972 on, in UTC, is one of the expression just if it is one of the
times that are followed, as long as these go on. -/
theorem matches_iff_of_runsAt {S : Set Time} (hruns : RunsAt crates clock firstYear lastYear expr
    none S) {k l : ℤ} (hk : Crontab.yearStart 1972 ≤ k) (hkl : k ≤ l)
    (hl : l < Crontab.yearStart 2028) (hmem : l * minute ∈ S) :
    e.Matches (moment k) ↔ k * minute ∈ S := by
  have hutc : clock (zoneOf crates none) = id := funext h.utc
  have hminute : (0 : ℤ) < minute := by decide
  have hknown : ∀ u, k * minute ≤ u → u ≤ l * minute →
      KnownYear firstYear lastYear (clock (zoneOf crates none)) u := by
    intro u hlow hhigh
    have hu : k ≤ u / minute := (Int.le_ediv_iff_mul_le hminute).2 hlow
    have hu' : u / minute ≤ l := by
      have := Int.ediv_le_ediv hminute hhigh
      rwa [Int.mul_ediv_cancel _ hminute.ne'] at this
    obtain ⟨hfirst, hlast⟩ := Crontab.year_mem_Ico (hk.trans hu) (hu'.trans_lt hl)
    have := h.firstYear_le
    have := h.le_lastYear
    rw [KnownYear, hutc]
    simp only [id_eq]
    omega
  rw [← mem_iff_of_follows (upcoming_iff h hparse he (zoneOf crates none))
    (fun now => by rw [computeNextRun, hparse]) (by decide) hruns hmem
      (mul_le_mul_of_nonneg_right hkl hminute.le) hknown]
  have hself : k * minute ∈ minutesOf (clock (zoneOf crates none)) e.Matches ↔
      e.Matches (moment k) := mul_minute_mem (clock_none crates h) k
  exact ⟨fun hm => ⟨hself.2 hm, hknown _ le_rfl (mul_le_mul_of_nonneg_right hkl hminute.le)⟩,
    fun hm => hself.1 hm.1⟩

end Runs

/-! ### Standard expressions -/

/-- The times of an expression as a standard one of five fields. -/
def standardTimes (wall : Time → Time) (expr : String) : Set Time :=
  {t | ∃ e, read .standard (columns expr.toList) = some e ∧ t ∈ minutesOf wall e.Matches}

/-- Wherever the expression is accepted, its next runs are those of a standard one. -/
def MeetsStandard [DecidableEq ι] (clock : ζ → Time → Time) (firstYear lastYear : ℕ)
    (expr : String) : Prop :=
  ∀ tz, (∃ now, AcceptedAt crates now expr tz) →
    RunsAt crates clock firstYear lastYear expr tz
      (standardTimes (clock (zoneOf crates tz)) expr)

/-- The two conventions pick the same days for an expression. -/
def SameDays (expr : String) : Prop :=
  ∃ e f, read .sundayFirst (columns expr.toList) = some e ∧
    read .standard (columns expr.toList) = some f ∧ Crontab.SameDays e f

theorem mem_standardTimes {wall : Time → Time} {expr : String} {f : Expression .standard}
    (hf : read .standard (columns expr.toList) = some f) (t : Time) :
    t ∈ standardTimes wall expr ↔ t ∈ minutesOf wall f.Matches := by
  constructor
  · rintro ⟨g, hg, ht⟩
    rw [hf] at hg
    cases hg
    exact ht
  · exact fun ht => ⟨f, hf, ht⟩

theorem AcceptedAt.read [DecidableEq ι] {clock : ζ → Time → Time}
    (h : Documented crates clock firstYear lastYear) {now : Time} {expr : String}
    {tz : Option String} (hacc : AcceptedAt crates now expr tz) :
    ∃ schedule e p, crates.parseCron (sevenField expr) = .ok schedule ∧
      read .sundayFirst (columns expr.toList) = some e ∧ Moment.Real p ∧ e.Matches p := by
  have : Nonempty ι := ⟨hacc.choose_spec.choose.id⟩
  obtain ⟨hvalid, -, schedule, hparse, hup⟩ := (acceptedAt_iff crates).1 hacc
  obtain ⟨e, he⟩ := (parseCron_iff h hvalid).1 ⟨schedule, hparse⟩
  obtain ⟨t, ht⟩ := Option.isSome_iff_exists.1 hup
  obtain ⟨⟨hmem, -⟩, -⟩ := ((upcoming_iff h hparse he _ _ _).1 ht).1
  exact ⟨schedule, e, _, hparse, he, Crontab.moment_real _, hmem.2⟩

/-- In UTC, an expression with some moment is accepted at some time. -/
theorem acceptedAt_utc [DecidableEq ι] [Nonempty ι] {clock : ζ → Time → Time}
    (h : Documented crates clock firstYear lastYear) {expr : String} {schedule : σ}
    {e : Expression .sundayFirst} (hvalid : validateCronExpr expr = .ok ())
    (hparse : crates.parseCron (sevenField expr) = .ok schedule)
    (he : Crontab.read .sundayFirst (columns expr.toList) = some e) {p : Moment} (hp : p.Real)
    (hmatch : e.Matches p) : ∃ now, AcceptedAt crates now expr none := by
  obtain ⟨k, hk, hk', rfl⟩ := Crontab.exists_moment (show (1972 : ℤ) ∈ [1972, 2000] by decide) hp
  have hmem := (mul_minute_mem (clock_none crates h) k).2 hmatch
  have hknown : KnownYear firstYear lastYear (clock (zoneOf crates none)) (k * minute) := by
    obtain ⟨hfirst, hlast⟩ := Crontab.year_mem_Ico hk hk'
    have := h.firstYear_le
    have := h.le_lastYear
    rw [KnownYear, clock_none crates h, Int.mul_ediv_cancel _ (by decide : minute ≠ 0)]
    omega
  refine ⟨k * minute - 1, (acceptedAt_iff crates).2 ⟨hvalid, rfl, schedule, hparse, ?_⟩⟩
  rw [(upcoming_iff h hparse he _ _ _).2 (next_pred ⟨hmem, hknown⟩)]
  rfl

/-- The conventions pick the same days if they match the same moments, once there is one. -/
theorem sameDays_iff {expr : String} {e : Expression .sundayFirst} {f : Expression .standard}
    (he : Crontab.read .sundayFirst (columns expr.toList) = some e)
    (hf : Crontab.read .standard (columns expr.toList) = some f) {p : Moment} (hp : p.Real)
    (hmatch : e.Matches p) :
    SameDays expr ↔ ∀ q : Moment, q.Real → (e.Matches q ↔ f.Matches q) := by
  rw [Crontab.matches_iff_sameDays (Crontab.times_eq_of_read he hf) hp hmatch]
  constructor
  · rintro ⟨e', f', he', hf', hdays⟩
    rw [he] at he'
    rw [hf] at hf'
    cases he'
    cases hf'
    exact hdays
  · exact fun hdays => ⟨e, f, he, hf, hdays⟩

/-- Where the conventions pick the same days, the times are those of the standard expression. -/
theorem mem_minutesOf_iff_standardTimes {expr : String} {e : Expression .sundayFirst}
    (he : Crontab.read .sundayFirst (columns expr.toList) = some e) {p : Moment} (hp : p.Real)
    (hmatch : e.Matches p) (hdays : SameDays expr) (wall : Time → Time) (t : Time) :
    t ∈ minutesOf wall e.Matches ↔ t ∈ standardTimes wall expr := by
  obtain ⟨f, hf⟩ := Crontab.exists_read_standard he
  rw [mem_standardTimes hf]
  exact and_congr_right fun _ =>
    (sameDays_iff he hf hp hmatch).1 hdays _ (Crontab.moment_real _)

section Standard

variable {crates} {clock : ζ → Time → Time} (h : Documented crates clock firstYear lastYear)
  {expr : String} {schedule : σ} {e : Expression .sundayFirst}
  (hparse : crates.parseCron (sevenField expr) = .ok schedule)
  (he : Crontab.read .sundayFirst (columns expr.toList) = some e)
  {p : Moment} (hp : p.Real) (hmatch : e.Matches p)

include h hparse he hp hmatch

theorem runsAt_standard (hdays : SameDays expr) (tz : Option String) :
    RunsAt crates clock firstYear lastYear expr tz
      (standardTimes (clock (zoneOf crates tz)) expr) :=
  runsAt_of_agree h hparse he fun t => mem_minutesOf_iff_standardTimes he hp hmatch hdays _ t

/-- In UTC, where every moment comes, the runs of a standard expression need the same days. -/
theorem sameDays_of_runsAt (hruns : RunsAt crates clock firstYear lastYear expr none
    (standardTimes (clock (zoneOf crates none)) expr)) : SameDays expr := by
  obtain ⟨f, hf⟩ := Crontab.exists_read_standard he
  rw [sameDays_iff he hf hp hmatch]
  intro q hq
  obtain ⟨r, hr, hr'⟩ :=
    Crontab.exists_standard_matches (Crontab.times_eq_of_read he hf) hp hmatch
  obtain ⟨k, hk, hk', rfl⟩ := Crontab.exists_moment (show (1972 : ℤ) ∈ [1972, 2000] by decide) hq
  obtain ⟨l, hl, hl', rfl⟩ := Crontab.exists_moment (show (2000 : ℤ) ∈ [1972, 2000] by decide) hr
  have hmem := (mem_standardTimes hf _).2 ((mul_minute_mem (clock_none crates h) l).2 hr')
  rw [matches_iff_of_runsAt h hparse he hruns hk (hk'.le.trans hl) hl' hmem, mem_standardTimes hf,
    mul_minute_mem (clock_none crates h)]

end Standard

/-- An accepted expression means what it says just if the two conventions pick the same days. -/
theorem meetsStandard_iff [DecidableEq ι] {clock : ζ → Time → Time}
    (h : Documented crates clock firstYear lastYear) {expr : String}
    (hacc : ∃ tz now, AcceptedAt crates now expr tz) :
    MeetsStandard crates clock firstYear lastYear expr ↔ SameDays expr := by
  obtain ⟨tz, now, hacc⟩ := hacc
  obtain ⟨schedule, e, p, hparse, he, hp, hmatch⟩ := hacc.read crates h
  have : Nonempty ι := ⟨hacc.choose_spec.choose.id⟩
  constructor
  · intro hmeets
    have hvalid := ((acceptedAt_iff crates).1 hacc).1
    exact sameDays_of_runsAt h hparse he hp hmatch
      (hmeets none (acceptedAt_utc crates h hvalid hparse he hp hmatch))
  · exact fun hdays tz _ => runsAt_standard h hparse he hp hmatch hdays tz

end Cron
end RustyHand
