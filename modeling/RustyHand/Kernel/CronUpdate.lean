import RustyHand.Kernel.CronClaims
import RustyHand.Lib.Crontab

/-!
# An update while a job is running

`record_success` and `record_failure` take the lock of a job more than once, and act on the job that
they find.  Here `update_job` gets its lock before one of them, or between two of its steps, and
others do in between what they like with other jobs.

* `Recording`, `Recording.advance`: what is still to come of the call that records an outcome;
* `recordSuccess_eq`, `recordFailure_eq`: the calls, when nothing comes in between;
* `Recording.fate`: what becomes of the job;
* `kept_iff`: the updates that the outcome of an earlier run does not undo.
-/

namespace RustyHand
namespace Cron

open Runs Scheduler

variable {ι σ ζ : Type} [DecidableEq ι] (crates : Crates ι σ ζ)

/-- What is still to come of a call that records the outcome of a job. -/
inductive Recording
  | success
  | failure (errorMsg : String) (transient : Bool)
  /-- `record_failure` has seen whether the schedule fires once. -/
  | looked (isAt : Bool) (errorMsg : String) (transient : Bool)
  | removing
  | done

/-- What `record_success` notes of a job that it is going to remove. -/
def JobMeta.succeededOnce (now : Time) (m : JobMeta ι) : JobMeta ι :=
  { m with
    job := { m.job with lastRun := some now }
    lastStatus := some "ok"
    consecutiveErrors := 0 }

/-- What `record_failure` notes of a job that it is going to remove. -/
def JobMeta.failedOnce (now : Time) (errorMsg : String) (transient : Bool) (m : JobMeta ι) :
    JobMeta ι :=
  { m with
    job := { m.job with lastRun := some now }
    lastStatus := some ("error: " ++ String.ofList (errorMsg.toList.take 256))
    consecutiveErrors := if transient then m.consecutiveErrors else m.consecutiveErrors + 1 }

/-- The jobs with a change of the one with an id. -/
def CronScheduler.modify (s : CronScheduler ι) (id : ι) (f : JobMeta ι → JobMeta ι) :
    CronScheduler ι :=
  { s with jobs := Table.modify JobMeta.id id f s.jobs }

/-- What is done under one lock. -/
def Recording.advance (now : Time) (id : ι) (s : CronScheduler ι) :
    Recording → CronScheduler ι × Recording
  | success =>
    match Table.lookup JobMeta.id id s.jobs with
    | none => (s, done)
    | some m =>
      if m.oneShot || isAtSchedule m.job.schedule then
        (s.modify id (JobMeta.succeededOnce now), removing)
      else (s.modify id (JobMeta.succeeded crates now), done)
  | failure errorMsg transient =>
    (s, looked ((Table.lookup JobMeta.id id s.jobs).any fun m => isAtSchedule m.job.schedule)
      errorMsg transient)
  | looked isAt errorMsg transient =>
    match Table.lookup JobMeta.id id s.jobs with
    | none => (s, done)
    | some _ =>
      if isAt then (s.modify id (JobMeta.failedOnce now errorMsg transient), removing)
      else (s.modify id (JobMeta.failed crates now errorMsg transient), done)
  | removing => ({ s with jobs := Table.erase JobMeta.id id s.jobs }, done)
  | done => (s, done)

variable {crates} {now : Time} {id : ι} {s : CronScheduler ι}

theorem erase_modify {f : JobMeta ι → JobMeta ι} (hf : ∀ m, (f m).id = m.id) (id : ι)
    (rows : List (JobMeta ι)) : Table.erase JobMeta.id id (Table.modify JobMeta.id id f rows) =
      Table.erase JobMeta.id id rows := by
  unfold Table.erase
  refine Table.filter_modify fun m _ hid => ?_
  simp [hid, hf]

/-- `record_success` is its steps, when no other call comes in between. -/
theorem recordSuccess_eq (s : CronScheduler ι) (now : Time) (id : ι) :
    s.recordSuccess crates now id =
      let (s, r) := Recording.advance crates now id s .success
      (r.advance crates now id s).1 := by
  unfold CronScheduler.recordSuccess
  simp only [Recording.advance]
  cases Table.lookup JobMeta.id id s.jobs with
  | none => rfl
  | some m =>
    dsimp only
    split_ifs with honce
    · simp only [CronScheduler.modify, erase_modify (f := JobMeta.succeededOnce now) fun _ => rfl]
    · rfl

/-- `record_failure` is its steps, when no other call comes in between. -/
theorem recordFailure_eq (s : CronScheduler ι) (now : Time) (id : ι) (errorMsg : String)
    (transient : Bool) : s.recordFailure crates now id errorMsg transient =
      let (s, r) := Recording.advance crates now id s (.failure errorMsg transient)
      let (s, r) := r.advance crates now id s
      (r.advance crates now id s).1 := by
  unfold CronScheduler.recordFailure
  simp only [Recording.advance]
  cases Table.lookup JobMeta.id id s.jobs with
  | none => rfl
  | some m =>
    simp only [Option.any_some]
    split_ifs with honce
    · simp only [CronScheduler.modify,
        erase_modify (f := JobMeta.failedOnce now errorMsg transient) fun _ => rfl]
    · rfl

/-! ### What becomes of the job -/

/-- What becomes of a job that no other call changes. -/
def Recording.fate (crates : Crates ι σ ζ) (now : Time) (m : JobMeta ι) :
    Recording → Option (JobMeta ι)
  | success =>
    if m.oneShot || isAtSchedule m.job.schedule then none else some (m.succeeded crates now)
  | failure errorMsg transient =>
    if isAtSchedule m.job.schedule then none else some (m.failed crates now errorMsg transient)
  | looked isAt errorMsg transient =>
    if isAt then none else some (m.failed crates now errorMsg transient)
  | removing => none
  | done => some m

/-- A step leaves the fate of the job. -/
theorem fate_advance (s : CronScheduler ι) (now : Time) (id : ι) (r : Recording) :
    (Table.lookup JobMeta.id id (r.advance crates now id s).1.jobs).bind
        (fun m => (r.advance crates now id s).2.fate crates now m) =
      (Table.lookup JobMeta.id id s.jobs).bind fun m => r.fate crates now m := by
  have hmodify : ∀ {f : JobMeta ι → JobMeta ι}, (∀ m, (f m).id = m.id) → ∀ {m : JobMeta ι},
      Table.lookup JobMeta.id id s.jobs = some m →
        Table.lookup JobMeta.id id (s.modify id f).jobs = some (f m) := by
    intro f hf m hm
    rw [CronScheduler.modify, Table.lookup_modify hf, hm]
    rfl
  cases hlookup : Table.lookup JobMeta.id id s.jobs with
  | none =>
    cases r with
    | success => simp [Recording.advance, hlookup]
    | failure errorMsg transient => simp [Recording.advance, hlookup]
    | looked isAt errorMsg transient => simp [Recording.advance, hlookup]
    | removing => simp [Recording.advance, Table.lookup_erase]
    | done => simp [Recording.advance, hlookup]
  | some m =>
    cases r with
    | success =>
      simp only [Recording.advance, hlookup]
      split_ifs with honce
      · dsimp only
        rw [hmodify (f := JobMeta.succeededOnce now) (fun _ => rfl) hlookup]
        simp only [Option.bind_some, Recording.fate, if_pos honce]
      · dsimp only
        rw [hmodify (f := JobMeta.succeeded crates now) (fun _ => rfl) hlookup]
        simp only [Option.bind_some, Recording.fate, if_neg honce]
    | failure errorMsg transient => simp only [Recording.advance, hlookup, Option.bind_some]; rfl
    | looked isAt errorMsg transient =>
      simp only [Recording.advance, hlookup]
      split_ifs with honce
      · dsimp only
        rw [hmodify (f := JobMeta.failedOnce now errorMsg transient) (fun _ => rfl) hlookup]
        simp only [Option.bind_some, Recording.fate, if_pos honce]
      · dsimp only
        rw [hmodify (id_failed now errorMsg transient) hlookup]
        simp only [Option.bind_some, Recording.fate, if_neg honce]
    | removing => simp [Recording.advance, Recording.fate, Table.lookup_erase]
    | done => simp only [Recording.advance, hlookup]

/-- What happens after an update: the call goes on, or others have made another scheduler of it. -/
inductive Turn (ι : Type)
  | advance
  | others (s : CronScheduler ι)

/-- The scheduler, and what is still to come of the call, after a turn. -/
def turn (crates : Crates ι σ ζ) (now : Time) (id : ι) (x : CronScheduler ι × Recording) :
    Turn ι → CronScheduler ι × Recording
  | .advance => x.2.advance crates now id x.1
  | .others s => (s, x.2)

/-- Others leave the job as it is. -/
def LeavesJob (id : ι) (x : CronScheduler ι × Recording) : Turn ι → Prop
  | .advance => True
  | .others s => Table.lookup JobMeta.id id s.jobs = Table.lookup JobMeta.id id x.1.jobs

theorem lookup_of_done {x : CronScheduler ι × Recording} {m : JobMeta ι}
    (hm : Table.lookup JobMeta.id id x.1.jobs = some m) {turns : List (Turn ι)}
    (hturns : Along (turn crates now id) (LeavesJob id) x turns)
    (hdone : (run (turn crates now id) x turns).2 = .done) :
    Table.lookup JobMeta.id id (run (turn crates now id) x turns).1.jobs =
        x.2.fate crates now m := by
  have hfate := hturns.invariant
    (I := fun y => (Table.lookup JobMeta.id id y.1.jobs).bind (fun m => y.2.fate crates now m) =
      x.2.fate crates now m) (by rw [hm]; rfl) ?_
  · rw [hdone] at hfate
    rw [← hfate]
    cases Table.lookup JobMeta.id id (run (turn crates now id) x turns).1.jobs <;> rfl
  · rintro y (_ | s) hy hleaves
    · rw [← hy]
      exact fate_advance y.1 now id y.2
    · rw [← hy]
      exact congrArg (fun row => row.bind fun m => y.2.fate crates now m) hleaves

/-! ### What an update has installed -/

/-- The job exists, and is due at a time if it is enabled. -/
def DueAt (id : ι) (time : Time) (s : CronScheduler ι) : Prop :=
  ∃ m, Table.lookup JobMeta.id id s.jobs = some m ∧ (m.job.enabled → m.job.nextRun = some time)

/-- The outcome of a run leaves what an update has installed: its schedule does not fire once only,
the job is not to be removed, and as long as it is enabled, the schedule has the same next time when
the outcome is recorded as it had at the update. -/
def Recording.Spares (crates : Crates ι σ ζ) (now later : Time) (updated : Scheduler.CronJob ι)
    (oneShot : Bool) : Recording → Prop
  | success => isAtSchedule updated.schedule = false ∧ oneShot = false ∧ (updated.enabled →
      computeNextRun crates later updated.schedule = computeNextRun crates now updated.schedule)
  | failure _ _ => isAtSchedule updated.schedule = false ∧ (updated.enabled →
      computeNextRun crates later updated.schedule = computeNextRun crates now updated.schedule)
  | looked isAt _ _ => isAt = false ∧ (updated.enabled →
      computeNextRun crates later updated.schedule = computeNextRun crates now updated.schedule)
  | removing => False
  | done => True

omit [DecidableEq ι] in

omit [DecidableEq ι] in

omit [DecidableEq ι] in
/-- A failure after an update leaves the job enabled or disabled as it was. -/
theorem failed_withUpdate (crates : Crates ι σ ζ) (now later : Time) (updated : Scheduler.CronJob ι)
    (oneShot : Bool)
    (errorMsg : String) (transient : Bool) (m : JobMeta ι) :
    let x := (m.withUpdate crates now updated oneShot).failed crates later errorMsg transient
    x.job.enabled = updated.enabled ∧
      x.job.nextRun = some (computeNextRun crates later updated.schedule) := by
  simp only [JobMeta.failed, JobMeta.withUpdate]
  split_ifs with htransient hlimit
  · exact ⟨rfl, rfl⟩
  · exact absurd hlimit (by decide)
  · exact ⟨rfl, rfl⟩

/-- An update of a job whose run is being recorded is not undone, if and only if it is of a kind
that the outcome spares. -/
theorem dueAt_iff_spares (crates : Crates ι σ ζ) {s : CronScheduler ι} {id : ι} {m : JobMeta ι}
    (hm : Table.lookup JobMeta.id id s.jobs = some m) (now later : Time)
    (updated : Scheduler.CronJob ι) (oneShot : Bool) (r : Recording) {turns : List (Turn ι)}
    (hturns : Along (turn crates later id) (LeavesJob id)
      (s.commitUpdate crates now id updated oneShot, r) turns)
    (hdone : (run (turn crates later id)
      (s.commitUpdate crates now id updated oneShot, r) turns).2 = .done) :
    DueAt id (computeNextRun crates now updated.schedule)
        (run (turn crates later id) (s.commitUpdate crates now id updated oneShot, r) turns).1 ↔
      r.Spares crates now later updated oneShot := by
  have hlookup : Table.lookup JobMeta.id id (s.commitUpdate crates now id updated oneShot).jobs =
      some (m.withUpdate crates now updated oneShot) := by
    rw [CronScheduler.commitUpdate,
      Table.lookup_modify (f := JobMeta.withUpdate crates now updated oneShot) fun _ => rfl, hm]
    rfl
  rw [DueAt, lookup_of_done hlookup hturns hdone]
  have hsome : ∀ x : JobMeta ι, x.job.enabled = updated.enabled →
      x.job.nextRun = some (computeNextRun crates later updated.schedule) →
      ((∃ y, some x = some y ∧ (y.job.enabled →
          y.job.nextRun = some (computeNextRun crates now updated.schedule))) ↔
        (updated.enabled → computeNextRun crates later updated.schedule =
          computeNextRun crates now updated.schedule)) := by
    intro x henabled hnext
    rw [← henabled]
    constructor
    · rintro ⟨y, hy, hdue⟩ hx
      cases hy
      exact Option.some.inj (hnext.symm.trans (hdue hx))
    · exact fun h => ⟨x, rfl, fun hx => hnext.trans (congrArg some (h hx))⟩
  have hschedule : (m.withUpdate crates now updated oneShot).job.schedule = updated.schedule := rfl
  have honeShot : (m.withUpdate crates now updated oneShot).oneShot = oneShot := rfl
  cases r with
  | success =>
    simp only [Recording.fate, Recording.Spares, hschedule, honeShot]
    split_ifs with honce
    · refine iff_of_false (fun ⟨_, hy, _⟩ => by cases hy) ?_
      rintro ⟨hat, hshot, -⟩
      rw [hat, hshot] at honce
      cases honce
    · obtain ⟨hshot, hat⟩ := Bool.or_eq_false_iff.1 (Bool.eq_false_iff.2 honce)
      rw [hsome _ rfl rfl]
      simp only [hat, hshot, true_and]
  | failure errorMsg transient =>
    obtain ⟨henabled, hnext⟩ := failed_withUpdate crates now later updated oneShot
      errorMsg transient m
    simp only [Recording.fate, Recording.Spares, hschedule]
    split_ifs with hat
    · exact iff_of_false (fun ⟨_, hy, _⟩ => by cases hy) fun h => by rw [h.1] at hat; cases hat
    · rw [hsome _ henabled hnext]
      simp only [Bool.eq_false_iff.2 hat, true_and]
  | looked isAt errorMsg transient =>
    obtain ⟨henabled, hnext⟩ := failed_withUpdate crates now later updated oneShot
      errorMsg transient m
    simp only [Recording.fate, Recording.Spares]
    split_ifs with hat
    · exact iff_of_false (fun ⟨_, hy, _⟩ => by cases hy) fun h => by rw [h.1] at hat; cases hat
    · rw [hsome _ henabled hnext]
      simp only [Bool.eq_false_iff.2 hat, true_and]
  | removing => exact iff_of_false (fun ⟨_, hy, _⟩ => by cases hy) fun h => h
  | done => exact iff_of_true ⟨_, rfl, fun _ => rfl⟩ trivial

/-! ### An update that is undone -/

/-- The job at some other time, once. -/
def putOff : Scheduler.CronJob ℕ := { minutely with schedule := .«at» (3600 * second) }

/-- The job is claimed. -/
def whileRunning : Daemon ℕ :=
  run (Daemon.step noCrates) (Daemon.start 500)
    [.addJob 0 minutely false, .claimDueJobs (60 * second)]

/-- A job that is running is put off to another time, and is removed when the run has succeeded. -/
theorem update_undone :
    ¬ ∀ (crates : Crates ℕ Unit Unit) (maxTotalJobs : ℕ) (calls : List (SchedulerCall ℕ))
      (now later : Time) (id : ℕ) (updated : Scheduler.CronJob ℕ) (oneShot : Bool)
      (s : CronScheduler ℕ) (r : Recording) (turns : List (Turn ℕ)),
      let d := run (Daemon.step crates) (Daemon.start maxTotalJobs) calls
      id ∈ d.running → d.scheduler.updateJob crates now id updated oneShot = .ok s →
      Along (turn crates later id) (LeavesJob id) (s, r) turns →
      (run (turn crates later id) (s, r) turns).2 = .done →
      DueAt id (computeNextRun crates now updated.schedule)
        (run (turn crates later id) (s, r) turns).1 := by
  intro h
  obtain ⟨m, hm, -⟩ := h noCrates 500 [.addJob 0 minutely false, .claimDueJobs (60 * second)]
    (70 * second) (80 * second) 1 putOff false
    (whileRunning.scheduler.commitUpdate noCrates (70 * second) 1 putOff false) .success
    [.advance, .advance] (by decide) (by decide) ⟨trivial, trivial, trivial⟩ rfl
  cases hm

/-- What is recorded of the minutely job, which has been changed to an hourly one. -/
theorem dueAt_iff_spares_hourly :
    let s : CronScheduler ℕ := whileRunning.scheduler
    let hourly : Scheduler.CronJob ℕ := { minutely with schedule := .every 3600 }
    DueAt 1 (computeNextRun noCrates (70 * second) hourly.schedule)
        (run (turn noCrates (80 * second) 1)
          (s.commitUpdate noCrates (70 * second) 1 hourly false, .success) [.advance]).1 ↔
      Recording.success.Spares noCrates (70 * second) (80 * second) hourly false := by
  intro s hourly
  exact dueAt_iff_spares noCrates (m := ⟨{ minutely with nextRun := none }, false, none, 0⟩)
    (by decide) _ _ _ _ _ ⟨trivial, trivial⟩ rfl

end Cron
end RustyHand
