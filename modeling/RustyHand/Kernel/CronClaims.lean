import Mathlib.Data.List.Count
import Mathlib.Data.List.Nodup
import RustyHand.Kernel.CronRuns

/-!
# Jobs that are claimed

`claim_due_jobs` claims a job by taking its next run away.  What gives it one again while its worker
is running lets it be claimed a second time.

* `JobMeta.recurring`: a job that stays after a success;
* `Daemon.Exclusive`: no recurring job is claimed while a worker of it is running;
* `Daemon.Orderly`: the calls that do not rearm such a job;
* `exclusive_iff_orderly`: a run is exclusive in all its states just if its calls are orderly.
-/

namespace RustyHand
namespace Cron

open Runs Scheduler

variable {ι σ ζ : Type} [DecidableEq ι] (crates : Crates ι σ ζ)

/-- A job that a success does not remove. -/
def JobMeta.recurring (m : JobMeta ι) : Bool := !m.oneShot && !isAtSchedule m.job.schedule

/-- An enabled job with a next run is claimed at some time. -/
def JobMeta.armed (m : JobMeta ι) : Bool := m.job.enabled && m.job.nextRun.isSome

/-- Whenever jobs are claimed, no recurring job is among them that a running worker has claimed. -/
def Daemon.Exclusive (d : Daemon ι) : Prop :=
  ∀ now, ∀ job ∈ (d.scheduler.claimDueJobs now).1, job.id ∈ d.running →
    ∀ m ∈ d.scheduler.jobs, m.id = job.id → m.recurring = false

/-- A call does not arm a recurring job that a running worker has claimed. -/
def Daemon.Orderly (d : Daemon ι) : SchedulerCall ι → Prop
  | .addJob now job oneShot => d.Accepts crates (.addJob now job oneShot) → job.id ∈ d.running →
    ¬ ((JobMeta.added crates now job oneShot).recurring ∧ job.enabled)
  | .setEnabled _ id enabled => enabled → id ∈ d.running →
    ∀ m ∈ d.scheduler.jobs, m.id = id → ¬ m.recurring
  | .updateJob now id updated oneShot => d.Accepts crates (.updateJob now id updated oneShot) →
    id ∈ d.running → ¬ ((JobMeta.added crates now updated oneShot).recurring ∧ updated.enabled)
  | _ => True

variable {crates} {d : Daemon ι} {now : Time} {id : ι} {c : SchedulerCall ι}

omit [DecidableEq ι] in
theorem armed_iff (m : JobMeta ι) : m.armed = true ↔ ∃ now, JobMeta.isDue now m = true := by
  unfold JobMeta.armed JobMeta.isDue
  cases m.job.nextRun with
  | none => simp
  | some t => simp [show ∃ now, t ≤ now from ⟨t, le_refl t⟩]

/-- An enabled recurring job is claimed once at a time, and is not armed then. -/
def JobMeta.Settled (running : List ι) (m : JobMeta ι) : Prop :=
  m.recurring → m.job.enabled →
    running.count m.id ≤ 1 ∧ (m.job.nextRun.isSome → m.id ∉ running)

/-- The jobs have different ids, and are settled. -/
structure Daemon.Settled (d : Daemon ι) : Prop where
  unique : Table.UniqueKeys JobMeta.id d.scheduler.jobs
  settled : ∀ m ∈ d.scheduler.jobs, m.Settled d.running

omit [DecidableEq ι] in
/-- No armed recurring job is one that a worker has claimed. -/
theorem exclusive_iff (h : Table.UniqueKeys JobMeta.id d.scheduler.jobs) : d.Exclusive ↔
    ∀ m ∈ d.scheduler.jobs, m.recurring → m.armed → m.id ∉ d.running := by
  constructor
  · intro hexclusive m hm hrecurring harmed hrunning
    obtain ⟨now, hdue⟩ := (armed_iff m).1 harmed
    have hclaimed := List.mem_map_of_mem (f := fun m : JobMeta ι => { m.job with nextRun := none })
      (List.mem_filter.2 ⟨hm, hdue⟩)
    rw [hexclusive now _ hclaimed hrunning m hm rfl] at hrecurring
    cases hrecurring
  · intro harmed now job hclaimed hrunning m hm hid
    obtain ⟨x, hx, rfl⟩ := List.mem_map.1 hclaimed
    obtain ⟨hx, hdue⟩ := List.mem_filter.1 hx
    obtain rfl : x = m := h.eq hx hm hid.symm
    exact Bool.eq_false_iff.2 fun hrecurring =>
      harmed x hm hrecurring ((armed_iff x).2 ⟨now, hdue⟩) hrunning

/-! ### What the calls keep -/

omit [DecidableEq ι] in
theorem id_failed (now : Time) (errorMsg : String) (transient : Bool) (m : JobMeta ι) :
    (m.failed crates now errorMsg transient).id = m.id := by
  unfold JobMeta.failed
  dsimp only
  split_ifs <;> rfl

theorem id_change (c : SchedulerCall ι) (m : JobMeta ι) : (c.change crates m).id = m.id := by
  cases c with
  | addJob now job oneShot => rfl
  | removeJob id => rfl
  | persist => rfl
  | restart now => rfl
  | setEnabled now id enabled =>
    simp only [SchedulerCall.change, JobMeta.changeAt, JobMeta.withEnabled]
    split_ifs <;> rfl
  | updateJob now id updated oneShot =>
    simp only [SchedulerCall.change, JobMeta.changeAt]
    split_ifs <;> rfl
  | reassignAgent oldId newId =>
    simp only [SchedulerCall.change, JobMeta.reassigned]
    split_ifs <;> rfl
  | claimDueJobs now =>
    simp only [SchedulerCall.change, JobMeta.claimed]
    split_ifs <;> rfl
  | recordSuccess now id =>
    simp only [SchedulerCall.change, JobMeta.changeAt]
    split_ifs <;> rfl
  | recordFailure now id errorMsg transient =>
    simp only [SchedulerCall.change, JobMeta.changeAt]
    split_ifs
    · exact id_failed now errorMsg transient m
    · rfl

theorem unique_load {s : CronScheduler ι} (h : Table.UniqueKeys JobMeta.id s.jobs) (now : Time)
    (metas : List (JobMeta ι)) : Table.UniqueKeys JobMeta.id (s.load crates now metas).jobs := by
  have hfold : ∀ rows : List (JobMeta ι), Table.UniqueKeys JobMeta.id rows →
      Table.UniqueKeys JobMeta.id
        (metas.foldl (fun jobs x => Table.upsert JobMeta.id (x.loaded crates now) jobs) rows) := by
    induction metas with
    | nil => exact fun rows h => h
    | cons x metas ih => exact fun rows h => ih _ h.upsert
  exact hfold s.jobs h

/-- A call keeps the ids of the jobs apart. -/
theorem unique_step (h : Table.UniqueKeys JobMeta.id d.scheduler.jobs) :
    Table.UniqueKeys JobMeta.id (d.step crates c).scheduler.jobs := by
  have hmap : Table.UniqueKeys JobMeta.id (d.scheduler.jobs.map (c.change crates)) :=
    h.map (id_change c)
  by_cases haccepts : d.Accepts crates c
  · cases c with
    | addJob now job oneShot =>
      obtain ⟨r, hadd⟩ := haccepts
      simp only [Daemon.step, hadd, Except.map, CronScheduler.keep]
      rw [addJob_eq_ok hadd]
      exact h.upsert
    | removeJob id =>
      simp only [Daemon.step, CronScheduler.removeJob]
      cases Table.lookup JobMeta.id id d.scheduler.jobs with
      | none => exact h
      | some m => exact h.erase
    | setEnabled now id enabled =>
      simp only [Daemon.step, CronScheduler.setEnabled]
      cases Table.lookup JobMeta.id id d.scheduler.jobs with
      | none => exact h
      | some m => exact hmap
    | updateJob now id updated oneShot =>
      obtain ⟨s, hupdate⟩ := haccepts
      simp only [Daemon.step, hupdate, CronScheduler.keep]
      rw [(updateJob_eq_ok hupdate).2]
      exact hmap
    | reassignAgent oldId newId => exact hmap
    | claimDueJobs now => exact hmap
    | recordSuccess now id =>
      simp only [Daemon.step]
      rcases jobs_recordSuccess crates d.scheduler now id with hjobs | hjobs
      · rw [hjobs]
        exact hmap
      · rw [hjobs]
        exact h.erase
    | recordFailure now id errorMsg transient =>
      simp only [Daemon.step]
      rcases jobs_recordFailure crates d.scheduler now id errorMsg transient with
        hjobs | hjobs
      · rw [hjobs]
        exact hmap
      · rw [hjobs]
        exact h.erase
    | persist => exact h
    | restart now => exact unique_load (s := { d.scheduler with jobs := [] }) List.nodup_nil now _
  · rw [step_of_not_accepts haccepts]
    exact h

theorem settled_of_not_mem {m : JobMeta ι} {running : List ι} (h : m.id ∉ running) :
    m.Settled running := fun _ _ => ⟨by rw [List.count_eq_zero.2 h]; exact Nat.zero_le 1,
        fun _ => h⟩

/-- What is recorded of a worker leaves the jobs settled. -/
theorem JobMeta.Settled.erase {m x : JobMeta ι} {running : List ι} (h : m.Settled running)
    (hid : x.id = m.id) (hrecurring : x.recurring → m.recurring)
    (henabled : x.job.enabled → m.job.enabled) (hother : m.id ≠ id → x = m) :
    x.Settled (running.erase id) := by
  intro hx hx'
  obtain ⟨hcount, harmed⟩ := h (hrecurring hx) (henabled hx')
  by_cases hm : m.id = id
  · have hzero : (running.erase id).count x.id = 0 := by
      rw [hid, hm, List.count_erase_self, ← hm]
      omega
    exact ⟨by omega, fun _ => List.count_eq_zero.1 hzero⟩
  · rw [hother hm, List.count_erase_of_ne hm]
    exact ⟨hcount, fun hnext hmem => harmed hnext (List.mem_of_mem_erase hmem)⟩

theorem settled_change (h : d.Settled) {m : JobMeta ι} (hm : m ∈ d.scheduler.jobs)
    (haccepts : d.Accepts crates c) (horderly : d.Orderly crates c)
    (hc : ∀ now, c ≠ .restart now) : (c.change crates m).Settled (d.step crates c).running := by
  have hsettled := h.settled m hm
  cases c with
  | addJob now job oneShot => exact hsettled
  | removeJob id => exact hsettled
  | persist => exact hsettled
  | restart now => exact absurd rfl (hc now)
  | setEnabled now id enabled =>
    simp only [SchedulerCall.change, JobMeta.changeAt, JobMeta.withEnabled]
    split_ifs with hid henabled
    · intro hrecurring
      exact settled_of_not_mem
        (fun hrunning => horderly henabled (hid ▸ hrunning) m hm hid hrecurring) hrecurring
    · exact fun _ hfalse => absurd hfalse Bool.false_ne_true
    · exact hsettled
  | updateJob now id updated oneShot =>
    simp only [SchedulerCall.change, JobMeta.changeAt]
    split_ifs with hid
    · intro hrecurring henabled
      exact settled_of_not_mem
        (fun hrunning => horderly haccepts (hid ▸ hrunning) ⟨hrecurring, henabled⟩)
        hrecurring henabled
    · exact hsettled
  | reassignAgent oldId newId =>
    simp only [SchedulerCall.change, JobMeta.reassigned]
    split_ifs <;> exact hsettled
  | claimDueJobs now =>
    have hids : (d.scheduler.claimDueJobs now).1.map Scheduler.CronJob.id =
        (d.scheduler.jobs.filter (JobMeta.isDue now)).map JobMeta.id := List.map_map
    have hnodup : ((d.scheduler.jobs.filter (JobMeta.isDue now)).map JobMeta.id).Nodup :=
      h.unique.sublist (List.filter_sublist.map _)
    simp only [SchedulerCall.change, JobMeta.claimed, Daemon.step, hids]
    split_ifs with hdue
    · intro hrecurring henabled
      have hnext : m.job.nextRun.isSome := (Bool.and_eq_true_iff.1 ((armed_iff m).2 ⟨now, hdue⟩)).2
      refine ⟨?_, fun hnone => absurd hnone Bool.false_ne_true⟩
      show List.count m.id (_ ++ _) ≤ 1
      rw [List.count_append, List.count_eq_zero.2 ((hsettled hrecurring henabled).2 hnext),
        zero_add]
      exact List.nodup_iff_count_le_one.1 hnodup m.id
    · intro hrecurring henabled
      obtain ⟨hcount, harmed⟩ := hsettled hrecurring henabled
      have hnot : m.id ∉ (d.scheduler.jobs.filter (JobMeta.isDue now)).map JobMeta.id := by
        intro hmem
        obtain ⟨x, hx, hid⟩ := List.mem_map.1 hmem
        obtain ⟨hx, hxdue⟩ := List.mem_filter.1 hx
        exact hdue (h.unique.eq hx hm hid ▸ hxdue)
      rw [List.count_append, List.count_eq_zero.2 hnot, add_zero]
      refine ⟨hcount, fun hnext hmem => ?_⟩
      exact (List.mem_append.1 hmem).elim (harmed hnext) hnot
  | recordSuccess now id =>
    refine hsettled.erase (id_change _ m) ?_ ?_ fun hid => if_neg hid
    · simp only [SchedulerCall.change, JobMeta.changeAt]
      split_ifs <;> exact fun h => h
    · simp only [SchedulerCall.change, JobMeta.changeAt]
      split_ifs <;> exact fun h => h
  | recordFailure now id errorMsg transient =>
    refine hsettled.erase (id_change _ m) ?_ ?_ fun hid => if_neg hid
    · simp only [SchedulerCall.change, JobMeta.changeAt, JobMeta.failed]
      split_ifs <;> exact fun h => h
    · simp only [SchedulerCall.change, JobMeta.changeAt, JobMeta.failed]
      split_ifs
      · exact fun h => h
      · exact fun h => h.elim
      · exact fun h => h
      · exact fun h => h

theorem Daemon.Settled.step (h : d.Settled) (horderly : d.Orderly crates c) :
    (d.step crates c).Settled := by
  refine ⟨unique_step h.unique, fun m hm => ?_⟩
  by_cases haccepts : d.Accepts crates c
  · by_cases hc : ∃ now, c = .restart now
    · obtain ⟨now, rfl⟩ := hc
      exact settled_of_not_mem List.not_mem_nil
    · rcases mem_step haccepts hm with ⟨x, hx, rfl⟩ | ⟨now, job, oneShot, rfl, rfl⟩ | ⟨now, hnow, -⟩
      · exact settled_change h hx haccepts horderly fun now hnow => hc ⟨now, hnow⟩
      · intro hrecurring henabled
        exact settled_of_not_mem (fun hrunning => horderly haccepts hrunning ⟨hrecurring, henabled⟩)
          hrecurring henabled
      · exact absurd ⟨now, hnow⟩ hc
  · rw [step_of_not_accepts haccepts] at hm ⊢
    exact h.settled m hm

theorem Daemon.Settled.exclusive (h : d.Settled) : d.Exclusive := by
  refine (exclusive_iff h.unique).2 fun m hm hrecurring harmed => ?_
  obtain ⟨henabled, hnext⟩ := Bool.and_eq_true_iff.1 harmed
  exact (h.settled m hm hrecurring henabled).2 hnext

/-- A call after which no job that is being run can be claimed is orderly. -/
theorem orderly_of_exclusive (h : d.Settled) (hexclusive : (d.step crates c).Exclusive) :
    d.Orderly crates c := by
  have hnot := (exclusive_iff (unique_step h.unique)).1 hexclusive
  cases c with
  | addJob now job oneShot =>
    rintro ⟨r, hadd⟩ hrunning ⟨hrecurring, henabled⟩
    refine hnot (JobMeta.added crates now job oneShot) ?_ hrecurring ?_ hrunning
    · simp only [Daemon.step, hadd, Except.map, CronScheduler.keep]
      rw [addJob_eq_ok hadd]
      exact Table.mem_upsert.2 (Or.inl rfl)
    · exact Bool.and_eq_true_iff.2 ⟨henabled, rfl⟩
  | setEnabled now id enabled =>
    intro henabled hrunning m hm hid hrecurring
    refine hnot (m.withEnabled crates now enabled) ?_ ?_ ?_ ?_
    · have hlookup : Table.lookup JobMeta.id id d.scheduler.jobs = some m :=
        (Table.lookup_eq_some_iff h.unique).2 ⟨hm, hid⟩
      simp only [Daemon.step, CronScheduler.setEnabled, hlookup, CronScheduler.keep]
      exact Table.mem_modify.2 (Or.inl ⟨m, hm, hid, rfl⟩)
    · rw [JobMeta.withEnabled, if_pos henabled]
      exact hrecurring
    · rw [JobMeta.withEnabled, if_pos henabled]
      rfl
    · rw [JobMeta.withEnabled, if_pos henabled]
      exact hid ▸ hrunning
  | updateJob now id updated oneShot =>
    rintro ⟨s, hupdate⟩ hrunning ⟨hrecurring, henabled⟩
    obtain ⟨⟨m, hlookup⟩, hs⟩ := updateJob_eq_ok hupdate
    obtain ⟨hm, hid⟩ := (Table.lookup_eq_some_iff h.unique).1 hlookup
    refine hnot (m.withUpdate crates now updated oneShot) ?_ hrecurring ?_ ?_
    · simp only [Daemon.step, hupdate, CronScheduler.keep]
      rw [hs]
      exact Table.mem_modify.2 (Or.inl ⟨m, hm, hid, rfl⟩)
    · exact Bool.and_eq_true_iff.2 ⟨henabled, rfl⟩
    · show m.id ∈ d.running
      rw [hid]
      exact hrunning
  | removeJob id => trivial
  | reassignAgent oldId newId => trivial
  | claimDueJobs now => trivial
  | recordSuccess now id => trivial
  | recordFailure now id errorMsg transient => trivial
  | persist => trivial
  | restart now => trivial

theorem settled_start (maxTotalJobs : ℕ) : (Daemon.start maxTotalJobs : Daemon ι).Settled :=
  ⟨List.nodup_nil, fun _ hm => absurd hm List.not_mem_nil⟩

/-! ### A job that is claimed twice -/

/-- Crates that a job with an interval does not ask. -/
def noCrates : Crates ℕ Unit Unit where
  isAlphanumeric := Char.isAlphanum
  parseUuid _ := .error "invalid character"
  printUuid := toString
  parseCron _ := .error "Invalid expression"
  parseZone _ := none
  utc := ()
  upcoming _ _ _ := none
  readSchedule _ := .error "invalid type"
  readAction _ := .error "invalid type"
  readDelivery _ := .error "invalid type"

/-- A job that runs each minute. -/
def minutely : Scheduler.CronJob ℕ where
  id := 1
  agentId := 2
  name := "report"
  enabled := true
  schedule := .every 60
  action := .systemEvent "report"
  delivery := .nowhere
  createdAt := 0
  lastRun := none
  nextRun := none

/-- The job is claimed, and is enabled while its worker is running. -/
def rearmed : List (SchedulerCall ℕ) :=
  [.addJob 0 minutely false, .claimDueJobs (60 * second), .setEnabled (61 * second) 1 true]

/-- A minute later it is claimed again. -/
theorem rearmed_not_exclusive :
    ¬ ∀ (crates : Crates ℕ Unit Unit) (maxTotalJobs : ℕ) (calls : List (SchedulerCall ℕ)),
      (run (Daemon.step crates) (Daemon.start maxTotalJobs) calls).Exclusive := by
  intro h
  let d : Daemon ℕ := run (Daemon.step noCrates) (Daemon.start 500) rearmed
  have hclaimed : ∃ job ∈ (d.scheduler.claimDueJobs (121 * second)).1, job.id ∈ d.running ∧
      ∃ m ∈ d.scheduler.jobs, m.id = job.id ∧ m.recurring = true := by decide
  obtain ⟨job, hjob, hrunning, m, hm, hid, hrecurring⟩ := hclaimed
  have hfalse := h noCrates 500 rearmed (121 * second) job hjob hrunning m hm hid
  rw [hrecurring] at hfalse
  cases hfalse

/-- In no state of a run can a recurring job be claimed that a running worker has claimed, if and
only if no call of the run arms such a job. -/
theorem exclusive_iff_orderly (crates : Crates ι σ ζ) (maxTotalJobs : ℕ)
    (calls : List (SchedulerCall ι)) :
    (∀ k, (run (Daemon.step crates) (Daemon.start maxTotalJobs) (calls.take k)).Exclusive) ↔
      Along (Daemon.step crates) (Daemon.Orderly crates) (Daemon.start maxTotalJobs) calls :=
  forall_take_iff_along (settled_start maxTotalJobs) (fun _ h => h.exclusive)
    (fun _ _ h horderly => h.step horderly) fun _ _ h => orderly_of_exclusive h

end Cron
end RustyHand
