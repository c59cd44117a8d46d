import RustyHand.Kernel.Cron
import RustyHand.Lib.Runs

/-!
# Runs of the cron scheduler

The scheduler with its workers and its file, over any sequence of calls.  A worker has claimed a job
until it records the outcome; after a restart there are none, and the jobs are those of the file.

* `Daemon`, `SchedulerCall`, `Daemon.step`;
* `Daemon.Live`: no enabled job waits for nothing, and `live_run`: that is so in every state;
* `Daemon.Exclusive`: no recurring job that a worker has claimed can be claimed again;
* `exclusive_iff_orderly`: the runs in which that is so.
-/

namespace RustyHand
namespace Cron

open Runs Scheduler

variable {ι σ ζ : Type} [DecidableEq ι] (crates : Crates ι σ ζ)

/-- The scheduler, the ids of the jobs that were claimed and whose outcome is not recorded, and the
jobs of the file. -/
structure Daemon (ι : Type) where
  scheduler : CronScheduler ι
  running : List ι := []
  file : List (JobMeta ι) := []

/-- A call of the scheduler, or a restart of the kernel. -/
inductive SchedulerCall (ι : Type)
  | addJob (now : Time) (job : Scheduler.CronJob ι) (oneShot : Bool)
  | removeJob (id : ι)
  | setEnabled (now : Time) (id : ι) (enabled : Bool)
  | updateJob (now : Time) (id : ι) (updated : Scheduler.CronJob ι) (oneShot : Bool)
  | reassignAgent (oldId newId : ι)
  | claimDueJobs (now : Time)
  | recordSuccess (now : Time) (id : ι)
  | recordFailure (now : Time) (id : ι) (errorMsg : String) (transient : Bool)
  | persist
  | restart (now : Time)

/-- The scheduler that a call leaves; a call that fails leaves it as it was. -/
def CronScheduler.keep (s : CronScheduler ι) (r : Except String (CronScheduler ι)) :
    CronScheduler ι :=
  match r with
  | .ok s => s
  | .error _ => s

/-- What a call makes of the daemon. -/
def Daemon.step (d : Daemon ι) : SchedulerCall ι → Daemon ι
  | .addJob now job oneShot =>
    { d with
      scheduler := d.scheduler.keep ((d.scheduler.addJob crates now job oneShot).map Prod.snd) }
  | .removeJob id =>
    { d with scheduler := d.scheduler.keep ((d.scheduler.removeJob crates id).map Prod.snd) }
  | .setEnabled now id enabled =>
    { d with scheduler := d.scheduler.keep (d.scheduler.setEnabled crates now id enabled) }
  | .updateJob now id updated oneShot =>
    { d with scheduler := d.scheduler.keep (d.scheduler.updateJob crates now id updated oneShot) }
  | .reassignAgent oldId newId => { d with scheduler := d.scheduler.reassignAgent oldId newId }
  | .claimDueJobs now =>
    { d with
      scheduler := (d.scheduler.claimDueJobs now).2
      running := d.running ++ (d.scheduler.claimDueJobs now).1.map Scheduler.CronJob.id }
  | .recordSuccess now id =>
    { d with scheduler := d.scheduler.recordSuccess crates now id, running := d.running.erase id }
  | .recordFailure now id errorMsg transient =>
    { d with
      scheduler := d.scheduler.recordFailure crates now id errorMsg transient
      running := d.running.erase id }
  | .persist => { d with file := d.scheduler.jobs }
  | .restart now =>
    { d with scheduler := { d.scheduler with jobs := [] }.load crates now d.file, running := [] }

/-- A kernel that starts without a file. -/
def Daemon.start (maxTotalJobs : ℕ) : Daemon ι := { scheduler := { maxTotalJobs := maxTotalJobs } }

/-! ### What the calls do to the jobs -/

/-- The job that `load` makes of one in the file. -/
def JobMeta.loaded (now : Time) (m : JobMeta ι) : JobMeta ι :=
  if m.job.enabled ∧ m.job.nextRun = none then
    { m with job := { m.job with nextRun := some (computeNextRun crates now m.job.schedule) } }
  else m

/-- What `record_success` makes of a job that stays. -/
def JobMeta.succeeded (now : Time) (m : JobMeta ι) : JobMeta ι :=
  { m with
    job :=
      { m.job with
        lastRun := some now
        nextRun := some (computeNextRun crates now m.job.schedule) }
    lastStatus := some "ok"
    consecutiveErrors := 0 }

/-- What `claim_due_jobs` makes of a job. -/
def JobMeta.claimed (now : Time) (m : JobMeta ι) : JobMeta ι :=
  if JobMeta.isDue now m then { m with job := { m.job with nextRun := none } } else m

/-- What `reassign_agent` makes of a job. -/
def JobMeta.reassigned (oldId newId : ι) (m : JobMeta ι) : JobMeta ι :=
  if m.job.agentId = oldId then { m with job := { m.job with agentId := newId } } else m

/-- A change of the job with an id. -/
def JobMeta.changeAt (id : ι) (f : JobMeta ι → JobMeta ι) (m : JobMeta ι) : JobMeta ι :=
  if m.id = id then f m else m

/-- What a call makes of a job that was in the table, if it is still there. -/
def SchedulerCall.change : SchedulerCall ι → JobMeta ι → JobMeta ι
  | .setEnabled now id enabled => JobMeta.changeAt id (JobMeta.withEnabled crates now enabled)
  | .updateJob now id updated oneShot =>
    JobMeta.changeAt id (JobMeta.withUpdate crates now updated oneShot)
  | .reassignAgent oldId newId => JobMeta.reassigned oldId newId
  | .claimDueJobs now => JobMeta.claimed now
  | .recordSuccess now id => JobMeta.changeAt id (JobMeta.succeeded crates now)
  | .recordFailure now id errorMsg transient =>
    JobMeta.changeAt id (JobMeta.failed crates now errorMsg transient)
  | .addJob .. => fun m => m
  | .removeJob _ => fun m => m
  | .persist => fun m => m
  | .restart _ => fun m => m

/-- The entry of a new job. -/
def JobMeta.added (now : Time) (job : Scheduler.CronJob ι) (oneShot : Bool) : JobMeta ι :=
  ⟨{ job with nextRun := some (computeNextRun crates now job.schedule) }, oneShot, none, 0⟩

/-- A call that is not refused for what it says. -/
def Daemon.Accepts (d : Daemon ι) : SchedulerCall ι → Prop
  | .addJob now job oneShot => ∃ r, d.scheduler.addJob crates now job oneShot = .ok r
  | .updateJob now id updated oneShot => ∃ s,
      d.scheduler.updateJob crates now id updated oneShot = .ok s
  | _ => True

variable {crates} {d : Daemon ι} {now : Time} {id : ι} {c : SchedulerCall ι}

theorem addJob_eq_ok {s : CronScheduler ι} {job : Scheduler.CronJob ι} {oneShot : Bool}
    {r : ι × CronScheduler ι} (h : s.addJob crates now job oneShot = .ok r) :
    r = (job.id, { s with
      jobs := Table.upsert JobMeta.id (JobMeta.added crates now job oneShot) s.jobs }) := by
  unfold CronScheduler.addJob at h
  split_ifs at h with hfull
  simp only [seq_eq_ok] at h
  obtain ⟨-, -, h⟩ := h
  exact (Except.ok.inj h).symm

theorem updateJob_eq_ok {s s' : CronScheduler ι} {updated : Scheduler.CronJob ι} {oneShot : Bool}
    (h : s.updateJob crates now id updated oneShot = .ok s') :
    (∃ m, Table.lookup JobMeta.id id s.jobs = some m) ∧
      s' = s.commitUpdate crates now id updated oneShot := by
  unfold CronScheduler.updateJob at h
  split at h
  · cases h
  · rename_i m hm
    simp only [seq_eq_ok] at h
    obtain ⟨-, -, h⟩ := h
    exact ⟨⟨m, hm⟩, (Except.ok.inj h).symm⟩

/-- A call that is refused changes nothing. -/
theorem step_of_not_accepts (h : ¬ d.Accepts crates c) : d.step crates c = d := by
  cases c with
  | addJob now job oneShot =>
    cases hadd : d.scheduler.addJob crates now job oneShot with
    | error e => simp only [Daemon.step, hadd, Except.map, CronScheduler.keep]
    | ok r => exact absurd ⟨r, hadd⟩ h
  | updateJob now id updated oneShot =>
    cases hupdate : d.scheduler.updateJob crates now id updated oneShot with
    | error e => simp only [Daemon.step, hupdate, CronScheduler.keep]
    | ok r => exact absurd ⟨r, hupdate⟩ h
  | removeJob id => exact absurd trivial h
  | setEnabled now id enabled => exact absurd trivial h
  | reassignAgent oldId newId => exact absurd trivial h
  | claimDueJobs now => exact absurd trivial h
  | recordSuccess now id => exact absurd trivial h
  | recordFailure now id errorMsg transient => exact absurd trivial h
  | persist => exact absurd trivial h
  | restart now => exact absurd trivial h

theorem map_changeAt_of_lookup {rows : List (JobMeta ι)}
    (h : Table.lookup JobMeta.id id rows = none)
    (f : JobMeta ι → JobMeta ι) : rows.map (JobMeta.changeAt id f) = rows := by
  rw [Table.lookup_eq_none_iff] at h
  refine (List.map_congr_left fun m hm => ?_).trans (List.map_id _)
  exact if_neg fun hid => h (List.mem_map.2 ⟨m, hm, hid⟩)

/-- A job that succeeds stays or is removed. -/
theorem jobs_recordSuccess (crates : Crates ι σ ζ) (s : CronScheduler ι) (now : Time) (id : ι) :
    (s.recordSuccess crates now id).jobs =
        s.jobs.map (JobMeta.changeAt id (JobMeta.succeeded crates now)) ∨
      (s.recordSuccess crates now id).jobs = Table.erase JobMeta.id id s.jobs := by
  unfold CronScheduler.recordSuccess
  cases hlookup : Table.lookup JobMeta.id id s.jobs with
  | none => exact Or.inl (map_changeAt_of_lookup hlookup _).symm
  | some m =>
    dsimp only
    split_ifs with honce
    · exact Or.inr rfl
    · exact Or.inl rfl

/-- A job that fails stays or is removed. -/
theorem jobs_recordFailure (crates : Crates ι σ ζ) (s : CronScheduler ι) (now : Time) (id : ι)
    (errorMsg : String) (transient : Bool) :
        (s.recordFailure crates now id errorMsg transient).jobs =
        s.jobs.map (JobMeta.changeAt id (JobMeta.failed crates now errorMsg transient)) ∨
      (s.recordFailure crates now id errorMsg transient).jobs =
          Table.erase JobMeta.id id s.jobs := by
  unfold CronScheduler.recordFailure
  cases hlookup : Table.lookup JobMeta.id id s.jobs with
  | none => exact Or.inl (map_changeAt_of_lookup hlookup _).symm
  | some m =>
    dsimp only
    split_ifs with honce
    · exact Or.inr rfl
    · exact Or.inl rfl

theorem mem_load {s : CronScheduler ι} {metas : List (JobMeta ι)} {m : JobMeta ι}
    (hm : m ∈ (s.load crates now metas).jobs) :
    m ∈ s.jobs ∨ ∃ x ∈ metas, m = x.loaded crates now := by
  have hfold : ∀ rows : List (JobMeta ι),
      m ∈ metas.foldl (fun jobs x => Table.upsert JobMeta.id (x.loaded crates now) jobs) rows →
        m ∈ rows ∨ ∃ x ∈ metas, m = x.loaded crates now := by
    clear hm
    induction metas with
    | nil => exact fun rows hm => Or.inl hm
    | cons x metas ih =>
      intro rows hm
      rcases ih _ hm with hm | ⟨y, hy, rfl⟩
      · rcases Table.mem_upsert.1 hm with rfl | ⟨hm, -⟩
        · exact Or.inr ⟨x, List.mem_cons_self, rfl⟩
        · exact Or.inl hm
      · exact Or.inr ⟨y, List.mem_cons_of_mem _ hy, rfl⟩
  exact hfold s.jobs hm

/-- Where a job comes from that is in the table after a call. -/
theorem mem_step (h : d.Accepts crates c) {m : JobMeta ι}
    (hm : m ∈ (d.step crates c).scheduler.jobs) :
    (∃ x ∈ d.scheduler.jobs, m = c.change crates x) ∨
      (∃ now job oneShot, c = .addJob now job oneShot ∧ m = JobMeta.added crates now job oneShot) ∨
      ∃ now, c = .restart now ∧ ∃ x ∈ d.file, m = x.loaded crates now := by
  have herase : ∀ {id : ι} {f : JobMeta ι → JobMeta ι},
      m ∈ Table.erase JobMeta.id id d.scheduler.jobs →
        ∃ x ∈ d.scheduler.jobs, m = JobMeta.changeAt id f x := by
    intro id f hm
    obtain ⟨hm, hid⟩ := Table.mem_erase.1 hm
    exact ⟨m, hm, (if_neg hid).symm⟩
  have hmap : ∀ {f : JobMeta ι → JobMeta ι}, m ∈ d.scheduler.jobs.map f →
      ∃ x ∈ d.scheduler.jobs, m = f x := by
    intro f hm
    obtain ⟨x, hx, hxm⟩ := List.mem_map.1 hm
    exact ⟨x, hx, hxm.symm⟩
  cases c with
  | addJob now job oneShot =>
    obtain ⟨r, hadd⟩ := h
    simp only [Daemon.step, hadd, Except.map, CronScheduler.keep] at hm
    rw [addJob_eq_ok hadd] at hm
    rcases Table.mem_upsert.1 hm with rfl | ⟨hm, -⟩
    · exact Or.inr (Or.inl ⟨now, job, oneShot, rfl, rfl⟩)
    · exact Or.inl ⟨m, hm, rfl⟩
  | removeJob id =>
    simp only [Daemon.step, CronScheduler.removeJob] at hm
    cases hlookup : Table.lookup JobMeta.id id d.scheduler.jobs with
    | none =>
      rw [hlookup] at hm
      exact Or.inl ⟨m, hm, rfl⟩
    | some x =>
      rw [hlookup] at hm
      exact Or.inl ⟨m, (Table.mem_erase.1 hm).1, rfl⟩
  | setEnabled now id enabled =>
    simp only [Daemon.step, CronScheduler.setEnabled] at hm
    cases hlookup : Table.lookup JobMeta.id id d.scheduler.jobs with
    | none =>
      rw [hlookup] at hm
      refine Or.inl (hmap ?_)
      rw [SchedulerCall.change, map_changeAt_of_lookup hlookup]
      exact hm
    | some x =>
      rw [hlookup] at hm
      exact Or.inl (hmap hm)
  | updateJob now id updated oneShot =>
    obtain ⟨s, hupdate⟩ := h
    simp only [Daemon.step, hupdate, CronScheduler.keep] at hm
    rw [(updateJob_eq_ok hupdate).2] at hm
    exact Or.inl (hmap hm)
  | reassignAgent oldId newId => exact Or.inl (hmap hm)
  | claimDueJobs now => exact Or.inl (hmap hm)
  | recordSuccess now id =>
    simp only [Daemon.step] at hm
    rcases jobs_recordSuccess crates d.scheduler now id with hjobs | hjobs
    · exact Or.inl (hmap (hjobs ▸ hm))
    · exact Or.inl (herase (hjobs ▸ hm))
  | recordFailure now id errorMsg transient =>
    simp only [Daemon.step] at hm
    rcases jobs_recordFailure crates d.scheduler now id errorMsg transient with
      hjobs | hjobs
    · exact Or.inl (hmap (hjobs ▸ hm))
    · exact Or.inl (herase (hjobs ▸ hm))
  | persist => exact Or.inl ⟨m, hm, rfl⟩
  | restart now =>
    rcases mem_load hm with hm | hm
    · exact absurd hm List.not_mem_nil
    · exact Or.inr (Or.inr ⟨now, rfl, hm⟩)

/-! ### No job waits for nothing -/

/-- An enabled job has a time, or a worker has claimed it; and its errors are below the limit. -/
def JobMeta.Live (running : List ι) (m : JobMeta ι) : Prop :=
  m.job.enabled → (m.job.nextRun.isSome ∨ m.id ∈ running) ∧
      m.consecutiveErrors < maxConsecutiveErrors

/-- All enabled jobs are live, and so will be those of the file. -/
def Daemon.Live (d : Daemon ι) : Prop := ∀ m ∈ d.scheduler.jobs, m.Live d.running

/-- The enabled jobs of the file have errors below the limit. -/
def Daemon.FileBelow (d : Daemon ι) : Prop :=
  ∀ m ∈ d.file, m.job.enabled → m.consecutiveErrors < maxConsecutiveErrors

omit [DecidableEq ι] in
theorem JobMeta.Live.loaded {m : JobMeta ι} {running : List ι}
    (h : m.job.enabled → m.consecutiveErrors < maxConsecutiveErrors) (now : Time) :
    (m.loaded crates now).Live running := by
  unfold JobMeta.loaded
  split_ifs with hnone
  · exact fun _ => ⟨Or.inl rfl, h hnone.1⟩
  · intro henabled
    refine ⟨Or.inl ?_, h henabled⟩
    rw [Option.isSome_iff_ne_none]
    exact fun hnext => hnone ⟨henabled, hnext⟩

omit [DecidableEq ι] in
theorem JobMeta.live_failed (now : Time) (errorMsg : String) (transient : Bool) {m : JobMeta ι}
    {running running' : List ι} (h : m.Live running) :
    (m.failed crates now errorMsg transient).Live running' := by
  unfold JobMeta.failed
  dsimp only
  split_ifs with htransient hlimit
  · exact fun henabled => ⟨Or.inl rfl, (h henabled).2⟩
  · exact fun henabled => absurd henabled Bool.false_ne_true
  · exact fun _ => ⟨Or.inl rfl, not_le.1 hlimit⟩

theorem JobMeta.Live.erase {m : JobMeta ι} {running : List ι} (h : m.Live running)
    (hid : m.id ≠ id) :
    m.Live (running.erase id) := fun henabled =>
  ⟨(h henabled).1.imp_right fun hrunning => (List.mem_erase_of_ne hid).2 hrunning, (h henabled).2⟩

theorem live_change {m : JobMeta ι} (hm : m ∈ d.scheduler.jobs) (h : m.Live d.running)
    (c : SchedulerCall ι) (hc : ∀ now, c ≠ .restart now) :
        (c.change crates m).Live (d.step crates c).running := by
  cases c with
  | addJob now job oneShot => exact h
  | removeJob id => exact h
  | persist => exact h
  | restart now => exact absurd rfl (hc now)
  | setEnabled now id enabled =>
    simp only [SchedulerCall.change, JobMeta.changeAt, JobMeta.withEnabled]
    split_ifs with hid henabled
    · exact fun _ => ⟨Or.inl rfl, Nat.zero_lt_succ _⟩
    · exact fun hfalse => absurd hfalse Bool.false_ne_true
    · exact h
  | updateJob now id updated oneShot =>
    simp only [SchedulerCall.change, JobMeta.changeAt]
    split_ifs with hid
    · exact fun _ => ⟨Or.inl rfl, Nat.zero_lt_succ _⟩
    · exact h
  | reassignAgent oldId newId =>
    simp only [SchedulerCall.change, JobMeta.reassigned]
    split_ifs with hagent
    · exact h
    · exact h
  | claimDueJobs now =>
    simp only [SchedulerCall.change, JobMeta.claimed]
    split_ifs with hdue
    · refine fun henabled => ⟨Or.inr (List.mem_append_right _ ?_), (h henabled).2⟩
      simp only [CronScheduler.claimDueJobs, List.map_map]
      exact List.mem_map.2 ⟨m, List.mem_filter.2 ⟨hm, hdue⟩, rfl⟩
    · exact fun henabled => ⟨(h henabled).1.imp_right (List.mem_append_left _), (h henabled).2⟩
  | recordSuccess now id =>
    simp only [SchedulerCall.change, JobMeta.changeAt]
    split_ifs with hid
    · exact fun _ => ⟨Or.inl rfl, Nat.zero_lt_succ _⟩
    · exact h.erase hid
  | recordFailure now id errorMsg transient =>
    simp only [SchedulerCall.change, JobMeta.changeAt]
    split_ifs with hid
    · exact JobMeta.live_failed now errorMsg transient h
    · exact h.erase hid

theorem Daemon.Live.step (h : d.Live) (hfile : d.FileBelow) (c : SchedulerCall ι) :
    (d.step crates c).Live ∧ (d.step crates c).FileBelow := by
  by_cases haccepts : d.Accepts crates c
  · constructor
    · intro m hm
      by_cases hc : ∃ now, c = .restart now
      · obtain ⟨now, rfl⟩ := hc
        rcases mem_load hm with hm | ⟨x, hx, rfl⟩
        · exact absurd hm List.not_mem_nil
        · exact JobMeta.Live.loaded (hfile x hx) now
      · rcases mem_step haccepts hm with ⟨x, hx, rfl⟩ | ⟨now, job, oneShot, rfl, rfl⟩ |
        ⟨now, hnow, -⟩
        · exact live_change hx (h x hx) c fun now hnow => hc ⟨now, hnow⟩
        · exact fun _ => ⟨Or.inl rfl, Nat.zero_lt_succ _⟩
        · exact absurd ⟨now, hnow⟩ hc
    · cases c with
      | persist => exact fun m hm henabled => (h m hm henabled).2
      | _ => exact hfile
  · rw [step_of_not_accepts haccepts]
    exact ⟨h, hfile⟩

/-- In every state that any calls and restarts lead to, each enabled job has a next run or is
claimed by a running worker, and has fewer errors than the limit. -/
theorem live_run (crates : Crates ι σ ζ) (maxTotalJobs : ℕ) (calls : List (SchedulerCall ι)) :
    (run (Daemon.step crates) (Daemon.start maxTotalJobs) calls).Live := by
  have hall : Along (Daemon.step crates) (fun _ _ => True) (Daemon.start maxTotalJobs) calls :=
    along_of_forall fun _ _ => trivial
  refine (hall.invariant (I := fun d => d.Live ∧ d.FileBelow) ⟨?_, ?_⟩ ?_).1
  · exact fun m hm => absurd hm List.not_mem_nil
  · exact fun m hm => absurd hm List.not_mem_nil
  · exact fun d c h _ => h.1.step h.2 c

end Cron
end RustyHand
