import RustyHand.Lib.Table
import RustyHand.Types.Json
import RustyHand.Types.Scheduler

/-!
# The cron scheduler

`CronScheduler` of `rusty-hand-kernel/src/cron.rs`: the table of jobs, and what is done to it.  The
clock is read once in a call, and its value is an argument.

* `Crates`: what comes from other crates (`cron`, `chrono-tz`, `uuid`, `serde_json`);
* `computeNextRun`, `validateScheduleParses`: a schedule and its next time;
* `CronScheduler`: the operations;
* `cronCreate`, `cronList`, `cronCancel`: what the kernel offers to the tools.
-/

namespace RustyHand
namespace Cron

open Scheduler

/-- What comes from other crates: ids in `ι`, parsed expressions in `σ` and time zones in `ζ`.
`upcoming` is the first time after `now` at which an expression fires in a zone, and the last three
are `from_value`. -/
structure Crates (ι σ ζ : Type) where
  isAlphanumeric : Char → Bool
  parseUuid : String → Except String ι
  printUuid : ι → String
  parseCron : String → Except String σ
  parseZone : String → Option ζ
  utc : ζ
  upcoming : σ → ζ → Time → Option Time
  readSchedule : Json → Except String CronSchedule
  readAction : Json → Except String CronAction
  readDelivery : Json → Except String CronDelivery

/-- `MAX_CONSECUTIVE_ERRORS`. -/
def maxConsecutiveErrors : ℕ := 5

/-- `Internal(message)`, as it is shown. -/
def internalError (message : String) : String := "Internal error: " ++ message

/-- `InvalidInput(message)`, as it is shown. -/
def invalidInput (message : String) : String := "Invalid input: " ++ message

variable {ι σ ζ : Type} (crates : Crates ι σ ζ)

/-- The seven fields that the `cron` crate reads. -/
def sevenField (expr : String) : String := "0 " ++ expr ++ " *"

/-- The zone of an expression; an unknown zone is UTC. -/
def zoneOf (tz : Option String) : ζ := (tz.bind crates.parseZone).getD crates.utc

/-- An hour. -/
def hour : Time := 3600 * second

/-- `compute_next_run`. -/
def computeNextRun (now : Time) : CronSchedule → Time
  | .«at» time => time
  | .every everySecs => now + everySecs * second
  | .cron expr tz =>
    match crates.parseCron (sevenField expr) with
    | .ok schedule => (crates.upcoming schedule (zoneOf crates tz) now).getD (now + hour)
    | .error _ => now + hour

/-- `validate_schedule_parses`. -/
def validateScheduleParses (now : Time) : CronSchedule → Except String Unit
  | .cron expr tz =>
    match crates.parseCron (sevenField expr) with
    | .error e => .error ("invalid cron expression \"" ++ expr ++ "\": " ++ e)
    | .ok schedule => do
      require ("unknown IANA timezone \"" ++ tz.getD "" ++ "\"")
        (tz.all fun t => (crates.parseZone t).isSome)
      require ("cron expression \"" ++ expr ++ "\" never matches any future time")
        (crates.upcoming schedule (zoneOf crates tz) now).isSome
  | _ => .ok ()

/-- `JobMeta`. -/
structure JobMeta (ι : Type) where
  job : Scheduler.CronJob ι
  oneShot : Bool
  lastStatus : Option String := none
  consecutiveErrors : ℕ := 0
  deriving DecidableEq

/-- `CronScheduler`, without the path of its file. -/
structure CronScheduler (ι : Type) where
  jobs : List (JobMeta ι) := []
  maxTotalJobs : ℕ
  deriving DecidableEq

/-- The key of a job in the table. -/
def JobMeta.id (m : JobMeta ι) : ι := m.job.id

/-- A job that `claim_due_jobs` claims. -/
def JobMeta.isDue (now : Time) (m : JobMeta ι) : Bool :=
  m.job.enabled && m.job.nextRun.any fun t => t ≤ now

/-- A schedule that fires once. -/
def isAtSchedule : CronSchedule → Bool
  | .«at» _ => true
  | _ => false

/-- What `set_enabled` makes of a job. -/
def JobMeta.withEnabled (now : Time) (enabled : Bool) (m : JobMeta ι) : JobMeta ι :=
  if enabled then
    { m with
      job :=
        { m.job with
          enabled := true
          nextRun := some (computeNextRun crates now m.job.schedule) }
      consecutiveErrors := 0 }
  else { m with job := { m.job with enabled := false } }

/-- What `update_job` makes of a job: the new one under the old id, with its history. -/
def JobMeta.withUpdate (now : Time) (updated : Scheduler.CronJob ι) (oneShot : Bool)
    (m : JobMeta ι) : JobMeta ι :=
  { m with
    job :=
      { updated with
        id := m.job.id
        createdAt := m.job.createdAt
        lastRun := m.job.lastRun
        nextRun := some (computeNextRun crates now updated.schedule) }
    oneShot := oneShot
    consecutiveErrors := 0 }

/-- What a failure makes of a job that stays. -/
def JobMeta.failed (now : Time) (errorMsg : String) (transient : Bool) (m : JobMeta ι) :
    JobMeta ι :=
  let m :=
    { m with
      job := { m.job with lastRun := some now }
      lastStatus := some ("error: " ++ String.ofList (errorMsg.toList.take 256)) }
  let next := some (computeNextRun crates now m.job.schedule)
  if transient then { m with job := { m.job with nextRun := next } }
  else if maxConsecutiveErrors ≤ m.consecutiveErrors + 1 then
    { m with job := { m.job with enabled := false }, consecutiveErrors := m.consecutiveErrors + 1 }
  else
    { m with job := { m.job with nextRun := next }, consecutiveErrors := m.consecutiveErrors + 1 }

variable [DecidableEq ι]

namespace CronScheduler

variable (s : CronScheduler ι)

/-- `load`: the jobs of the file, each enabled one with a time. -/
def load (now : Time) (metas : List (JobMeta ι)) : CronScheduler ι :=
  { s with
    jobs := metas.foldl
      (fun jobs m =>
        Table.upsert JobMeta.id
          (if m.job.enabled ∧ m.job.nextRun = none then
            { m with
              job := { m.job with nextRun := some (computeNextRun crates now m.job.schedule) } }
          else m) jobs) s.jobs }

/-- `list_jobs`. -/
def listJobs (agentId : ι) : List (Scheduler.CronJob ι) :=
  (s.jobs.filter fun m => m.job.agentId = agentId).map JobMeta.job

/-- `list_all_jobs`. -/
def listAllJobs : List (Scheduler.CronJob ι) := s.jobs.map JobMeta.job

/-- `add_job`. -/
def addJob (now : Time) (job : Scheduler.CronJob ι) (oneShot : Bool) :
    Except String (ι × CronScheduler ι) :=
  if s.maxTotalJobs ≤ s.jobs.length then
    .error (internalError ("Global cron job limit reached (" ++ toString s.maxTotalJobs ++ ")"))
  else do
    (job.validate crates.isAlphanumeric (fun t => (crates.parseUuid t).toBool) now
      (s.listJobs job.agentId).length).mapError invalidInput
    (validateScheduleParses crates now job.schedule).mapError invalidInput
    let job := { job with nextRun := some (computeNextRun crates now job.schedule) }
    .ok (job.id, { s with jobs := Table.upsert JobMeta.id ⟨job, oneShot, none, 0⟩ s.jobs })

/-- `remove_job`. -/
def removeJob (id : ι) : Except String (Scheduler.CronJob ι × CronScheduler ι) :=
  match Table.lookup JobMeta.id id s.jobs with
  | some m => .ok (m.job, { s with jobs := Table.erase JobMeta.id id s.jobs })
  | none => .error (internalError ("Cron job " ++ crates.printUuid id ++ " not found"))

/-- `set_enabled`. -/
def setEnabled (now : Time) (id : ι) (enabled : Bool) : Except String (CronScheduler ι) :=
  match Table.lookup JobMeta.id id s.jobs with
  | some _ =>
    .ok { s with
      jobs := Table.modify JobMeta.id id (JobMeta.withEnabled crates now enabled) s.jobs }
  | none => .error (internalError ("Cron job " ++ crates.printUuid id ++ " not found"))

/-- `update_job` from the lock of the job on. -/
def commitUpdate (now : Time) (id : ι) (updated : Scheduler.CronJob ι) (oneShot : Bool) :
    CronScheduler ι :=
  { s with
    jobs := Table.modify JobMeta.id id (JobMeta.withUpdate crates now updated oneShot) s.jobs }

/-- `update_job`. -/
def updateJob (now : Time) (id : ι) (updated : Scheduler.CronJob ι) (oneShot : Bool) :
    Except String (CronScheduler ι) :=
  match Table.lookup JobMeta.id id s.jobs with
  | none => .error (internalError ("Cron job " ++ crates.printUuid id ++ " not found"))
  | some _ => do
    (updated.validate crates.isAlphanumeric (fun t => (crates.parseUuid t).toBool) now
      ((s.listJobs updated.agentId).filter fun job => job.id ≠ id).length).mapError invalidInput
    (validateScheduleParses crates now updated.schedule).mapError invalidInput
    .ok (s.commitUpdate crates now id updated oneShot)

/-- `reassign_agent`. -/
def reassignAgent (oldId newId : ι) : CronScheduler ι :=
  { s with
    jobs := s.jobs.map fun m =>
      if m.job.agentId = oldId then { m with job := { m.job with agentId := newId } } else m }

/-- `claim_due_jobs`: the due jobs, and what is left. -/
def claimDueJobs (now : Time) : List (Scheduler.CronJob ι) × CronScheduler ι :=
  ((s.jobs.filter (JobMeta.isDue now)).map fun m => { m.job with nextRun := none },
    { s with
      jobs := s.jobs.map fun m =>
        if JobMeta.isDue now m then { m with job := { m.job with nextRun := none } } else m })

/-- `record_success`. -/
def recordSuccess (now : Time) (id : ι) : CronScheduler ι :=
  match Table.lookup JobMeta.id id s.jobs with
  | none => s
  | some m =>
    if m.oneShot || isAtSchedule m.job.schedule then
      { s with jobs := Table.erase JobMeta.id id s.jobs }
    else
      { s with
        jobs := Table.modify JobMeta.id id
          (fun m =>
            { m with
              job :=
                { m.job with
                  lastRun := some now
                  nextRun := some (computeNextRun crates now m.job.schedule) }
              lastStatus := some "ok"
              consecutiveErrors := 0 }) s.jobs }

/-- `record_failure`. -/
def recordFailure (now : Time) (id : ι) (errorMsg : String) (transient : Bool) : CronScheduler ι :=
  match Table.lookup JobMeta.id id s.jobs with
  | none => s
  | some m =>
    if isAtSchedule m.job.schedule then { s with jobs := Table.erase JobMeta.id id s.jobs }
    else
      { s with
        jobs := Table.modify JobMeta.id id (JobMeta.failed crates now errorMsg transient) s.jobs }

end CronScheduler

/-! ### The kernel's side of the tools -/

/-- A result with the state that it leaves; an error leaves the state as it was. -/
def keepOnError {α β : Type} (s : β) : Except String (α × β) → Except String α × β
  | .ok r => (.ok r.1, r.2)
  | .error e => (.error e, s)

/-- `CronJobFields`. -/
structure CronJobFields where
  name : String
  schedule : CronSchedule
  action : CronAction
  delivery : CronDelivery
  oneShot : Bool
  enabled : Bool

/-- `is_object`. -/
def isObject : Json → Bool
  | .object _ => true
  | _ => false

/-- `parse_cron_job_fields`. -/
def parseCronJobFields (job : Json) : Except String CronJobFields := do
  let name ←
    match (job.index "name").asStr with
    | some name => .ok name
    | none => .error "Missing 'name' field"
  let schedule ← (crates.readSchedule (job.index "schedule")).mapError ("Invalid schedule: " ++ ·)
  let action ← (crates.readAction (job.index "action")).mapError ("Invalid action: " ++ ·)
  let delivery ←
    if isObject (job.index "delivery") then
      (crates.readDelivery (job.index "delivery")).mapError ("Invalid delivery: " ++ ·)
    else .ok .nowhere
  .ok
    { name := name, schedule := schedule, action := action, delivery := delivery
      oneShot := (job.index "one_shot").asBool.getD false
      enabled := (job.index "enabled").asBool.getD true }

/-- `cron_create`; `newId` is the id of `CronJobId::new`. -/
def cronCreate (agentId : String) (job : Json) (newId : ι) (now : Time) (s : CronScheduler ι) :
    Except String ι × CronScheduler ι :=
  keepOnError s do
    let fields ← parseCronJobFields crates job
    let aid ← (crates.parseUuid agentId).mapError ("Invalid agent ID: " ++ ·)
    s.addJob crates now
      { id := newId, agentId := aid, name := fields.name, enabled := true
        schedule := fields.schedule, action := fields.action, delivery := fields.delivery
        createdAt := now, lastRun := none, nextRun := none } fields.oneShot

/-- `cron_list`. -/
def cronList (agentId : String) (s : CronScheduler ι) :
    Except String (List (Scheduler.CronJob ι)) := do
  let aid ← (crates.parseUuid agentId).mapError ("Invalid agent ID: " ++ ·)
  .ok (s.listJobs aid)

/-- `cron_cancel`. -/
def cronCancel (jobId : String) (s : CronScheduler ι) : Except String Unit × CronScheduler ι :=
  keepOnError s do
    let id ← (crates.parseUuid jobId).mapError ("Invalid job ID: " ++ ·)
    let r ← s.removeJob crates id
    .ok ((), r.2)

end Cron
end RustyHand
