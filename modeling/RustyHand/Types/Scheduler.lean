import RustyHand.Types.Text

/-!
# Scheduled jobs

The types of `rusty-hand-types/src/scheduler.rs`, and the checks that a job has to pass.  Times are
in nanoseconds since the epoch.  What comes from other crates is an argument: `isAlphanumeric` is
`char::is_alphanumeric`, and `isUuid` tells what `Uuid::parse_str` reads.
-/

namespace RustyHand
namespace Scheduler

open Text (byteLength splitWhitespace)

/-- The length of `s` in bytes. -/
def len (s : String) : ℕ := byteLength s.toList

/-- `MAX_JOBS_PER_AGENT`. -/
def maxJobsPerAgent : ℕ := 50
/-- `MAX_NAME_LEN`. -/
def maxNameLen : ℕ := 128
/-- `MIN_EVERY_SECS`. -/
def minEverySecs : ℕ := 60
/-- `MAX_EVERY_SECS`. -/
def maxEverySecs : ℕ := 86400
/-- `MAX_AT_HORIZON_SECS`. -/
def maxAtHorizonSecs : ℤ := 365 * 24 * 3600
/-- `MAX_EVENT_TEXT_LEN`. -/
def maxEventTextLen : ℕ := 4096
/-- `MAX_TURN_MESSAGE_LEN`. -/
def maxTurnMessageLen : ℕ := 16384
/-- `MAX_WORKFLOW_INPUT_LEN`. -/
def maxWorkflowInputLen : ℕ := 65536
/-- `MIN_TIMEOUT_SECS`. -/
def minTimeoutSecs : ℕ := 10
/-- `MAX_TIMEOUT_SECS`. -/
def maxTimeoutSecs : ℕ := 600
/-- `MAX_WEBHOOK_URL_LEN`. -/
def maxWebhookUrlLen : ℕ := 2048

/-- `DateTime<Utc>`. -/
abbrev Time : Type := ℤ

/-- A second. -/
def second : Time := 1000000000

/-- `CronSchedule`. -/
inductive CronSchedule
  | «at» (time : Time)
  | every (everySecs : ℕ)
  | cron (expr : String) (tz : Option String)
  deriving DecidableEq

/-- `CronAction`. -/
inductive CronAction
  | systemEvent (text : String)
  | agentTurn (message : String) (modelOverride : Option String) (timeoutSecs : Option ℕ)
  | workflowRun (workflowId input : String) (timeoutSecs : Option ℕ)
  deriving DecidableEq

/-- `CronDelivery`. -/
inductive CronDelivery
  | nowhere
  | channel (channel recipient : String)
  | lastChannel
  | webhook (url : String)
  deriving DecidableEq

/-- `CronJob`, with the ids of jobs and agents in `ι`. -/
structure CronJob (ι : Type) where
  id : ι
  agentId : ι
  name : String
  enabled : Bool
  schedule : CronSchedule
  action : CronAction
  delivery : CronDelivery
  createdAt : Time
  lastRun : Option Time
  nextRun : Option Time
  deriving DecidableEq

/-- A check that fails with a text. -/
def require (message : String) (ok : Bool) : Except String Unit :=
  if ok then .ok () else .error message

theorem require_eq_ok {message : String} {ok : Bool} : require message ok = .ok () ↔ ok = true := by
  cases ok <;> simp [require]

theorem bind_eq_ok {ε α β : Type} {x : Except ε α} {f : α → Except ε β} {b : β} :
    (x >>= f) = .ok b ↔ ∃ a, x = .ok a ∧ f a = .ok b := by
  cases x with
  | error e => exact iff_of_false nofun fun ⟨_, h, _⟩ => nomatch h
  | ok a => exact ⟨fun h => ⟨a, rfl, h⟩, fun ⟨_, ha, h⟩ => by cases ha; exact h⟩

/-- One check after another. -/
theorem seq_eq_ok {ε α : Type} {x : Except ε Unit} {f : Unit → Except ε α} {a : α} :
    (x >>= f) = .ok a ↔ x = .ok () ∧ f () = .ok a :=
  bind_eq_ok.trans ⟨fun ⟨_, hx, hf⟩ => ⟨hx, hf⟩, fun h => ⟨(), h⟩⟩

/-- The characters of a field. -/
def isFieldChar (c : Char) : Bool :=
  c.isDigit || c = '*' || c = '/' || c = '-' || c = ',' || c = '?'

/-- The first field with other characters. -/
def checkFields : ℕ → List String → Except String Unit
  | _, [] => .ok ()
  | i, field :: fields => do
    require ("cron field " ++ toString i ++ " is empty") (field ≠ "")
    require ("cron field " ++ toString i ++ " contains invalid characters: \"" ++ field ++ "\"")
      (field.toList.all isFieldChar)
    checkFields (i + 1) fields

/-- `validate_cron_expr`. -/
def validateCronExpr (expr : String) : Except String Unit := do
  let trimmed := Text.trim expr
  require "cron expression must not be empty" (trimmed ≠ "")
  let fields := splitWhitespace trimmed
  require ("cron expression must have exactly 5 fields (got " ++ toString fields.length ++
      "): \"" ++
    trimmed ++ "\"") (fields.length = 5)
  checkFields 0 fields

theorem checkFields_eq_ok {i : ℕ} {fields : List String} :
    checkFields i fields = .ok () ↔
      ∀ field ∈ fields, field ≠ "" ∧ field.toList.all isFieldChar = true := by
  induction fields generalizing i with
  | nil => simp [checkFields]
  | cons field fields ih => simp [checkFields, seq_eq_ok, require_eq_ok, ih, and_assoc]

/-- The shape of an expression: five words of the characters of fields. -/
theorem validateCronExpr_eq_ok {expr : String} :
    validateCronExpr expr = .ok () ↔ (splitWhitespace expr).length = 5 ∧
      ∀ field ∈ splitWhitespace expr, field.toList.all isFieldChar = true := by
  simp only [validateCronExpr, seq_eq_ok, require_eq_ok, checkFields_eq_ok, decide_eq_true_eq,
    Text.splitWhitespace_trim]
  constructor
  · rintro ⟨-, hlen, hfields⟩
    exact ⟨hlen, fun field hfield => (hfields field hfield).2⟩
  · rintro ⟨hlen, hfields⟩
    refine ⟨fun hempty => ?_, hlen, fun field hfield =>
      ⟨Text.ne_empty_of_mem_splitWhitespace hfield, hfields field hfield⟩⟩
    rw [← Text.splitWhitespace_trim, hempty] at hlen
    exact absurd hlen (by decide)

/-- `validate_schedule`. -/
def validateSchedule (now : Time) : CronSchedule → Except String Unit
  | .every everySecs => do
    require ("every_secs too small (" ++ toString everySecs ++ ", min " ++ toString minEverySecs ++
      ")") (minEverySecs ≤ everySecs)
    require ("every_secs too large (" ++ toString everySecs ++ ", max " ++ toString maxEverySecs ++
      ")") (everySecs ≤ maxEverySecs)
  | .«at» time => do
    require "scheduled time must be in the future" (now < time)
    require ("scheduled time too far in the future (max " ++ toString maxAtHorizonSecs ++
      "s / ~1 year)") ((time - now) / second ≤ maxAtHorizonSecs)
  | .cron expr _ => validateCronExpr expr

/-- The check of a timeout, made by two kinds of actions. -/
def validateTimeout : Option ℕ → Except String Unit
  | none => .ok ()
  | some t => do
    require ("timeout_secs too small (" ++ toString t ++ ", min " ++ toString minTimeoutSecs ++ ")")
      (minTimeoutSecs ≤ t)
    require ("timeout_secs too large (" ++ toString t ++ ", max " ++ toString maxTimeoutSecs ++ ")")
      (t ≤ maxTimeoutSecs)

/-- `validate_action`. -/
def validateAction (isUuid : String → Bool) : CronAction → Except String Unit
  | .systemEvent text => do
    require "system event text must not be empty" (text ≠ "")
    require ("system event text too long (" ++ toString (len text) ++ " chars, max " ++
      toString maxEventTextLen ++ ")") (len text ≤ maxEventTextLen)
  | .agentTurn message _ timeoutSecs => do
    require "agent turn message must not be empty" (message ≠ "")
    require ("agent turn message too long (" ++ toString (len message) ++ " chars, max " ++
      toString maxTurnMessageLen ++ ")") (len message ≤ maxTurnMessageLen)
    validateTimeout timeoutSecs
  | .workflowRun workflowId input timeoutSecs => do
    require "workflow_id must not be empty" (workflowId ≠ "")
    require ("workflow_id must be a valid UUID, got '" ++ workflowId ++ "'") (isUuid workflowId)
    require ("workflow input too long (" ++ toString (len input) ++ " chars, max " ++
      toString maxWorkflowInputLen ++ ")") (len input ≤ maxWorkflowInputLen)
    validateTimeout timeoutSecs

/-- `validate_delivery`. -/
def validateDelivery : CronDelivery → Except String Unit
  | .channel channel recipient => do
    require "delivery channel must not be empty" (channel ≠ "")
    require "delivery recipient must not be empty" (recipient ≠ "")
  | .webhook url => do
    require "webhook URL must start with http:// or https://"
      ("http://".toList.isPrefixOf url.toList || "https://".toList.isPrefixOf url.toList)
    require ("webhook URL too long (" ++ toString (len url) ++ " chars, max " ++
      toString maxWebhookUrlLen ++ ")") (len url ≤ maxWebhookUrlLen)
  | .nowhere | .lastChannel => .ok ()

/-- `validate`. -/
def CronJob.validate {ι : Type} (isAlphanumeric : Char → Bool) (isUuid : String → Bool) (now : Time)
    (existingCount : ℕ) (job : CronJob ι) : Except String Unit := do
  require ("agent already has " ++ toString existingCount ++ " jobs (max " ++
    toString maxJobsPerAgent ++ ")") (existingCount < maxJobsPerAgent)
  require "name must not be empty" (job.name ≠ "")
  require ("name too long (" ++ toString (len job.name) ++ " chars, max " ++ toString maxNameLen ++
    ")") (len job.name ≤ maxNameLen)
  require "name may only contain alphanumeric characters, spaces, hyphens, and underscores"
    (job.name.toList.all fun c => isAlphanumeric c || c = ' ' || c = '-' || c = '_')
  validateSchedule now job.schedule
  validateAction isUuid job.action
  validateDelivery job.delivery

end Scheduler
end RustyHand
