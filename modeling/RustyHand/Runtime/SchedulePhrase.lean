import RustyHand.Types.Json
import RustyHand.Types.Scheduler

/-!
# Phrases for schedules

`parse_schedule_to_cron` and what else the schedule tools of
`rusty-hand-runtime/src/tool_runner.rs` do with texts.  `toLowercase` and `isAlphanumeric` are the
operations of `str` and `char`.
-/

namespace RustyHand
namespace SchedulePhrase

open Text (splitWhitespace stripStart trim)

/-- `str::strip_suffix`. -/
def stripEnd (ending s : String) : Option String :=
  if ending.toList <:+ s.toList then
    some (String.ofList (s.toList.take (s.length - ending.length)))
  else none

/-- `s.parse::<u32>()`. -/
def parseU32 (s : String) : Option ℕ :=
  (Json.decimal (match s.toList with
    | '+' :: digits => digits
    | digits => digits)).filter (· < 2 ^ 32)

/-- A number in a text, or the text of the error. -/
def number (s message : String) : Except String ℕ :=
  match parseU32 s with
  | some n => .ok n
  | none => .error message

/-- The hour of a day, from the hour that is written and the half of the day. -/
def hourOf (rawHour : ℕ) : Option Bool → Except String ℕ
  | some false =>
    if rawHour = 12 then .ok 0
    else if 1 ≤ rawHour ∧ rawHour ≤ 11 then .ok rawHour
    else .error ("Invalid hour: " ++ toString rawHour)
  | some true =>
    if rawHour = 12 then .ok 12
    else if 1 ≤ rawHour ∧ rawHour ≤ 11 then .ok (rawHour + 12)
    else .error ("Invalid hour: " ++ toString rawHour)
  | none =>
    if 23 < rawHour then .error ("Hour must be 0-23, got " ++ toString rawHour) else .ok rawHour

/-- The text of a time without its half of the day, and the half. -/
def splitHalf (s : String) : String × Option Bool :=
  match stripEnd "am" s with
  | some rest => (trim rest, some false)
  | none =>
    match stripEnd "pm" s with
    | some rest => (trim rest, some true)
    | none => (s, none)

/-- `H` or `H:MM`. -/
def hourMinute (s body : String) : Except String (ℕ × ℕ) :=
  match Text.splitOnce [':'] body.toList with
  | some (h, m) => do
    let m ← number (trim (String.ofList m)) ("Invalid minute in '" ++ s ++ "'")
    Scheduler.require ("Minute must be 0-59, got " ++ toString m) (m ≤ 59)
    let h ← number (trim (String.ofList h)) ("Invalid hour in '" ++ s ++ "'")
    .ok (h, m)
  | none => do
    let h ← number body ("Invalid time: " ++ s)
    .ok (h, 0)

variable (toLowercase : String → String)

/-- `parse_time_to_hour_minute`. -/
def parseTimeToHourMinute (s : String) : Except String (ℕ × ℕ) := do
  let s := toLowercase (trim s)
  let r ← hourMinute s (splitHalf s).1
  let hour ← hourOf r.1 (splitHalf s).2
  .ok (hour, r.2)

/-- The characters of a part that is passed through. -/
def isCronChar (c : Char) : Bool := c.isDigit || c = '*' || c = '/' || c = ',' || c = '-'

/-- What follows `every `; nothing where no phrase is recognised. -/
def everyPhrase (input rest : String) : Option (Except String String) :=
  if rest = "minute" ∨ rest = "1 minute" then some (.ok "* * * * *")
  else
    match stripEnd " minutes" rest with
    | some mins => some do
      let n ← number (trim mins) ("Invalid number in '" ++ input ++ "'")
      Scheduler.require ("Minutes must be 1-59, got " ++ toString n) (1 ≤ n && n ≤ 59)
      .ok ("*/" ++ toString n ++ " * * * *")
    | none =>
      if rest = "hour" ∨ rest = "1 hour" then some (.ok "0 * * * *")
      else
        match stripEnd " hours" rest with
        | some hrs => some do
          let n ← number (trim hrs) ("Invalid number in '" ++ input ++ "'")
          Scheduler.require ("Hours must be 1-23, got " ++ toString n) (1 ≤ n && n ≤ 23)
          .ok ("0 */" ++ toString n ++ " * * *")
        | none =>
          if rest = "day" ∨ rest = "1 day" then some (.ok "0 0 * * *")
          else if rest = "week" ∨ rest = "1 week" then some (.ok "0 0 * * 0")
          else none

/-- A time of the day on the days that `days` picks. -/
def timePhrase (time days : String) : Except String String := do
  let r ← parseTimeToHourMinute toLowercase time
  .ok (toString r.2 ++ " " ++ toString r.1 ++ " * * " ++ days)

/-- The phrases with a time, by their starts, and the days of each. -/
def timePhrases : List (String × String) :=
  [("daily at ", "*"), ("weekdays at ", "1-5"), ("weekends at ", "0,6")]

/-- The phrases that are one word. -/
def words : List (String × String) :=
  [("hourly", "0 * * * *"), ("daily", "0 0 * * *"), ("weekly", "0 0 * * 0"),
    ("monthly", "0 0 1 * *")]

/-- `parse_schedule_to_cron`. -/
def parseScheduleToCron (s : String) : Except String String :=
  let input := toLowercase (trim s)
  let parts := splitWhitespace input
  if parts.length = 5 ∧ parts.all (fun p => p.toList.all isCronChar) then .ok input
  else
    match (stripStart "every " input).bind (everyPhrase input) with
    | some result => result
    | none =>
      match timePhrases.findSome? fun p => (stripStart p.1 input).map fun time => (time, p.2) with
      | some (time, days) => timePhrase toLowercase time days
      | none =>
        match words.lookup input with
        | some expr => .ok expr
        | none =>
          .error ("Could not parse schedule '" ++ input ++ "'. Try: 'every 5 minutes', " ++
            "'daily at 9am', 'weekdays at 6pm', or a cron expression like '0 */5 * * *'")

/-- `sanitize_schedule_name`. -/
def sanitizeScheduleName (isAlphanumeric : Char → Bool) (description : String) : String :=
  let normalized := String.ofList (description.toList.map fun c =>
    if isAlphanumeric c || c = ' ' || c = '-' || c = '_' then c else ' ')
  let collapsed := String.intercalate " " (splitWhitespace normalized)
  let name := if collapsed = "" then "Scheduled Task" else collapsed
  if 128 < Scheduler.len name then trim (Text.truncateBytes name 128) else name

example : parseScheduleToCron id "weekdays at 9:30pm" = .ok "30 21 * * 1-5" := by decide

example : parseScheduleToCron id " every 5 minutes" = .ok "*/5 * * * *" := by decide

end SchedulePhrase
end RustyHand
