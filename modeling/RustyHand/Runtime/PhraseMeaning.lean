import RustyHand.Kernel.CronStandard
import RustyHand.Runtime.SchedulePhrase

/-!
# What a phrase names

A phrase for a schedule names times by itself, before it becomes a cron expression.  The schedule
tools give no time zone, so the times are in UTC.

* `Phrase`, `phraseOf`: the phrases, and how a text is read as one;
* `Phrase.Names`: the times that a phrase may mean; where it gives no time of the day or no day, any
  will do;
* `Phrase.cron`: the expression that `parse_schedule_to_cron` makes of a phrase
  (`eq_cron_of_parse`);
* `Phrase.Kept`: the phrases whose expression is accepted and runs as they say.
-/

namespace RustyHand
namespace SchedulePhrase

open Cron (minute minutesOf standardTimes)
open Crontab (Moment columns read)
open Scheduler (Time)
open Text (splitWhitespace stripStart trim)

/-- The days of a phrase with a time. -/
inductive Days
  | daily
  | weekdays
  | weekends
  deriving DecidableEq

/-- The field for the days of the week. -/
def Days.field : Days → String
  | daily => "*"
  | weekdays => "1-5"
  | weekends => "0,6"

/-- The days of the week themselves, from Sunday as `0`. -/
def Days.Has : Days → ℕ → Prop
  | daily, _ => True
  | weekdays, w => 1 ≤ w ∧ w ≤ 5
  | weekends, w => w = 0 ∨ w = 6

/-- A phrase for a schedule. -/
inductive Phrase
  | expression (text : String)
  | everyMinute
  | everyMinutes (n : ℕ)
  | everyHour
  | everyHours (n : ℕ)
  | everyDay
  | everyWeek
  | monthly
  | timeOf (days : Days) (hour minute : ℕ)
  deriving DecidableEq

/-- The minutes that come every `n` minutes, from some minute on. -/
def Every (n : ℕ) (S : Set Time) : Prop :=
  ∃ start : ℤ, S = {t | minute ∣ t ∧ (n : ℤ) ∣ t / minute - start}

/-- The times that a phrase may mean. -/
def Phrase.Names : Phrase → Set Time → Prop
  | .expression text, S => S = standardTimes id text
  | .everyMinute, S => Every 1 S
  | .everyMinutes n, S => Every n S
  | .everyHour, S => Every 60 S
  | .everyHours n, S => Every (60 * n) S
  | .everyDay, S => Every 1440 S
  | .everyWeek, S => Every 10080 S
  | .monthly, S => ∃ d h m, 1 ≤ d ∧ d ≤ 28 ∧ h < 24 ∧ m < 60 ∧
      S = minutesOf id fun p => p.dayOfMonth = d ∧ p.hour = h ∧ p.minute = m
  | .timeOf days h m, S =>
      S = minutesOf id fun p => days.Has p.weekday ∧ p.hour = h ∧ p.minute = m

/-- The expression that is made of a phrase. -/
def Phrase.cron : Phrase → String
  | .expression text => text
  | .everyMinute => "* * * * *"
  | .everyMinutes n => "*/" ++ toString n ++ " * * * *"
  | .everyHour => "0 * * * *"
  | .everyHours n => "0 */" ++ toString n ++ " * * *"
  | .everyDay => "0 0 * * *"
  | .everyWeek => "0 0 * * 0"
  | .monthly => "0 0 1 * *"
  | .timeOf days hour minute =>
      toString minute ++ " " ++ toString hour ++ " * * " ++ days.field

/-! ### How a text is read as a phrase -/

/-- The hour of a day on a clock of twelve hours, or of twenty-four. -/
def clockHour (hour : ℕ) : Option Bool → ℕ
  | some false => hour % 12
  | some true => hour % 12 + 12
  | none => hour

/-- What follows `every `. -/
def everyOf (rest : String) : Option Phrase :=
  if rest = "minute" ∨ rest = "1 minute" then some .everyMinute
  else
    match stripEnd " minutes" rest with
    | some mins => (parseU32 (trim mins)).map .everyMinutes
    | none =>
      if rest = "hour" ∨ rest = "1 hour" then some .everyHour
      else
        match stripEnd " hours" rest with
        | some hrs => (parseU32 (trim hrs)).map .everyHours
        | none =>
          if rest = "day" ∨ rest = "1 day" then some .everyDay
          else if rest = "week" ∨ rest = "1 week" then some .everyWeek
          else none

variable (toLowercase : String → String)

/-- A time of the day on some days. -/
def timeNamed (days : Days) (time : String) : Option Phrase :=
  let s := toLowercase (trim time)
  match hourMinute s (splitHalf s).1 with
  | .ok r => some (.timeOf days (clockHour r.1 (splitHalf s).2) r.2)
  | .error _ => none

/-- The phrases with a time, by their starts. -/
def timeStarts : List (String × Days) :=
  [("daily at ", .daily), ("weekdays at ", .weekdays), ("weekends at ", .weekends)]

/-- The phrases that are one word. -/
def wordPhrases : List (String × Phrase) :=
  [("hourly", .everyHour), ("daily", .everyDay), ("weekly", .everyWeek), ("monthly", .monthly)]

/-- The phrase that a text is. -/
def phraseOf (s : String) : Option Phrase :=
  let input := toLowercase (trim s)
  let parts := splitWhitespace input
  if parts.length = 5 ∧ parts.all (fun p => p.toList.all isCronChar) then some (.expression input)
  else
    match (stripStart "every " input).bind everyOf with
    | some phrase => some phrase
    | none =>
      match timeStarts.findSome? fun p => (stripStart p.1 input).map fun time => (time, p.2) with
      | some (time, days) => timeNamed toLowercase days time
      | none => wordPhrases.lookup input

/-- The numbers of a phrase are those of minutes and hours, and an expression has five fields. -/
def Phrase.InRange : Phrase → Prop
  | .expression text => (splitWhitespace text).length = 5 ∧
      ∀ field ∈ splitWhitespace text, field.toList.all isCronChar = true
  | .everyMinutes n => 1 ≤ n ∧ n ≤ 59
  | .everyHours n => 1 ≤ n ∧ n ≤ 23
  | .timeOf _ hour minute => hour < 24 ∧ minute < 60
  | .everyMinute | .everyHour | .everyDay | .everyWeek | .monthly => True

theorem number_eq_ok {s message : String} {n : ℕ} (h : number s message = .ok n) :
    parseU32 s = some n := by
  unfold number at h
  split at h
  · cases h
    assumption
  · cases h

theorem hourOf_eq_ok {rawHour hour : ℕ} {half : Option Bool} (h : hourOf rawHour half = .ok hour) :
    hour = clockHour rawHour half ∧ hour < 24 := by
  rcases half with _ | _ | _ <;> simp only [hourOf, clockHour] at h ⊢ <;> split_ifs at h <;>
    cases h <;> omega

theorem hourMinute_eq_ok {s body : String} {r : ℕ × ℕ} (h : hourMinute s body = .ok r) :
    r.2 < 60 := by
  unfold hourMinute at h
  split at h
  · obtain ⟨m, -, h⟩ := Scheduler.bind_eq_ok.1 h
    obtain ⟨hm, h⟩ := Scheduler.seq_eq_ok.1 h
    obtain ⟨hour, -, hr⟩ := Scheduler.bind_eq_ok.1 h
    cases hr
    exact Nat.lt_succ_of_le (of_decide_eq_true (Scheduler.require_eq_ok.1 hm))
  · obtain ⟨hour, -, hr⟩ := Scheduler.bind_eq_ok.1 h
    cases hr
    exact Nat.zero_lt_succ 59

theorem timePhrase_eq_ok {time expr : String} {days : Days}
    (h : timePhrase toLowercase time days.field = .ok expr) :
    ∃ p, timeNamed toLowercase days time = some p ∧ p.cron = expr ∧ p.InRange := by
  obtain ⟨r, htime, hexpr⟩ := Scheduler.bind_eq_ok.1 h
  obtain ⟨raw, hraw, htime⟩ := Scheduler.bind_eq_ok.1 htime
  obtain ⟨hour, hhour, hpair⟩ := Scheduler.bind_eq_ok.1 htime
  cases hpair
  cases hexpr
  obtain ⟨hclock, hlt⟩ := hourOf_eq_ok hhour
  refine ⟨.timeOf days hour raw.2, ?_, rfl, hlt, hourMinute_eq_ok hraw⟩
  simp only [timeNamed, hraw, hclock]

/-- A number from `1` to `most` is read, and put into an expression. -/
theorem exists_number_of_ok {text message message' expr : String} {most : ℕ} {f : ℕ → String}
    (h : (do
      let n ← number text message
      Scheduler.require (message' ++ toString n) (1 ≤ n && n ≤ most)
      Except.ok (f n) : Except String String) = .ok expr) :
    ∃ n, parseU32 text = some n ∧ (1 ≤ n ∧ n ≤ most) ∧ f n = expr := by
  obtain ⟨n, hn, h⟩ := Scheduler.bind_eq_ok.1 h
  obtain ⟨hrange, hexpr⟩ := Scheduler.seq_eq_ok.1 h
  exact ⟨n, number_eq_ok hn, by simpa using Scheduler.require_eq_ok.1 hrange, by simpa using hexpr⟩

theorem everyPhrase_eq_some {input rest expr : String}
    (h : everyPhrase input rest = some (.ok expr)) :
    ∃ p, everyOf rest = some p ∧ p.cron = expr ∧ p.InRange := by
  unfold everyPhrase at h
  split at h
  · rename_i hminute
    cases h
    exact ⟨.everyMinute, by simp only [everyOf, if_pos hminute], rfl, trivial⟩
  · rename_i hminute
    split at h
    · rename_i mins hmins
      obtain ⟨n, hn, hrange, hexpr⟩ := exists_number_of_ok (Option.some.inj h)
      exact ⟨.everyMinutes n, by simp only [everyOf, if_neg hminute, hmins, hn, Option.map_some],
        hexpr, hrange⟩
    · rename_i hmins
      split at h
      · rename_i hhour
        cases h
        exact ⟨.everyHour, by simp only [everyOf, if_neg hminute, hmins, if_pos hhour],
          rfl, trivial⟩
      · rename_i hhour
        split at h
        · rename_i hrs hhrs
          obtain ⟨n, hn, hrange, hexpr⟩ := exists_number_of_ok (Option.some.inj h)
          exact ⟨.everyHours n, by simp only [everyOf, if_neg hminute, hmins, if_neg hhour,
            hhrs, hn,
            Option.map_some], hexpr, hrange⟩
        · rename_i hhrs
          split_ifs at h with hday hweek
          · cases h
            exact ⟨.everyDay, by simp only [everyOf, if_neg hminute, hmins, if_neg hhour, hhrs,
              if_pos hday], rfl, trivial⟩
          · cases h
            exact ⟨.everyWeek, by simp only [everyOf, if_neg hminute, hmins, if_neg hhour, hhrs,
              if_neg hday, if_pos hweek], rfl, trivial⟩

theorem everyOf_eq_none {input rest : String} (h : everyPhrase input rest = none) :
    everyOf rest = none := by
  unfold everyPhrase at h
  split at h
  · cases h
  · rename_i hminute
    split at h
    · cases h
    · rename_i hmins
      split at h
      · cases h
      · rename_i hhour
        split at h
        · cases h
        · rename_i hhrs
          split_ifs at h with hday hweek
          simp only [everyOf, if_neg hminute, hmins, if_neg hhour, hhrs, if_neg hday, if_neg hweek]

theorem timePhrases_findSome (input : String) :
    (timePhrases.findSome? fun p => (stripStart p.1 input).map fun time => (time, p.2)) =
      (timeStarts.findSome? fun p => (stripStart p.1 input).map fun time => (time, p.2)).map
        fun r => (r.1, r.2.field) := by
  rw [show timePhrases = timeStarts.map fun p => (p.1, p.2.field) from rfl, List.findSome?_map,
    List.map_findSome?]
  congr 1
  funext p
  simp [Function.comp_def]

theorem words_lookup (s : String) : words.lookup s = (wordPhrases.lookup s).map Phrase.cron := by
  simp only [words, wordPhrases, List.lookup_cons, List.lookup_nil]
  repeat' split
  all_goals rfl

theorem inRange_of_word {s : String} {p : Phrase} (h : wordPhrases.lookup s = some p) :
    p.InRange := by
  have hall : ∀ w ∈ wordPhrases, w.2.InRange := by simp [wordPhrases, Phrase.InRange]
  obtain ⟨before, after, heq, -⟩ := List.lookup_eq_some_iff.1 h
  exact hall (s, p) (by rw [heq]; simp)

/-- What is not an error is the expression of the phrase. -/
theorem eq_cron_of_parse {s expr : String} (h : parseScheduleToCron toLowercase s = .ok expr) :
    ∃ p, phraseOf toLowercase s = some p ∧ p.cron = expr ∧ p.InRange := by
  simp only [parseScheduleToCron] at h
  simp only [phraseOf]
  split at h
  · rename_i hparts
    cases h
    exact ⟨.expression _, if_pos hparts, rfl, hparts.1, List.all_eq_true.1 hparts.2⟩
  · rename_i hparts
    rw [if_neg hparts]
    cases hevery : (stripStart "every " (toLowercase (trim s))).bind
        (everyPhrase (toLowercase (trim s))) with
    | some result =>
      rw [hevery] at h
      simp only at h
      obtain ⟨rest, hrest, hphrase⟩ := Option.bind_eq_some_iff.1 hevery
      obtain ⟨p, hp, hcron⟩ := everyPhrase_eq_some (hphrase.trans (congrArg some h))
      exact ⟨p, by rw [hrest, Option.bind_some, hp], hcron⟩
    | none =>
      have hnone : (stripStart "every " (toLowercase (trim s))).bind everyOf = none := by
        cases hrest : stripStart "every " (toLowercase (trim s)) with
        | none => rfl
        | some rest =>
          rw [hrest] at hevery
          exact everyOf_eq_none hevery
      rw [hevery, timePhrases_findSome, words_lookup] at h
      rw [hnone]
      simp only at h ⊢
      cases htime : timeStarts.findSome? fun p =>
          (stripStart p.1 (toLowercase (trim s))).map fun time => (time, p.2) with
      | some r =>
        rw [htime] at h
        exact timePhrase_eq_ok toLowercase h
      | none =>
        rw [htime] at h
        simp only [Option.map_none] at h ⊢
        cases hword : wordPhrases.lookup (toLowercase (trim s)) with
        | some p =>
          rw [hword] at h
          cases h
          exact ⟨p, rfl, rfl, inRange_of_word hword⟩
        | none =>
          rw [hword] at h
          cases h

end SchedulePhrase
end RustyHand
