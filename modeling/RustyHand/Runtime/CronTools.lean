import RustyHand.Kernel.Cron
import RustyHand.Runtime.ProcessManager
import RustyHand.Runtime.SchedulePhrase
import RustyHand.Runtime.Ssrf

/-!
# Tools for scheduled jobs

The cron and schedule tools of `rusty-hand-runtime/src/tool_runner.rs`, on the scheduler of the
kernel.  Lists of jobs are returned before they are printed, and what the registry of agents answers
is an argument.
-/

namespace RustyHand
namespace CronTools

open Cron
open ProcessManager (param)
open Scheduler (Time)

variable {ι σ ζ : Type} [DecidableEq ι] (crates : Crates ι σ ζ)

/-- The caller, for a tool that needs one. -/
def callerOf (tool : String) : Option String → Except String String
  | some agentId => .ok agentId
  | none => .error ("Agent ID required for " ++ tool)

/-- `tool_cron_create`. -/
def toolCronCreate (input : Json) (callerAgentId : Option String) (newId : ι) (now : Time)
    (s : CronScheduler ι) : Except String String × CronScheduler ι :=
  match callerOf "cron_create" callerAgentId with
  | .error e => (.error e, s)
  | .ok agentId =>
    let r := cronCreate crates agentId input newId now s
    (r.1.map fun id =>
      (Json.object [("job_id", .string (crates.printUuid id)),
        ("status", .string "created")]).toString, r.2)

/-- `tool_cron_list`. -/
def toolCronList (callerAgentId : Option String) (s : CronScheduler ι) :
    Except String (List (Scheduler.CronJob ι)) := do
  let agentId ← callerOf "cron_list" callerAgentId
  cronList crates agentId s

/-- `tool_cron_cancel`. -/
def toolCronCancel (input : Json) (s : CronScheduler ι) : Except String String × CronScheduler ι :=
  match param input "job_id" with
  | .error e => (.error e, s)
  | .ok jobId =>
    ((cronCancel crates jobId s).1.map fun _ => "Cron job '" ++ jobId ++ "' cancelled.",
      (cronCancel crates jobId s).2)

/-- What the registry answers to `resolve_schedule_target_agent_id`: all agents, by their ids and
names, and the ids of those that `find_agents` finds. -/
structure Agents where
  all : List (String × String)
  found : List String

/-- `resolve_schedule_target_agent_id`. -/
def resolveScheduleTargetAgentId (agents : Agents) (agentHint callerAgentId : Option String) :
    Except String String :=
  match (agentHint.map Text.trim).filter (· ≠ "") with
  | some hint =>
    match (agents.all.find? fun a => a.1 = hint).or
        (agents.all.find? fun a => Ssrf.eqIgnoreAsciiCase a.2 hint) with
    | some agent => .ok agent.1
    | none =>
      match agents.found with
      | [id] => .ok id
      | [] => .error ("Agent '" ++ hint ++ "' not found.")
      | ids => .error ("Agent reference '" ++ hint ++ "' is ambiguous (" ++ toString ids.length ++
          " matches). Use the agent ID.")
  | none =>
    match callerAgentId with
    | some agentId => .ok agentId
    | none => .error "Missing 'agent' parameter outside agent context"

/-- The job of `schedule_create`. -/
def schedulePayload (name cronExpr description : String) : Json :=
  .object [("action", .object [("kind", .string "agent_turn"), ("message", .string description)]),
    ("delivery", .object [("kind", .string "none")]), ("enabled", .bool true),
    ("name", .string name), ("one_shot", .bool false),
    ("schedule", .object [("expr", .string cronExpr), ("kind", .string "cron"), ("tz", .null)])]

/-- What `tool_schedule_create` reads of its input: the description, the agent and the
expression. -/
def scheduleArgs (toLowercase : String → String) (input : Json) (agents : Agents)
    (callerAgentId : Option String) : Except String (String × String × String) := do
  let description ← param input "description"
  let schedule ← param input "schedule"
  let agentId ← resolveScheduleTargetAgentId agents (input.index "agent").asStr callerAgentId
  let cronExpr ← SchedulePhrase.parseScheduleToCron toLowercase schedule
  .ok (description, agentId, cronExpr)

/-- `tool_schedule_create`. -/
def toolScheduleCreate (toLowercase : String → String) (input : Json) (agents : Agents)
    (callerAgentId : Option String) (newId : ι) (now : Time) (s : CronScheduler ι) :
    Except String String × CronScheduler ι :=
  match scheduleArgs toLowercase input agents callerAgentId with
  | .error e => (.error e, s)
  | .ok (description, agentId, cronExpr) =>
    let name := SchedulePhrase.sanitizeScheduleName crates.isAlphanumeric description
    let r := cronCreate crates agentId (schedulePayload name cronExpr description) newId now s
    (r.1.map fun id => "Schedule created:\n  ID: " ++ crates.printUuid id ++ "\n  Description: " ++
      description ++ "\n  Cron: " ++ cronExpr ++ "\n  Agent: " ++ agentId, r.2)

/-- `tool_schedule_delete`. -/
def toolScheduleDelete (input : Json) (s : CronScheduler ι) :
    Except String String × CronScheduler ι :=
  match param input "id" with
  | .error e => (.error e, s)
  | .ok id =>
    ((cronCancel crates id s).1.map fun _ => "Schedule '" ++ id ++ "' deleted.",
      (cronCancel crates id s).2)

end CronTools
end RustyHand
