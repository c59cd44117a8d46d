import RustyHand.Lib.Table
import RustyHand.Runtime.SubprocessSandbox
import RustyHand.Types.Json
import RustyHand.Types.Scheduler

/-!
# Persistent processes

`ProcessManager` of `rusty-hand-runtime/src/process_manager.rs`, and the tools on it of
`tool_runner.rs`.  What the operating system answers is an argument.

* `ManagedProcess`, `ProcessManager`: the table;
* `start`, `write`, `read`, `kill`, `list`: the operations, by ids;
* `toolProcessStart` and the others: the tools.
-/

namespace RustyHand
namespace ProcessManager

open Scheduler (Time second)
open SubprocessSandbox (ExecPolicy)

/-- `ManagedProcess`, with its id.  `stdin` is what has been written so far, unless it is closed,
and `alive` tells whether the child still runs. -/
structure ManagedProcess where
  id : String
  stdin : Option String := some ""
  stdoutBuf : List String := []
  stderrBuf : List String := []
  alive : Bool := true
  agentId : String
  command : String
  startedAt : Time

/-- `ProcessManager`. -/
structure Manager where
  processes : List ManagedProcess := []
  maxPerAgent : ℕ := 5
  nextId : ℕ := 1

/-- `ProcessInfo`. -/
structure ProcessInfo where
  id : String
  agentId : String
  command : String
  alive : Bool
  uptimeSecs : ℤ

/-- `MAX_LINE_BYTES`. -/
def maxLineBytes : ℕ := 64 * 1024

/-- `MAX_LINES`. -/
def maxLines : ℕ := 1000

/-- `DRAIN_COUNT`. -/
def drainCount : ℕ := 100

/-- What a reader does with a line of output. -/
def pushLine (line : String) (buf : List String) : List String :=
  let truncated :=
    if maxLineBytes < Scheduler.len line then
      Text.truncateBytes line maxLineBytes ++ "... [truncated, " ++ toString (Scheduler.len line) ++
        " bytes]"
    else line
  (if maxLines ≤ buf.length then buf.drop drainCount else buf) ++ [truncated]

/-- How a write to a pipe ends; one that fails may have written a part. -/
inductive Written
  | all
  | writeFailed (arrived error : String)
  | flushFailed (error : String)

/-- The text of an id that is not in the table. -/
def notFound (processId : String) : String := "Process '" ++ processId ++ "' not found"

namespace Manager

variable (pm : Manager)

/-- The process with an id. -/
def get (processId : String) : Option ManagedProcess :=
  Table.lookup ManagedProcess.id processId pm.processes

/-- `start`; `spawned` is what the operating system answers. -/
def start (agentId command : String) (args : List String) (spawned : Except String Unit)
    (now : Time) : Except String String × Manager :=
  let agentCount := (pm.processes.filter fun p => p.agentId = agentId).length
  if pm.maxPerAgent ≤ agentCount then
    (.error ("Agent '" ++ agentId ++ "' already has " ++ toString agentCount ++
        " processes (max: " ++
      toString pm.maxPerAgent ++ ")"), pm)
  else
    match spawned with
    | .error e => (.error ("Failed to start process '" ++ command ++ "': " ++ e), pm)
    | .ok () =>
      let id := "proc_" ++ toString pm.nextId
      let command :=
        if args = [] then command else command ++ " " ++ String.intercalate " " args
      (.ok id,
        { pm with
          processes := Table.upsert ManagedProcess.id
            { id := id, agentId := agentId, command := command, startedAt := now } pm.processes
          nextId := (pm.nextId + 1) % 2 ^ 64 })

/-- A change to the process with an id. -/
def modify (processId : String) (f : ManagedProcess → ManagedProcess) : Manager :=
  { pm with processes := Table.modify ManagedProcess.id processId f pm.processes }

/-- `write`. -/
def write (processId data : String) (written : Written) : Except String Unit × Manager :=
  match pm.get processId with
  | none => (.error (notFound processId), pm)
  | some p =>
    match p.stdin with
    | none => (.error "Process stdin is closed", pm)
    | some text =>
      match written with
      | .all => (.ok (), pm.modify processId fun p => { p with stdin := some (text ++ data) })
      | .writeFailed arrived e =>
        (.error ("Write failed: " ++ e),
          pm.modify processId fun p => { p with stdin := some (text ++ arrived) })
      | .flushFailed e =>
        (.error ("Flush failed: " ++ e),
          pm.modify processId fun p => { p with stdin := some (text ++ data) })

/-- `read`: the lines so far, of both streams. -/
def read (processId : String) : Except String (List String × List String) × Manager :=
  match pm.get processId with
  | none => (.error (notFound processId), pm)
  | some p =>
    (.ok (p.stdoutBuf, p.stderrBuf),
      pm.modify processId fun p => { p with stdoutBuf := [], stderrBuf := [] })

/-- `kill`. -/
def kill (processId : String) : Except String Unit × Manager :=
  match pm.get processId with
  | none => (.error (notFound processId), pm)
  | some _ =>
    (.ok (), { pm with processes := Table.erase ManagedProcess.id processId pm.processes })

/-- `list`. -/
def list (agentId : String) (now : Time) : List ProcessInfo :=
  (pm.processes.filter fun p => p.agentId = agentId).map fun p =>
    { id := p.id, agentId := p.agentId, command := p.command, alive := p.alive,
      uptimeSecs := (now - p.startedAt) / second }

end Manager

/-! ### Tools -/

/-- A text parameter that a tool needs. -/
def param (input : Json) (key : String) : Except String String :=
  match (input.index key).asStr with
  | some s => .ok s
  | none => .error ("Missing '" ++ key ++ "' parameter")

/-- The owner of what a caller starts. -/
def ownerOf (callerAgentId : Option String) : String := callerAgentId.getD "default"

/-- The exec policy of `process_start`. -/
def checkPolicy (command : String) : Option ExecPolicy → Except String Unit
  | none => .ok ()
  | some policy =>
    match policy.mode with
    | .deny => .error "process_start blocked: exec_policy mode is 'deny'"
    | .allowlist =>
      let base := String.ofList (SubprocessSandbox.afterLast '/' command.toList)
      Scheduler.require ("process_start blocked: '" ++ base ++ "' is not in exec_policy allowlist")
        (policy.allowedCommands.contains base || policy.safeBins.contains base)
    | .full => .ok ()

/-- What `tool_process_start` reads of its input. -/
def startArgs (input : Json) (policy : Option ExecPolicy) :
    Except String (String × List String) := do
  let command ← param input "command"
  checkPolicy command policy
  .ok (command, ((input.index "args").asArray.getD []).filterMap Json.asStr)

/-- `tool_process_start`. -/
def toolProcessStart (input : Json) (callerAgentId : Option String) (policy : Option ExecPolicy)
    (spawned : Except String Unit) (now : Time) (pm : Manager) : Except String String × Manager :=
  match startArgs input policy with
  | .error e => (.error e, pm)
  | .ok (command, args) =>
    let r := pm.start (ownerOf callerAgentId) command args spawned now
    (r.1.map fun id =>
      (Json.object [("process_id", .string id), ("status", .string "started")]).toString, r.2)

/-- What `tool_process_poll` returns. -/
def pollText (lines : List String × List String) : String :=
  (Json.object [("stderr", .array (lines.2.map .string)),
    ("stdout", .array (lines.1.map .string))]).toString

/-- `tool_process_poll`. -/
def toolProcessPoll (input : Json) (pm : Manager) : Except String String × Manager :=
  match param input "process_id" with
  | .error e => (.error e, pm)
  | .ok id => ((pm.read id).1.map pollText, (pm.read id).2)

/-- What `tool_process_write` reads of its input: the process, and the data with an end of line. -/
def writeArgs (input : Json) : Except String (String × String) := do
  let id ← param input "process_id"
  let data ← param input "data"
  .ok (id, if data.toList.getLast? = some '\n' then data else data ++ "\n")

/-- `tool_process_write`. -/
def toolProcessWrite (input : Json) (written : Written) (pm : Manager) :
    Except String String × Manager :=
  match writeArgs input with
  | .error e => (.error e, pm)
  | .ok (id, data) =>
    ((pm.write id data written).1.map fun _ => "\x7b\"status\": \"written\"\x7d",
      (pm.write id data written).2)

/-- `tool_process_kill`. -/
def toolProcessKill (input : Json) (pm : Manager) : Except String String × Manager :=
  match param input "process_id" with
  | .error e => (.error e, pm)
  | .ok id => ((pm.kill id).1.map fun _ => "\x7b\"status\": \"killed\"\x7d", (pm.kill id).2)

/-- `tool_process_list`, before it is printed. -/
def toolProcessList (callerAgentId : Option String) (now : Time) (pm : Manager) :
    List ProcessInfo :=
  pm.list (ownerOf callerAgentId) now

end ProcessManager
end RustyHand
