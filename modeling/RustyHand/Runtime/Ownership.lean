import RustyHand.Kernel.CronClaims
import RustyHand.Lib.Table
import RustyHand.Runtime.CronTools

/-!
# Processes and jobs of several agents

The tool calls of any number of agents on the processes and the jobs of one kernel, as
`execute_tool` dispatches those that its gates let through.

* `World`, `Event`, `step`: the calls, and what happens between them;
* `Confined`: a call sees and changes nothing but what belongs to its caller;
* `OwnTarget`: the calls that name nothing of another;
* `calls_confined_iff`: the calls of a run are confined if and only if they name nothing of another.
-/

namespace RustyHand
namespace Ownership

open Cron CronTools ProcessManager Runs
open Scheduler (Time bind_eq_ok)

/-- The processes and the jobs of a kernel. -/
structure World (ι : Type) where
  processManager : Manager
  cronScheduler : CronScheduler ι

/-- A tool call, with what the system answers to it. -/
inductive Call (ι : Type)
  | processStart (input : Json) (policy : Option SubprocessSandbox.ExecPolicy)
      (spawned : Except String Unit)
  | processPoll (input : Json)
  | processWrite (input : Json) (written : Written)
  | processKill (input : Json)
  | processList
  | cronCreate (input : Json) (newId : ι)
  | cronList
  | cronCancel (input : Json)
  | scheduleCreate (input : Json) (agents : Agents) (newId : ι)
  | scheduleList
  | scheduleDelete (input : Json)

/-- What a call returns; lists before they are printed. -/
inductive Reply (ι : Type)
  | text (s : String)
  | processes (list : List ProcessInfo)
  | jobs (list : List (Scheduler.CronJob ι))

/-- What happens: a call of a tool, or something that the processes and the kernel do. -/
inductive Event (ι : Type)
  | call (caller : Option String) (now : Time) (c : Call ι)
  | stdout (processId line : String)
  | stderr (processId line : String)
  | exits (processId : String)
  | claimDueJobs (now : Time)
  | recordSuccess (now : Time) (id : ι)
  | recordFailure (now : Time) (id : ι) (errorMsg : String) (transient : Bool)
  | reassignAgent (oldId newId : ι)

section Step

variable {ι σ ζ : Type} [DecidableEq ι] (crates : Crates ι σ ζ) (toLowercase : String → String)

/-- A tool on the processes. -/
def onProcesses (f : Manager → Except String String × Manager) (w : World ι) :
    Except String (Reply ι) × World ι :=
  ((f w.processManager).1.map .text, { w with processManager := (f w.processManager).2 })

/-- A tool on the jobs. -/
def onJobs (f : CronScheduler ι → Except String String × CronScheduler ι) (w : World ι) :
    Except String (Reply ι) × World ι :=
  ((f w.cronScheduler).1.map .text, { w with cronScheduler := (f w.cronScheduler).2 })

/-- `execute_tool`, for the tools of processes and jobs. -/
def executeTool (caller : Option String) (now : Time) (c : Call ι) (w : World ι) :
    Except String (Reply ι) × World ι :=
  match c with
  | .processStart input policy spawned =>
    onProcesses (toolProcessStart input caller policy spawned now) w
  | .processPoll input => onProcesses (toolProcessPoll input) w
  | .processWrite input written => onProcesses (toolProcessWrite input written) w
  | .processKill input => onProcesses (toolProcessKill input) w
  | .processList => (.ok (.processes (toolProcessList caller now w.processManager)), w)
  | .cronCreate input newId => onJobs (toolCronCreate crates input caller newId now) w
  | .cronList => ((toolCronList crates caller w.cronScheduler).map .jobs, w)
  | .cronCancel input => onJobs (toolCronCancel crates input) w
  | .scheduleCreate input agents newId =>
    onJobs (toolScheduleCreate crates toLowercase input agents caller newId now) w
  | .scheduleList => (.ok (.jobs w.cronScheduler.listAllJobs), w)
  | .scheduleDelete input => onJobs (toolScheduleDelete crates input) w

/-- A change of a process that is not a call. -/
def onProcess (processId : String) (f : ManagedProcess → ManagedProcess) (w : World ι) : World ι :=
  { w with processManager := w.processManager.modify processId f }

/-- An event. -/
def step (w : World ι) : Event ι → World ι
  | .call caller now c => (executeTool crates toLowercase caller now c w).2
  | .stdout processId line =>
    onProcess processId (fun p => { p with stdoutBuf := pushLine line p.stdoutBuf }) w
  | .stderr processId line =>
    onProcess processId (fun p => { p with stderrBuf := pushLine line p.stderrBuf }) w
  | .exits processId => onProcess processId (fun p => { p with alive := false }) w
  | .claimDueJobs now => { w with cronScheduler := (w.cronScheduler.claimDueJobs now).2 }
  | .recordSuccess now id =>
    { w with cronScheduler := w.cronScheduler.recordSuccess crates now id }
  | .recordFailure now id errorMsg transient =>
    { w with cronScheduler := w.cronScheduler.recordFailure crates now id errorMsg transient }
  | .reassignAgent oldId newId =>
    { w with cronScheduler := w.cronScheduler.reassignAgent oldId newId }

/-- A kernel that starts, with the jobs of its file. -/
def boot (maxTotalJobs : ℕ) (now : Time) (metas : List (JobMeta ι)) : World ι :=
  { processManager := {}, cronScheduler := CronScheduler.load crates ⟨[], maxTotalJobs⟩ now metas }

end Step

/-! ### What belongs to a caller -/

section Owner

variable {ι σ ζ : Type} [DecidableEq ι] (crates : Crates ι σ ζ)

/-- The processes that a caller has started. -/
def ownsProcess (caller : Option String) (p : ManagedProcess) : Bool := p.agentId = ownerOf caller

/-- The jobs of the agent that calls. -/
def ownsJob (caller : Option String) (m : JobMeta ι) : Bool :=
  caller.any fun agentId =>
    match crates.parseUuid agentId with
    | .ok id => m.job.agentId = id
    | .error _ => false

/-- The part of the world that `p` and `j` pick. -/
def World.part (p : ManagedProcess → Bool) (j : JobMeta ι → Bool) (w : World ι) : World ι :=
  { processManager := { w.processManager with processes := w.processManager.processes.filter p }
    cronScheduler := { w.cronScheduler with jobs := w.cronScheduler.jobs.filter j } }

/-- What belongs to a caller. -/
def World.own (caller : Option String) (w : World ι) : World ι :=
  w.part (ownsProcess caller) (ownsJob crates caller)

/-- What belongs to the others. -/
def World.others (caller : Option String) (w : World ι) : World ι :=
  w.part (fun p => !ownsProcess caller p) fun m => !ownsJob crates caller m

/-- A call sees and changes nothing but what belongs to its caller: it returns what it would return
if there were nothing else, and what belongs to the others is as before. -/
def Confined (toLowercase : String → String) (w : World ι) (caller : Option String) (now : Time)
    (c : Call ι) : Prop :=
  (executeTool crates toLowercase caller now c (w.own crates caller)).1 =
      (executeTool crates toLowercase caller now c w).1 ∧
    (executeTool crates toLowercase caller now c w).2.others crates caller =
      w.others crates caller

/-- The calls that should be confined: `process_poll`, `process_write`, `process_kill` and
`cron_cancel`. -/
def Call.isById : Call ι → Bool
  | .processPoll _ | .processWrite _ _ | .processKill _ | .cronCancel _ => true
  | _ => false

/-- What should hold of an event. -/
def Keeps (toLowercase : String → String) (w : World ι) : Event ι → Prop
  | .call caller now c => c.isById = true → Confined crates toLowercase w caller now c
  | _ => True

/-- Every process with the id is the caller's. -/
def OwnProcess (w : World ι) (caller : Option String) (processId : String) : Prop :=
  ∀ p ∈ w.processManager.processes, p.id = processId → ownsProcess caller p = true

/-- Every job with the id is the caller's. -/
def OwnJob (w : World ι) (caller : Option String) (id : ι) : Prop :=
  ∀ m ∈ w.cronScheduler.jobs, m.id = id → ownsJob crates caller m = true

/-- The calls that name no process and no job of another. -/
def OwnTarget (w : World ι) : Event ι → Prop
  | .call caller _ (.processPoll input) | .call caller _ (.processKill input) =>
    ∀ id, param input "process_id" = .ok id → OwnProcess w caller id
  | .call caller _ (.processWrite input _) =>
    ∀ id data, writeArgs input = .ok (id, data) → OwnProcess w caller id
  | .call caller _ (.cronCancel input) =>
    ∀ jobId id, param input "job_id" = .ok jobId → crates.parseUuid jobId = .ok id →
      OwnJob crates w caller id
  | _ => True

end Owner

/-! ### The operations, as operations on a row -/

section Operations

open Table

/-- The ids of processes, and those of jobs, are unique. -/
structure Sound {ι : Type} [DecidableEq ι] (w : World ι) : Prop where
  processes : UniqueKeys ManagedProcess.id w.processManager.processes
  jobs : UniqueKeys JobMeta.id w.cronScheduler.jobs

/-- What `read` does to a process. -/
def readRow (p : ManagedProcess) :
    Except String (List String × List String) × Change ManagedProcess :=
  (.ok (p.stdoutBuf, p.stderrBuf), .update fun p => { p with stdoutBuf := [], stderrBuf := [] })

/-- What `write` does to a process. -/
def writeRow (data : String) (written : Written) (p : ManagedProcess) :
    Except String Unit × Change ManagedProcess :=
  match p.stdin, written with
  | none, _ => (.error "Process stdin is closed", .keep)
  | some text, .all => (.ok (), .update fun p => { p with stdin := some (text ++ data) })
  | some text, .writeFailed arrived e =>
    (.error ("Write failed: " ++ e), .update fun p => { p with stdin := some (text ++ arrived) })
  | some text, .flushFailed e =>
    (.error ("Flush failed: " ++ e), .update fun p => { p with stdin := some (text ++ data) })

/-- What `kill` does to a process. -/
def killRow (_ : ManagedProcess) : Except String Unit × Change ManagedProcess := (.ok (), .delete)

variable (pm : Manager) (processId : String)

/-- An operation on a process. -/
def actOn {β : Type} (present : ManagedProcess → Except String β × Change ManagedProcess) :
    Except String β × Manager :=
  let r := act ManagedProcess.id processId (.error (notFound processId)) present pm.processes
  (r.1, { pm with processes := r.2 })

theorem read_eq : pm.read processId = actOn pm processId readRow := by
  unfold Manager.read actOn act Manager.get
  cases lookup ManagedProcess.id processId pm.processes <;> rfl

theorem write_eq (data : String) (written : Written) :
    pm.write processId data written = actOn pm processId (writeRow data written) := by
  unfold Manager.write actOn act Manager.get
  cases lookup ManagedProcess.id processId pm.processes with
  | none => rfl
  | some p =>
    cases hstdin : p.stdin with
    | none => simp [writeRow, hstdin, Change.apply]
    | some text => cases written <;> simp [writeRow, hstdin, Change.apply, Manager.modify]

theorem kill_eq : pm.kill processId = actOn pm processId killRow := by
  unfold Manager.kill actOn act Manager.get
  cases lookup ManagedProcess.id processId pm.processes <;> rfl

/-- What a tool makes of the reply. -/
def mapReply {β γ : Type} (g : β → γ)
    (present : ManagedProcess → Except String β × Change ManagedProcess) (p : ManagedProcess) :
    Except String γ × Change ManagedProcess :=
  ((present p).1.map g, (present p).2)

theorem actOn_mapReply {β γ : Type} (g : β → γ)
    (present : ManagedProcess → Except String β × Change ManagedProcess) :
    actOn pm processId (mapReply g present) =
      ((actOn pm processId present).1.map g, (actOn pm processId present).2) := by
  unfold actOn act
  cases lookup ManagedProcess.id processId pm.processes <;> rfl

variable {ι σ ζ : Type} [DecidableEq ι] (crates : Crates ι σ ζ) {w : World ι}
  {caller : Option String}

/-- An operation on a process is confined if and only if the process is the caller's own. -/
theorem actOn_confined_iff (h : Sound w) {β : Type}
    {present : ManagedProcess → Except String β × Change ManagedProcess}
    (hne : ∀ p, (present p).1 ≠ .error (notFound processId))
    (hkeep : ∀ p f, (present p).2 = .update f → ∀ q, (f q).agentId = q.agentId) :
    ((actOn (w.own crates caller).processManager processId present).1 =
        (actOn w.processManager processId present).1 ∧
      ({ w with processManager := (actOn w.processManager processId present).2 } : World ι).others
          crates caller = w.others crates caller) ↔ OwnProcess w caller processId := by
  rw [OwnProcess, ← @actsWithin_iff _ _ _ _ _ (ownsProcess caller) _ _ _ _ h.processes hne]
  · simp [ActsWithin, actOn, World.own, World.others, World.part]
  · intro p f hf q
    simp [ownsProcess, hkeep p f hf q]

/-- The same for a tool that makes a text of the reply. -/
theorem onProcesses_confined_iff (h : Sound w) {β : Type}
    (present : ManagedProcess → Except String β × Change ManagedProcess) (g : β → String)
    {f : Manager → Except String String × Manager}
    (hf : ∀ pm, f pm = ((actOn pm processId present).1.map g, (actOn pm processId present).2))
    (hne : ∀ p, (present p).1 ≠ .error (notFound processId))
    (hkeep : ∀ p f, (present p).2 = .update f → ∀ q, (f q).agentId = q.agentId) :
    ((onProcesses f (w.own crates caller)).1 = (onProcesses f w).1 ∧
      (onProcesses f w).2.others crates caller = w.others crates caller) ↔
      OwnProcess w caller processId := by
  have hne' : ∀ p, (mapReply (Reply.text (ι := ι)) (mapReply g present) p).1 ≠
      .error (notFound processId) := by
    intro p
    cases hp : (present p).1 with
    | ok v => simp [mapReply, hp, Except.map]
    | error e => simpa [mapReply, hp, Except.map] using hne p
  rw [← actOn_confined_iff processId crates h hne' hkeep]
  simp only [onProcesses, hf, actOn_mapReply]

/-- The texts of failed writes are not the text of an unknown id. -/
theorem writeRow_ne (data : String) (written : Written) (p : ManagedProcess) :
    (writeRow data written p).1 ≠ .error (notFound processId) := by
  have hclosed : "Process stdin is closed" ≠ notFound processId := by
    intro h
    have := congrArg (fun s => s.toList[8]?) h
    simp [notFound] at this
  have hwrite : ∀ e, "Write failed: " ++ e ≠ notFound processId := by
    intro e h
    have := congrArg (fun s => s.toList[0]?) h
    simp [notFound] at this
  have hflush : ∀ e, "Flush failed: " ++ e ≠ notFound processId := by
    intro e h
    have := congrArg (fun s => s.toList[0]?) h
    simp [notFound] at this
  cases hstdin : p.stdin with
  | none => simpa [writeRow, hstdin] using hclosed
  | some text =>
    cases written with
    | all => simp [writeRow, hstdin]
    | writeFailed arrived e => simpa [writeRow, hstdin] using hwrite e
    | flushFailed e => simpa [writeRow, hstdin] using hflush e

/-- A write leaves the owner. -/
theorem writeRow_keeps {data : String} {written : Written} {p : ManagedProcess}
    {f : ManagedProcess → ManagedProcess} (h : (writeRow data written p).2 = .update f)
    (q : ManagedProcess) : (f q).agentId = q.agentId ∧ (f q).id = q.id := by
  cases hstdin : p.stdin with
  | none => simp [writeRow, hstdin] at h
  | some text =>
    cases written <;> simp only [writeRow, hstdin, Change.update.injEq] at h <;> subst h <;>
      exact ⟨rfl, rfl⟩

theorem readRow_keeps {p : ManagedProcess} {f : ManagedProcess → ManagedProcess}
    (h : (readRow p).2 = .update f) (q : ManagedProcess) :
    (f q).agentId = q.agentId ∧ (f q).id = q.id := by
  cases h
  exact ⟨rfl, rfl⟩

/-- What `cron_cancel` does to a job. -/
def cancelRow (_ : JobMeta ι) : Except String Unit × Change (JobMeta ι) := (.ok (), .delete)

/-- The text of an unknown job. -/
def jobNotFound (id : ι) : String :=
  internalError ("Cron job " ++ crates.printUuid id ++ " not found")

theorem cronCancel_eq {jobId : String} {id : ι} (hid : crates.parseUuid jobId = .ok id)
    (s : CronScheduler ι) :
    cronCancel crates jobId s =
      ((act JobMeta.id id (.error (jobNotFound crates id)) cancelRow s.jobs).1,
        { s with
          jobs := (act JobMeta.id id (.error (jobNotFound crates id)) cancelRow s.jobs).2 }) := by
  unfold cronCancel
  rw [hid]
  change keepOnError s ((s.removeJob crates id).bind fun r => .ok ((), r.2)) = _
  unfold CronScheduler.removeJob act
  cases lookup JobMeta.id id s.jobs <;> rfl

theorem cronCancel_of_error {jobId e : String} (hid : crates.parseUuid jobId = .error e)
    (s : CronScheduler ι) :
    cronCancel crates jobId s = (.error ("Invalid job ID: " ++ e), s) := by
  unfold cronCancel
  rw [hid]
  rfl

/-- A cancellation is confined if and only if the job is the caller's own. -/
theorem cronCancel_confined_iff (h : Sound w) {jobId : String} {id : ι}
    (hid : crates.parseUuid jobId = .ok id) :
    ((cronCancel crates jobId (w.own crates caller).cronScheduler).1 =
        (cronCancel crates jobId w.cronScheduler).1 ∧
      ({ w with cronScheduler := (cronCancel crates jobId w.cronScheduler).2 } : World ι).others
          crates caller = w.others crates caller) ↔ OwnJob crates w caller id := by
  rw [OwnJob, ← @actsWithin_iff _ _ _ _ _ (ownsJob crates caller) _
    (.error (jobNotFound crates id)) cancelRow _ h.jobs]
  · rw [cronCancel_eq crates hid, cronCancel_eq crates hid]
    simp [ActsWithin, World.own, World.others, World.part]
  · intro m
    simp [cancelRow]
  · intro m f hf
    cases hf

end Operations

/-! ### Runs -/

section Run

open Table

variable {ι σ ζ : Type} [DecidableEq ι] (crates : Crates ι σ ζ) (toLowercase : String → String)
  {w : World ι} {caller : Option String} {now : Time}

omit [DecidableEq ι] in
theorem map_eq_map_iff {α β ε : Type} {g : α → β} (hg : Function.Injective g) {x y : Except ε α} :
    x.map g = y.map g ↔ x = y := by
  cases x <;> cases y <;> simp [Except.map, hg.eq_iff]

/-- A call whose parameters are refused touches nothing. -/
theorem confined_of_refused {c : Call ι} {e : Except String (Reply ι)}
    (h : ∀ w, executeTool crates toLowercase caller now c w = (e, w)) :
    Confined crates toLowercase w caller now c := by
  rw [Confined, h, h]
  exact ⟨rfl, rfl⟩

theorem poll_confined_iff (h : Sound w) (input : Json) :
    Confined crates toLowercase w caller now (.processPoll input) ↔
      ∀ id, param input "process_id" = .ok id → OwnProcess w caller id := by
  cases hid : param input "process_id" with
  | error e =>
    refine iff_of_true (confined_of_refused (e := .error e) crates toLowercase fun w => ?_)
      fun id hok => nomatch hok
    simp [executeTool, onProcesses, toolProcessPoll, hid, Except.map]
  | ok id =>
    simp only [Except.ok.injEq, forall_eq']
    exact onProcesses_confined_iff id crates h readRow pollText
      (fun pm => by simp [toolProcessPoll, hid, read_eq]) (fun p => by simp [readRow])
      fun p f hf q => (readRow_keeps hf q).1

theorem kill_confined_iff (h : Sound w) (input : Json) :
    Confined crates toLowercase w caller now (.processKill input) ↔
      ∀ id, param input "process_id" = .ok id → OwnProcess w caller id := by
  cases hid : param input "process_id" with
  | error e =>
    refine iff_of_true (confined_of_refused (e := .error e) crates toLowercase fun w => ?_)
      fun id hok => nomatch hok
    simp [executeTool, onProcesses, toolProcessKill, hid, Except.map]
  | ok id =>
    simp only [Except.ok.injEq, forall_eq']
    exact onProcesses_confined_iff id crates h killRow
      (fun _ => "\x7b\"status\": \"killed\"\x7d")
      (fun pm => by simp [toolProcessKill, hid, kill_eq]) (fun p => by simp [killRow])
      fun p f hf => by cases hf

theorem write_confined_iff (h : Sound w) (input : Json) (written : Written) :
    Confined crates toLowercase w caller now (.processWrite input written) ↔
      ∀ id data, writeArgs input = .ok (id, data) → OwnProcess w caller id := by
  cases hargs : writeArgs input with
  | error e =>
    refine iff_of_true (confined_of_refused (e := .error e) crates toLowercase fun w => ?_)
      fun id data hok => nomatch hok
    simp [executeTool, onProcesses, toolProcessWrite, hargs, Except.map]
  | ok args =>
    obtain ⟨id, data⟩ := args
    have hall : (∀ id' data', (Except.ok (id, data) : Except String (String × String)) =
        .ok (id', data') → OwnProcess w caller id') ↔ OwnProcess w caller id := by
      simp only [Except.ok.injEq, Prod.mk.injEq]
      exact ⟨fun hown => hown id data ⟨rfl, rfl⟩, fun hown _ _ hid => hid.1 ▸ hown⟩
    rw [hall]
    exact onProcesses_confined_iff id crates h (writeRow data written)
      (fun _ => "\x7b\"status\": \"written\"\x7d")
      (fun pm => by simp [toolProcessWrite, hargs, write_eq]) (writeRow_ne id data written)
      fun p f hf q => (writeRow_keeps hf q).1

theorem cancel_confined_iff (h : Sound w) (input : Json) :
    Confined crates toLowercase w caller now (.cronCancel input) ↔
      ∀ jobId id, param input "job_id" = .ok jobId → crates.parseUuid jobId = .ok id →
        OwnJob crates w caller id := by
  cases hjob : param input "job_id" with
  | error e =>
    refine iff_of_true (confined_of_refused (e := .error e) crates toLowercase fun w => ?_)
      fun jobId id hok => nomatch hok
    simp [executeTool, onJobs, toolCronCancel, hjob, Except.map]
  | ok jobId =>
    cases hid : crates.parseUuid jobId with
    | error e =>
      refine iff_of_true (confined_of_refused (e := .error ("Invalid job ID: " ++ e)) crates
        toLowercase fun w => ?_) fun jobId' id hok hparse => ?_
      · simp [executeTool, onJobs, toolCronCancel, hjob, cronCancel_of_error crates hid, Except.map]
      · cases hok
        cases hid.symm.trans hparse
    | ok id =>
      have hall : (∀ jobId' id', (Except.ok jobId : Except String String) = .ok jobId' →
          crates.parseUuid jobId' = .ok id' → OwnJob crates w caller id') ↔
            OwnJob crates w caller id := by
        refine ⟨fun hown => hown jobId id rfl hid, fun hown jobId' id' hok hparse => ?_⟩
        cases hok
        cases hid.symm.trans hparse
        exact hown
      rw [hall, ← cronCancel_confined_iff crates h hid]
      simp only [Confined, executeTool, onJobs, toolCronCancel, hjob]
      refine and_congr_left' ?_
      rw [map_eq_map_iff fun _ _ => Reply.text.inj, map_eq_map_iff fun _ _ _ => rfl]

/-- A call is confined if and only if it names nothing of another. -/
theorem keeps_iff (h : Sound w) (e : Event ι) :
    Keeps crates toLowercase w e ↔ OwnTarget crates w e := by
  cases e with
  | call caller now c =>
    cases c with
    | processPoll input => exact (imp_iff_right rfl).trans (poll_confined_iff crates _ h input)
    | processWrite input written =>
      exact (imp_iff_right rfl).trans (write_confined_iff crates _ h input written)
    | processKill input => exact (imp_iff_right rfl).trans (kill_confined_iff crates _ h input)
    | cronCancel input => exact (imp_iff_right rfl).trans (cancel_confined_iff crates _ h input)
    | _ => exact iff_of_true nofun trivial
  | _ => exact iff_of_true trivial trivial

/-! What an event does to the ids. -/

theorem Sound.onProcesses {f : Manager → Except String String × Manager}
    (hf : ∀ pm, UniqueKeys ManagedProcess.id pm.processes →
      UniqueKeys ManagedProcess.id (f pm).2.processes) (h : Sound w) :
    Sound (Ownership.onProcesses f w).2 :=
  ⟨hf _ h.processes, h.jobs⟩

theorem Sound.onJobs {f : CronScheduler ι → Except String String × CronScheduler ι}
    (hf : ∀ s, UniqueKeys JobMeta.id s.jobs → UniqueKeys JobMeta.id (f s).2.jobs) (h : Sound w) :
    Sound (Ownership.onJobs f w).2 :=
  ⟨h.processes, hf _ h.jobs⟩

theorem actOn_uniqueKeys {pm : Manager} {processId : String} {β : Type}
    {present : ManagedProcess → Except String β × Change ManagedProcess}
    (hkey : ∀ p f, (present p).2 = .update f → ∀ q, (f q).id = q.id)
    (h : UniqueKeys ManagedProcess.id pm.processes) :
    UniqueKeys ManagedProcess.id (actOn pm processId present).2.processes :=
  h.act hkey

theorem start_uniqueKeys {pm : Manager} (agentId command : String) (args : List String)
    (spawned : Except String Unit) (now : Time) (h : UniqueKeys ManagedProcess.id pm.processes) :
    UniqueKeys ManagedProcess.id (pm.start agentId command args spawned now).2.processes := by
  unfold Manager.start
  by_cases hfull : pm.maxPerAgent ≤ (pm.processes.filter fun p => p.agentId = agentId).length
  · simpa only [hfull, if_true] using h
  · simp only [hfull, if_false]
    cases spawned with
    | error e => exact h
    | ok _ => exact h.upsert

theorem cronCreate_uniqueKeys (agentId : String) (job : Json) (newId : ι) (now : Time)
    {s : CronScheduler ι} (h : UniqueKeys JobMeta.id s.jobs) :
    UniqueKeys JobMeta.id (cronCreate crates agentId job newId now s).2.jobs := by
  unfold cronCreate
  cases hr : (do
      let fields ← parseCronJobFields crates job
      let aid ← (crates.parseUuid agentId).mapError ("Invalid agent ID: " ++ ·)
      s.addJob crates now
        { id := newId, agentId := aid, name := fields.name, enabled := true
          schedule := fields.schedule, action := fields.action, delivery := fields.delivery
          createdAt := now, lastRun := none, nextRun := none } fields.oneShot) with
  | error e => exact h
  | ok r =>
    obtain ⟨fields, -, hr⟩ := bind_eq_ok.1 hr
    obtain ⟨aid, -, hr⟩ := bind_eq_ok.1 hr
    rw [addJob_eq_ok hr]
    exact h.upsert

theorem cronCancel_uniqueKeys (jobId : String) {s : CronScheduler ι}
    (h : UniqueKeys JobMeta.id s.jobs) :
    UniqueKeys JobMeta.id (cronCancel crates jobId s).2.jobs := by
  cases hid : crates.parseUuid jobId with
  | error e => rwa [cronCancel_of_error crates hid]
  | ok id =>
    rw [cronCancel_eq crates hid]
    exact h.act fun _ _ hf => nomatch hf

theorem toolStart_uniqueKeys (input : Json) (policy : Option SubprocessSandbox.ExecPolicy)
    (spawned : Except String Unit) {pm : Manager} (h : UniqueKeys ManagedProcess.id pm.processes) :
    UniqueKeys ManagedProcess.id
      (toolProcessStart input caller policy spawned now pm).2.processes := by
  unfold toolProcessStart
  cases startArgs input policy with
  | error e => exact h
  | ok args => exact start_uniqueKeys _ _ _ _ _ h

theorem toolPoll_uniqueKeys (input : Json) {pm : Manager}
    (h : UniqueKeys ManagedProcess.id pm.processes) :
    UniqueKeys ManagedProcess.id (toolProcessPoll input pm).2.processes := by
  unfold toolProcessPoll
  cases param input "process_id" with
  | error e => exact h
  | ok id =>
    simp only [read_eq]
    exact actOn_uniqueKeys (fun p f hf q => (readRow_keeps hf q).2) h

theorem toolWrite_uniqueKeys (input : Json) (written : Written) {pm : Manager}
    (h : UniqueKeys ManagedProcess.id pm.processes) :
    UniqueKeys ManagedProcess.id (toolProcessWrite input written pm).2.processes := by
  unfold toolProcessWrite
  cases writeArgs input with
  | error e => exact h
  | ok args =>
    obtain ⟨id, data⟩ := args
    simp only [write_eq]
    exact actOn_uniqueKeys (fun p f hf q => (writeRow_keeps hf q).2) h

theorem toolKill_uniqueKeys (input : Json) {pm : Manager}
    (h : UniqueKeys ManagedProcess.id pm.processes) :
    UniqueKeys ManagedProcess.id (toolProcessKill input pm).2.processes := by
  unfold toolProcessKill
  cases param input "process_id" with
  | error e => exact h
  | ok id =>
    simp only [kill_eq]
    exact actOn_uniqueKeys (fun _ _ hf => nomatch hf) h

theorem toolCronCreate_uniqueKeys (input : Json) (newId : ι) {s : CronScheduler ι}
    (h : UniqueKeys JobMeta.id s.jobs) :
    UniqueKeys JobMeta.id (toolCronCreate crates input caller newId now s).2.jobs := by
  unfold toolCronCreate
  cases callerOf "cron_create" caller with
  | error e => exact h
  | ok agentId => exact cronCreate_uniqueKeys crates agentId input newId now h

theorem toolScheduleCreate_uniqueKeys (input : Json) (agents : Agents) (newId : ι)
    {s : CronScheduler ι} (h : UniqueKeys JobMeta.id s.jobs) :
    UniqueKeys JobMeta.id
      (toolScheduleCreate crates toLowercase input agents caller newId now s).2.jobs := by
  unfold toolScheduleCreate
  cases scheduleArgs toLowercase input agents caller with
  | error e => exact h
  | ok args => exact cronCreate_uniqueKeys crates _ _ newId now h

theorem toolCancel_uniqueKeys (input : Json) {s : CronScheduler ι}
    (h : UniqueKeys JobMeta.id s.jobs) :
    UniqueKeys JobMeta.id (toolCronCancel crates input s).2.jobs := by
  unfold toolCronCancel
  cases param input "job_id" with
  | error e => exact h
  | ok jobId => exact cronCancel_uniqueKeys crates jobId h

theorem toolDelete_uniqueKeys (input : Json) {s : CronScheduler ι}
    (h : UniqueKeys JobMeta.id s.jobs) :
    UniqueKeys JobMeta.id (toolScheduleDelete crates input s).2.jobs := by
  unfold toolScheduleDelete
  cases param input "id" with
  | error e => exact h
  | ok jobId => exact cronCancel_uniqueKeys crates jobId h

theorem executeTool_sound (c : Call ι) (h : Sound w) :
    Sound (executeTool crates toLowercase caller now c w).2 := by
  cases c with
  | processStart input policy spawned =>
    exact h.onProcesses fun _ => toolStart_uniqueKeys input policy spawned
  | processPoll input => exact h.onProcesses fun _ => toolPoll_uniqueKeys input
  | processWrite input written => exact h.onProcesses fun _ => toolWrite_uniqueKeys input written
  | processKill input => exact h.onProcesses fun _ => toolKill_uniqueKeys input
  | processList => exact h
  | cronCreate input newId => exact h.onJobs fun _ => toolCronCreate_uniqueKeys crates input newId
  | cronList => exact h
  | cronCancel input => exact h.onJobs fun _ => toolCancel_uniqueKeys crates input
  | scheduleCreate input agents newId =>
    exact h.onJobs fun _ => toolScheduleCreate_uniqueKeys crates toLowercase input agents newId
  | scheduleList => exact h
  | scheduleDelete input => exact h.onJobs fun _ => toolDelete_uniqueKeys crates input

/-- What a call of the scheduler leaves has its ids apart. -/
theorem Sound.scheduled (h : Sound w) (c : SchedulerCall ι) :
    UniqueKeys JobMeta.id
      (({ scheduler := w.cronScheduler } : Daemon ι).step crates c).scheduler.jobs :=
  unique_step (d := { scheduler := w.cronScheduler }) h.jobs

/-- Every event keeps the ids unique. -/
theorem Sound.step (h : Sound w) (e : Event ι) : Sound (step crates toLowercase w e) := by
  cases e with
  | call caller now c => exact executeTool_sound crates toLowercase c h
  | stdout processId line => exact ⟨UniqueKeys.modify (fun _ => rfl) h.processes, h.jobs⟩
  | stderr processId line => exact ⟨UniqueKeys.modify (fun _ => rfl) h.processes, h.jobs⟩
  | exits processId => exact ⟨UniqueKeys.modify (fun _ => rfl) h.processes, h.jobs⟩
  | claimDueJobs now => exact ⟨h.processes, h.scheduled crates (.claimDueJobs now)⟩
  | recordSuccess now id => exact ⟨h.processes, h.scheduled crates (.recordSuccess now id)⟩
  | recordFailure now id errorMsg transient =>
    exact ⟨h.processes, h.scheduled crates (.recordFailure now id errorMsg transient)⟩
  | reassignAgent oldId newId =>
    exact ⟨h.processes, h.scheduled crates (.reassignAgent oldId newId)⟩

theorem sound_boot (maxTotalJobs : ℕ) (now : Time) (metas : List (JobMeta ι)) :
    Sound (boot crates maxTotalJobs now metas) :=
  ⟨List.nodup_nil, unique_load (s := { maxTotalJobs := maxTotalJobs }) List.nodup_nil now metas⟩

/-- In every run from the start of a kernel, `process_poll`, `process_write`, `process_kill` and
`cron_cancel` see and change nothing of another agent if and only if none of them names a process or
a job of another. -/
theorem calls_confined_iff (maxTotalJobs : ℕ) (now : Time) (metas : List (JobMeta ι))
    (events : List (Event ι)) :
    Along (step crates toLowercase) (Keeps crates toLowercase) (boot crates maxTotalJobs now metas)
        events ↔
      Along (step crates toLowercase) (OwnTarget crates) (boot crates maxTotalJobs now metas)
        events :=
  along_congr (P := fun _ _ => True) (along_of_forall fun _ _ => trivial)
    (sound_boot crates maxTotalJobs now metas) (fun _ e h _ => h.step crates toLowercase e)
    fun _ e h _ => keeps_iff crates toLowercase h e

end Run

/-! ### A process of another -/

/-- Crates that read decimal numbers as ids, and nothing else. -/
def decimalIds : Crates ℕ Unit Unit where
  isAlphanumeric := Char.isAlphanum
  parseUuid s :=
    match Json.decimal s.toList with
    | some n => .ok n
    | none => .error "invalid character"
  printUuid := toString
  parseCron _ := .error "Invalid expression"
  parseZone _ := none
  utc := ()
  upcoming _ _ _ := none
  readSchedule _ := .error "invalid type"
  readAction _ := .error "invalid type"
  readDelivery _ := .error "invalid type"

/-- Agent `1` starts a process, and agent `2` reads what it has written. -/
def readsOther : List (Event ℕ) :=
  [.call (some "1") 0 (.processStart (.object [("command", .string "cat")]) none (.ok ())),
    .stdout "proc_1" "secret",
    .call (some "2") 0 (.processPoll (.object [("process_id", .string "proc_1")]))]

theorem calls_confined_fails :
    ¬ ∀ (crates : Crates ℕ Unit Unit) (toLowercase : String → String) (maxTotalJobs : ℕ)
        (now : Time) (metas : List (JobMeta ℕ)) (events : List (Event ℕ)),
      Along (step crates toLowercase) (Keeps crates toLowercase)
        (boot crates maxTotalJobs now metas) events := by
  intro h
  obtain ⟨-, -, hpoll, -⟩ := h decimalIds id 50 0 [] readsOther
  have hown := ((keeps_iff decimalIds id
      (((sound_boot decimalIds 50 0 []).step decimalIds id _).step
    decimalIds id _) _).1 hpoll) "proc_1" rfl _ (.head _) rfl
  exact absurd hown (by decide)

end Ownership
end RustyHand
