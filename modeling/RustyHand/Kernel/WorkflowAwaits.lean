import RustyHand.Kernel.Workflow
import RustyHand.Lib.Awaits
import Mathlib.Data.List.Sort

/-!
# The awaits of a workflow

`run_workflow` of `rusty-hand-kernel/src/kernel.rs` with `create_run`, `execute_run` and
`mark_run_failed` of `workflow.rs`: the same runs as in `Workflows`, with the points where the
future waits for a lock or for an agent.  The workflows and the runs are shared with other futures
there; the rest of an `Execution` is the future's own.

* `AwaitPoint`: what a future waits for;
* `executeRun`: a run, with its awaits;
* `erase_executeRun`: left alone, it is the run of `Workflows`;
* `createRun`, `markRunFailed`, `runWorkflow`: a run from its creation to its result;
* `erase_runWorkflow`: left alone and without a deadline, it is that run behind its creation.
-/

namespace RustyHand
namespace WorkflowAwaits

open Workflows Awaits
open Effects (run_get_bind run_modify_bind)

/-- What a future of `run_workflow` waits for: the workflows or the runs to read or write them, or
the answer of an agent. -/
inductive AwaitPoint
  /-- `create_run` reads the workflows. -/
  | lookup
  /-- `create_run` writes the new run. -/
  | insert
  /-- `execute_run_inner` writes that the run is running. -/
  | start
  /-- It reads the workflows, and keeps the runs locked. -/
  | definition
  /-- An agent is to answer. -/
  | send
  /-- The result of a step is written. -/
  | record
  /-- A failed step is written. -/
  | fail
  /-- The end of the run is written. -/
  | finish
  /-- `execute_run` writes an error. -/
  | finalize (e : RunError)
  /-- `mark_run_failed` writes that the time is over, which came at another await. -/
  | expire (point : AwaitPoint)

variable {ι α : Type} [DecidableEq ι]

/-- A part of a run, with its awaits. -/
abbrev Part (ι α β : Type) : Type := Future AwaitPoint (Execution ι α) RunError β

/-! ### The parts of a run -/

/-- `self.runs.write().await.get_mut(&run_id)`, and a change of the run if it is there. -/
def modifyRun (point : AwaitPoint) (runId : ι) (f : WorkflowRun ι → WorkflowRun ι) :
    Part ι α Unit := do
  pause point
  update fun t => { t with
    engine := { t.engine with runs := Table.modify WorkflowRun.id runId f t.engine.runs } }

def pushResult (runId : ι) (result : StepResult) : Part ι α Unit :=
  modifyRun .record runId fun r => { r with stepResults := r.stepResults ++ [result] }

def failStep {β : Type} (w : World α) (runId : ι) (step : WorkflowStep) (message : String) :
    Part ι α β := do
  let t ← look
  modifyRun .fail runId fun r => { r with
    state := .failed, error := some message, completedAt := some (w.now t.calls.length) }
  throw (.stepFailed step message)

def setVar (name : Option String) (value : String) : Part ι α Unit :=
  match name with
  | some name => update fun t => { t with vars := Function.update t.vars name (some value) }
  | none => pure ()

def setInput (input : String) : Part ι α Unit := update fun t => { t with currentInput := input }

def pushOutput (output : String) : Part ι α Unit :=
  update fun t => { t with allOutputs := t.allOutputs ++ [output] }

def resolveAgent (w : World α) (step : WorkflowStep) : Part ι α (α × String) :=
  match w.resolve step.agent with
  | some agent => pure agent
  | none => throw (.agentNotFound step)

def sendMessage (w : World α) (step : WorkflowStep) (attempt : ℕ) (agent : α) (prompt : String) :
    Part ι α Answer := do
  pause .send
  ask fun t =>
    let answer := w.send t.calls.length agent prompt
    (answer, { t with calls := t.calls ++ [⟨step, attempt, agent, prompt, answer⟩] })

def attempts (w : World α) (step : WorkflowStep) (agent : α) (prompt : String) (maxRetries : ℕ) :
    ℕ → String → Part ι α (Except String (Option Reply))
  | 0, lastErr => pure (.error ("Step '" ++ step.name ++ "' failed after " ++
      toString maxRetries ++ " retries: " ++ lastErr))
  | left + 1, _ => do
    match ← sendMessage w step (maxRetries - left) agent prompt with
    | .reply reply => pure (.ok (some reply))
    | .failed e => attempts w step agent prompt maxRetries left e
    | .timedOut =>
      attempts w step agent prompt maxRetries left
        ("timed out after " ++ toString step.timeoutSecs ++ "s")

def executeStepWithErrorMode (w : World α) (step : WorkflowStep) (agent : α) (prompt : String) :
    Part ι α (Except String (Option Reply)) :=
  match step.errorMode with
  | .fail => do
    match ← sendMessage w step 0 agent prompt with
    | .reply reply => pure (.ok (some reply))
    | .failed e => pure (.error ("Step '" ++ step.name ++ "' failed: " ++ e))
    | .timedOut => pure (.error ("Step '" ++ step.name ++ "' timed out after " ++
        toString step.timeoutSecs ++ "s"))
  | .skip => do
    match ← sendMessage w step 0 agent prompt with
    | .reply reply => pure (.ok (some reply))
    | .failed _ => pure (.ok none)
    | .timedOut => pure (.ok none)
  | .retry maxRetries => attempts w step agent prompt maxRetries (maxRetries + 1) ""

/-! ### The modes of a step -/

def keepReply (w : World α) (runId : ι) (step : WorkflowStep) (agent : α × String) (reply : Reply) :
    Part ι α Unit := do
  pushResult runId (resultOf w step.name agent reply)
  setVar step.outputVar reply.output
  pushOutput reply.output
  setInput reply.output

def runSequential (w : World α) (runId : ι) (step : WorkflowStep) : Part ι α Unit := do
  let agent ← resolveAgent w step
  let t ← look
  match ← executeStepWithErrorMode w step agent.1 (promptOf step t) with
  | .ok (some reply) => keepReply w runId step agent reply
  | .ok none => pure ()
  | .error e => failStep w runId step e

def runConditional (w : World α) (runId : ι) (step : WorkflowStep) (condition : String) :
    Part ι α Unit := do
  let t ← look
  if Text.containsText (w.toLowercase t.currentInput) (w.toLowercase condition) then
    runSequential w runId step
  else pure ()

def runCollect (step : WorkflowStep) : Part ι α Unit := do
  let t ← look
  let collected := "\n\n---\n\n".intercalate t.allOutputs
  setInput collected
  update fun t => { t with allOutputs := [collected] }
  setVar step.outputVar collected

def iterate (w : World α) (runId : ι) (step : WorkflowStep) (agent : α × String)
    (maxIterations : ℕ) (untilLower : String) : ℕ → Part ι α Unit
  | 0 => pure ()
  | left + 1 => do
    let t ← look
    match ← executeStepWithErrorMode w step agent.1 (promptOf step t) with
    | .ok (some reply) => do
      let name := step.name ++ " (iter " ++ toString (maxIterations - left) ++ ")"
      pushResult runId (resultOf w name agent reply)
      setInput reply.output
      if untilLower ≠ "" ∧ Text.containsText (w.toLowercase reply.output) untilLower then pure ()
      else iterate w runId step agent maxIterations untilLower left
    | .ok none => pure ()
    | .error e => failStep w runId step e

def runLoop (w : World α) (runId : ι) (step : WorkflowStep) (maxIterations : ℕ)
    (untilText : String) : Part ι α Unit := do
  let agent ← resolveAgent w step
  iterate w runId step agent maxIterations (w.toLowercase untilText) maxIterations
  let t ← look
  setVar step.outputVar t.currentInput
  pushOutput t.currentInput

def prepare (w : World α) : List WorkflowStep → Part ι α (List (Prepared α))
  | [] => pure []
  | step :: steps => do
    let agent ← resolveAgent w step
    let t ← look
    let rest ← prepare w steps
    pure (⟨step, agent, promptOf step t⟩ :: rest)

def joinAll (w : World α) : List (Prepared α) → Part ι α (List (Prepared α × Answer))
  | [] => pure []
  | p :: ps => do
    let answer ← sendMessage w p.step 0 p.agent.1 p.prompt
    let rest ← joinAll w ps
    pure ((p, answer) :: rest)

def takeResults (w : World α) (runId : ι) : List (Prepared α × Answer) → Part ι α Unit
  | [] => pure ()
  | (p, answer) :: results =>
    match answer with
    | .reply reply => do
      keepReply w runId p.step p.agent reply
      takeResults w runId results
    | .failed e => failStep w runId p.step
        ("FanOut step '" ++ p.step.name ++ "' failed: " ++ e)
    | .timedOut => failStep w runId p.step
        ("FanOut step '" ++ p.step.name ++ "' timed out after " ++
          toString p.step.timeoutSecs ++ "s")

def runFanOut (w : World α) (runId : ι) (group : List WorkflowStep) : Part ι α Unit := do
  let prepared ← prepare w group
  let results ← joinAll w prepared
  takeResults w runId results

/-! ### Runs -/

def executeSteps (w : World α) (runId : ι) : List WorkflowStep → Part ι α Unit
  | [] => pure ()
  | step :: steps =>
    match step.mode with
    | .sequential => do
      runSequential w runId step
      executeSteps w runId steps
    | .fanOut => do
      runFanOut w runId (step :: steps.takeWhile WorkflowStep.isFanOut)
      executeSteps w runId (steps.dropWhile WorkflowStep.isFanOut)
    | .collect => do
      runCollect step
      executeSteps w runId steps
    | .conditional condition => do
      runConditional w runId step condition
      executeSteps w runId steps
    | .loop maxIterations untilText => do
      runLoop w runId step maxIterations untilText
      executeSteps w runId steps
termination_by steps => steps.length
decreasing_by
  · simp
  · exact Nat.lt_succ_of_le (List.length_dropWhile_le _ _)
  · simp
  · simp
  · simp

/-- `execute_run_inner`. -/
def executeRunInner (w : World α) (runId : ι) : Part ι α String := do
  pause .start
  let t ← look
  match Table.lookup WorkflowRun.id runId t.engine.runs with
  | none => throw .runNotFound
  | some run =>
    update fun t => { t with
      engine := { t.engine with
        runs := Table.modify WorkflowRun.id runId (fun r => { r with state := .running })
          t.engine.runs } }
    pause .definition
    let t ← look
    match Table.lookup Workflow.id run.workflowId t.engine.workflows with
    | none => throw .definitionNotFound
    | some workflow =>
      setInput run.input
      executeSteps w runId workflow.steps
      let t ← look
      modifyRun .finish runId fun r => { r with
        state := .completed
        output := some t.currentInput
        completedAt := some (w.now t.calls.length) }
      pure t.currentInput

/-- `execute_run`. -/
def executeRun (w : World α) (runId : ι) : Part ι α String :=
  tryCatch (executeRunInner w runId) fun e => do
    let t ← look
    modifyRun (.finalize e) runId fun r => r.failedWith e.text (w.now t.calls.length)
    throw e

/-! ### From the creation of a run to its result -/

/-- `MAX_RETAINED_RUNS`. -/
def maxRetainedRuns : ℕ := 200

/-- Is a run `Completed` or `Failed`? -/
def isOver (r : WorkflowRun ι) : Bool :=
  match r.state with
  | .completed | .failed => true
  | .pending | .running => false

/-- The oldest of the runs that are over, as many as there are too many runs. -/
def toRemove (runs : List (WorkflowRun ι)) : List ι :=
  let evictable := (runs.filter isOver).insertionSort fun r r' => r.startedAt ≤ r'.startedAt
  (evictable.take (runs.length - maxRetainedRuns)).map WorkflowRun.id

/-- The runs after an eviction. -/
def evictOldest (runs : List (WorkflowRun ι)) : List (WorkflowRun ι) :=
  runs.filter fun r => !(toRemove runs).contains r.id

/-- Why `run_workflow` fails. -/
inductive WorkflowError
  | notFound
  | timedOut
  | failed (e : RunError)

/-- `MAX_WORKFLOW_SECS`. -/
def maxWorkflowSecs : ℕ := 3600

/-- The text of an error. -/
def WorkflowError.text : WorkflowError → String
  | notFound => "Workflow not found"
  | timedOut => "Workflow timed out after " ++ toString maxWorkflowSecs ++ "s"
  | failed e => "Workflow failed: " ++ e.text

/-- `create_run`, where `runId` is the new id. -/
def createRun (w : World α) (runId workflowId : ι) (input : String) :
    Future AwaitPoint (Execution ι α) WorkflowError (Option ι) := do
  pause .lookup
  let t ← look
  match Table.lookup Workflow.id workflowId t.engine.workflows with
  | none => pure none
  | some workflow =>
    let run : WorkflowRun ι :=
      { id := runId, workflowId := workflowId, workflowName := workflow.name, input := input
        startedAt := w.now t.calls.length }
    pause .insert
    update fun t => { t with
      engine := { t.engine with
        runs := evictOldest (Table.upsert WorkflowRun.id run t.engine.runs) } }
    pure (some runId)

/-- `mark_run_failed`, after `execute_run` was dropped at `point`. -/
def markRunFailed (w : World α) (point : AwaitPoint) (runId : ι) (error : String) :
    Future AwaitPoint (Execution ι α) WorkflowError Unit := do
  pause (.expire point)
  update fun t => { t with
    engine := { t.engine with
      runs := Table.modify WorkflowRun.id runId
        (fun r => r.failedWith error (w.now t.calls.length)) t.engine.runs } }

/-- `run_workflow`.  The time of a run is over where `execute_run` awaits for the time after the
`deadline`th. -/
def runWorkflow (w : World α) (deadline : Option ℕ) (runId workflowId : ι) (input : String) :
    Future AwaitPoint (Execution ι α) WorkflowError (ι × String) := do
  match ← createRun w runId workflowId input with
  | none => throw .notFound
  | some runId =>
    match ← ExceptT.lift ((executeRun w runId).run.within deadline) with
    | .inl point => do
      markRunFailed w point runId WorkflowError.timedOut.text
      throw .timedOut
    | .inr (.error e) => throw (.failed e)
    | .inr (.ok output) => pure (runId, output)

/-! ### Left alone, it is a run of the engine -/

section Erase

variable {w : World α} {runId : ι} {step : WorkflowStep}

omit [DecidableEq ι] in
@[simp] theorem erase_setVar (name : Option String) (value : String) :
    erase (setVar name value : Part ι α Unit) = Workflows.setVar name value := by
  cases name <;> rfl

omit [DecidableEq ι] in
@[simp] theorem erase_setInput (input : String) :
    erase (setInput input : Part ι α Unit) = Workflows.setInput input := rfl

omit [DecidableEq ι] in
@[simp] theorem erase_pushOutput (output : String) :
    erase (pushOutput output : Part ι α Unit) = Workflows.pushOutput output := rfl

omit [DecidableEq ι] in
@[simp] theorem erase_resolveAgent :
    erase (resolveAgent w step : Part ι α (α × String)) = Workflows.resolveAgent w step := by
  unfold resolveAgent Workflows.resolveAgent
  cases w.resolve step.agent <;> rfl

omit [DecidableEq ι] in
@[simp] theorem erase_sendMessage (attempt : ℕ) (agent : α) (prompt : String) :
    erase (sendMessage w step attempt agent prompt : Part ι α Answer) =
      Workflows.sendMessage w step attempt agent prompt := rfl

omit [DecidableEq ι] in
@[simp] theorem erase_attempts (agent : α) (prompt : String) (maxRetries left : ℕ)
    (lastErr : String) :
    erase (attempts w step agent prompt maxRetries left lastErr : Part ι α _) =
      Workflows.attempts w step agent prompt maxRetries left lastErr := by
  induction left generalizing lastErr with
  | zero => rfl
  | succ left ih =>
    rw [attempts, Workflows.attempts, erase_bind, erase_sendMessage]
    refine bind_congr fun answer => ?_
    cases answer with
    | reply reply => rfl
    | failed e => exact ih e
    | timedOut => exact ih _

omit [DecidableEq ι] in
@[simp] theorem erase_executeStep (agent : α) (prompt : String) :
    erase (executeStepWithErrorMode w step agent prompt : Part ι α _) =
      Workflows.executeStepWithErrorMode w step agent prompt := by
  unfold executeStepWithErrorMode Workflows.executeStepWithErrorMode
  cases step.errorMode with
  | fail =>
    rw [erase_bind, erase_sendMessage]
    refine bind_congr fun answer => ?_
    cases answer <;> rfl
  | skip =>
    rw [erase_bind, erase_sendMessage]
    refine bind_congr fun answer => ?_
    cases answer <;> rfl
  | retry maxRetries => exact erase_attempts agent prompt maxRetries _ _

@[simp] theorem erase_modifyRun (point : AwaitPoint) (f : WorkflowRun ι → WorkflowRun ι) :
    erase (modifyRun point runId f : Part ι α Unit) = Workflows.modifyRun runId f := rfl

@[simp] theorem erase_pushResult (result : StepResult) :
    erase (pushResult runId result : Part ι α Unit) = Workflows.pushResult runId result := rfl

@[simp] theorem erase_failStep {β : Type} (message : String) :
    erase (failStep w runId step message : Part ι α β) =
      Workflows.failStep w runId step message := by
  simp [failStep, Workflows.failStep]

@[simp] theorem erase_keepReply (agent : α × String) (reply : Reply) :
    erase (keepReply w runId step agent reply : Part ι α Unit) =
      Workflows.keepReply w runId step agent reply := by
  simp [keepReply, Workflows.keepReply]

theorem erase_outcome {k : Reply → Part ι α Unit} {k' : Reply → Run ι α Unit}
    (hk : ∀ reply, erase (k reply) = k' reply) (r : Except String (Option Reply)) :
    erase (match r with
      | .ok (some reply) => k reply
      | .ok none => pure ()
      | .error e => failStep w runId step e : Part ι α Unit) =
    match r with
      | .ok (some reply) => k' reply
      | .ok none => pure ()
      | .error e => Workflows.failStep w runId step e := by
  match r with
  | .ok (some reply) => exact hk reply
  | .ok none => rfl
  | .error e => exact erase_failStep e

@[simp] theorem erase_runSequential :
    erase (runSequential w runId step : Part ι α Unit) = Workflows.runSequential w runId step := by
  unfold runSequential Workflows.runSequential
  simp only [erase_bind, erase_resolveAgent, erase_look, erase_executeStep]
  refine bind_congr fun agent => bind_congr fun t => bind_congr fun r => ?_
  exact erase_outcome (fun reply => erase_keepReply agent reply) r

@[simp] theorem erase_runConditional (condition : String) :
    erase (runConditional w runId step condition : Part ι α Unit) =
      Workflows.runConditional w runId step condition := by
  unfold runConditional Workflows.runConditional
  rw [erase_bind, erase_look]
  refine bind_congr fun t => ?_
  split
  · exact erase_runSequential
  · rfl

omit [DecidableEq ι] in
@[simp] theorem erase_runCollect :
    erase (runCollect step : Part ι α Unit) = Workflows.runCollect step := by
  simp [runCollect, Workflows.runCollect]

@[simp] theorem erase_iterate (agent : α × String) (maxIterations : ℕ) (untilLower : String)
    (left : ℕ) : erase (iterate w runId step agent maxIterations untilLower left : Part ι α Unit) =
      Workflows.iterate w runId step agent maxIterations untilLower left := by
  induction left with
  | zero => rfl
  | succ left ih =>
    rw [iterate, Workflows.iterate]
    simp only [erase_bind, erase_look, erase_executeStep]
    refine bind_congr fun t => bind_congr fun r => erase_outcome (fun reply => ?_) r
    simp only [erase_bind, erase_pushResult, erase_setInput]
    refine bind_congr fun _ => bind_congr fun _ => ?_
    split
    · rfl
    · exact ih

@[simp] theorem erase_runLoop (maxIterations : ℕ) (untilText : String) :
    erase (runLoop w runId step maxIterations untilText : Part ι α Unit) =
      Workflows.runLoop w runId step maxIterations untilText := by
  simp [runLoop, Workflows.runLoop]

omit [DecidableEq ι] in
@[simp] theorem erase_prepare (steps : List WorkflowStep) :
    erase (prepare w steps : Part ι α _) = Workflows.prepare w steps := by
  induction steps with
  | nil => rfl
  | cons step steps ih => simp [prepare, Workflows.prepare, ih]

omit [DecidableEq ι] in
@[simp] theorem erase_joinAll (prepared : List (Prepared α)) :
    erase (joinAll w prepared : Part ι α _) = Workflows.joinAll w prepared := by
  induction prepared with
  | nil => rfl
  | cons p ps ih => simp [joinAll, Workflows.joinAll, ih]

@[simp] theorem erase_takeResults (results : List (Prepared α × Answer)) :
    erase (takeResults w runId results : Part ι α Unit) =
      Workflows.takeResults w runId results := by
  induction results with
  | nil => rfl
  | cons r results ih =>
    obtain ⟨p, answer⟩ := r
    cases answer with
    | reply reply =>
      simp only [takeResults, Workflows.takeResults, erase_bind, erase_keepReply, ih]
    | failed e => exact erase_failStep _
    | timedOut => exact erase_failStep _

@[simp] theorem erase_runFanOut (group : List WorkflowStep) :
    erase (runFanOut w runId group : Part ι α Unit) = Workflows.runFanOut w runId group := by
  simp [runFanOut, Workflows.runFanOut]

@[simp] theorem erase_executeSteps (steps : List WorkflowStep) :
    erase (executeSteps w runId steps : Part ι α Unit) = Workflows.executeSteps w runId steps := by
  induction steps using Workflows.executeSteps.induct with
  | case1 => rw [executeSteps, Workflows.executeSteps, erase_pure]
  | case2 step steps hmode ih =>
    rw [executeSteps, Workflows.executeSteps, hmode]
    simp only [erase_bind, erase_runSequential, ih]
  | case3 step steps hmode ih =>
    rw [executeSteps, Workflows.executeSteps, hmode]
    simp only [erase_bind, erase_runFanOut, ih]
  | case4 step steps hmode ih =>
    rw [executeSteps, Workflows.executeSteps, hmode]
    simp only [erase_bind, erase_runCollect, ih]
  | case5 step steps condition hmode ih =>
    rw [executeSteps, Workflows.executeSteps, hmode]
    simp only [erase_bind, erase_runConditional, ih]
  | case6 step steps maxIterations untilText hmode ih =>
    rw [executeSteps, Workflows.executeSteps, hmode]
    simp only [erase_bind, erase_runLoop, ih]

theorem erase_executeRunInner :
    erase (executeRunInner w runId : Part ι α String) = Workflows.executeRunInner w runId := by
  -- the definition is looked up again behind an await, where nothing has changed it
  refine funext fun t => ?_
  show Effects.run (erase (executeRunInner w runId)) t =
    Effects.run (Workflows.executeRunInner w runId) t
  unfold executeRunInner Workflows.executeRunInner
  rw [erase_pause_bind, erase_bind, erase_look, run_get_bind, run_get_bind]
  cases hrun : Table.lookup WorkflowRun.id runId t.engine.runs with
  | none => rfl
  | some run =>
    simp only [erase_bind, erase_update, erase_pause, pure_bind, erase_look, Workflows.modifyRun,
      run_modify_bind, run_get_bind]
    cases hworkflow : Table.lookup Workflow.id run.workflowId t.engine.workflows with
    | none => rfl
    | some workflow =>
      simp only [erase_bind, erase_setInput, erase_executeSteps, erase_look, erase_modifyRun,
        Workflows.modifyRun, erase_pure]

/-- **A run that is left alone** is the run of the engine. -/
theorem erase_executeRun :
    erase (executeRun w runId : Part ι α String) = Workflows.executeRun w runId := by
  unfold executeRun Workflows.executeRun
  rw [erase_tryCatch, erase_executeRunInner]
  simp only [erase_bind, erase_look, erase_modifyRun, erase_throw]

/-- Without a deadline, what comes out of `run_workflow` is what comes out of the run. -/
theorem erase_runWorkflow (workflowId : ι) (input : String) :
    erase (runWorkflow w none runId workflowId input) =
      erase (createRun w runId workflowId input) >>= fun
        | none => throw .notFound
        | some id => ExceptT.lift (Workflows.executeRun w id).run >>= fun
          | .error e => throw (.failed e)
          | .ok output => pure (id, output) := by
  unfold runWorkflow
  rw [erase_bind]
  refine bind_congr fun o => ?_
  cases o with
  | none => rfl
  | some id =>
    dsimp only
    rw [erase_bind, erase_lift_within_none, bind_assoc]
    have hrun : (executeRun w id : Part ι α String).run.toState =
        (Workflows.executeRun w id).run := congrArg ExceptT.run erase_executeRun
    rw [hrun]
    refine bind_congr fun r => ?_
    cases r <;> rfl

end Erase

end WorkflowAwaits
end RustyHand
