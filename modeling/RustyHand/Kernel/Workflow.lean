import RustyHand.Lib.Effects
import RustyHand.Lib.Table
import RustyHand.Types.Text

/-!
# Workflows

The workflow engine, `rusty-hand-kernel/src/workflow.rs`: a run takes the steps of a workflow one
after another, and a group of `FanOut` steps at once.  Durations and log texts are left out, and so
is the file of the definitions.

* `Workflow`, `WorkflowRun`, `WorkflowEngine`;
* `World`: the agents, and what they answer;
* `expandVariables`: the prompt of a step;
* `executeStepWithErrorMode`, `runSequential`, `runFanOut`, `runCollect`, `runLoop`: one step;
* `executeRun`: a run.
-/

namespace RustyHand
namespace Workflows

open Effects

/-- `StepAgent`. -/
inductive StepAgent
  | byId (id : String)
  | byName (name : String)
  deriving DecidableEq

/-- `StepMode`. -/
inductive StepMode
  | sequential
  | fanOut
  | collect
  | conditional (condition : String)
  | loop (maxIterations : ℕ) (untilText : String)
  deriving DecidableEq

/-- `ErrorMode`. -/
inductive ErrorMode
  | fail
  | skip
  | retry (maxRetries : ℕ)
  deriving DecidableEq

/-- `WorkflowStep`. -/
structure WorkflowStep where
  name : String
  agent : StepAgent
  promptTemplate : String
  mode : StepMode
  timeoutSecs : ℕ := 120
  errorMode : ErrorMode := .fail
  outputVar : Option String := none
  deriving DecidableEq

/-- `Workflow`. -/
structure Workflow (ι : Type) where
  id : ι
  name : String
  steps : List WorkflowStep

/-- `WorkflowRunState`. -/
inductive WorkflowRunState
  | pending
  | running
  | completed
  | failed
  deriving DecidableEq

/-- `StepResult`. -/
structure StepResult where
  stepName : String
  agentId : String
  agentName : String
  output : String
  inputTokens : ℕ
  outputTokens : ℕ

/-- `WorkflowRun`. -/
structure WorkflowRun (ι : Type) where
  id : ι
  workflowId : ι
  workflowName : String
  input : String
  state : WorkflowRunState := .pending
  stepResults : List StepResult := []
  output : Option String := none
  error : Option String := none
  startedAt : ℤ
  completedAt : Option ℤ := none

/-- `WorkflowEngine`. -/
structure WorkflowEngine (ι : Type) where
  workflows : List (Workflow ι) := []
  runs : List (WorkflowRun ι) := []

/-- What an agent answers. -/
structure Reply where
  output : String
  inputTokens : ℕ
  outputTokens : ℕ

/-- What a call of `send_message` comes to within the time of its step. -/
inductive Answer
  | reply (reply : Reply)
  | failed (error : String)
  | timedOut

/-- The agents and the clock.  `send n` is what an agent answers to a prompt where `n` calls have
been made before, and `now n` is the time by then. -/
structure World (α : Type) where
  toLowercase : String → String
  showId : α → String
  resolve : StepAgent → Option (α × String)
  send : ℕ → α → String → Answer
  now : ℕ → ℤ

/-- A call of `send_message` that a run has made. -/
structure Call (α : Type) where
  step : WorkflowStep
  attempt : ℕ
  agent : α
  prompt : String
  answer : Answer

/-- Why a run fails. -/
inductive RunError
  | runNotFound
  | definitionNotFound
  | agentNotFound (step : WorkflowStep)
  /-- A call of the step's agent has failed. -/
  | stepFailed (step : WorkflowStep) (message : String)

/-- The text of an error. -/
def RunError.text : RunError → String
  | runNotFound => "Workflow run not found"
  | definitionNotFound => "Workflow definition not found"
  | agentNotFound step => "Agent not found for step '" ++ step.name ++ "'"
  | stepFailed _ message => message

/-- What a run works on: the engine, the calls so far, and the local variables of
`execute_run_inner`. -/
structure Execution (ι α : Type) where
  engine : WorkflowEngine ι
  calls : List (Call α) := []
  currentInput : String := ""
  allOutputs : List String := []
  vars : String → Option String := fun _ => none

/-- A computation of a run. -/
abbrev Run (ι α β : Type) : Type := Eff (Execution ι α) RunError β

/-! ### Prompts -/

/-- `expand_variables`, for a template as its characters. -/
def expandChars (input : String) (vars : String → Option String) : List Char → List Char
  | [] => []
  | '\x7b' :: '\x7b' :: rest =>
    match _hsplit : Text.splitOnce ['\x7d', '\x7d'] rest with
    | some (name, after) =>
      let trimmed := Text.trim (String.ofList name)
      let value :=
        if trimmed = "input" then input.toList
        else
          match vars trimmed with
          | some value => value.toList
          -- an unknown placeholder is left as it is
          | none => '\x7b' :: '\x7b' :: name ++ ['\x7d', '\x7d']
      value ++ expandChars input vars after
    | none => '\x7b' :: expandChars input vars ('\x7b' :: rest)
  | c :: rest => c :: expandChars input vars rest
termination_by cs => cs.length
decreasing_by
  · have hrest := congrArg List.length (Text.eq_of_splitOnce _hsplit)
    simp only [List.length_append, List.length_cons, List.length_nil] at hrest ⊢
    omega
  · simp
  · simp

/-- `expand_variables`. -/
def expandVariables (template input : String) (vars : String → Option String) : String :=
  String.ofList (expandChars input vars template.toList)

/-! ### The parts of a run -/

variable {ι α : Type} [DecidableEq ι]

/-- `runs.get_mut(&run_id)`, and a change of the run if it is there. -/
def modifyRun (runId : ι) (f : WorkflowRun ι → WorkflowRun ι) : Run ι α Unit :=
  modify fun t => { t with
    engine := { t.engine with runs := Table.modify WorkflowRun.id runId f t.engine.runs } }

/-- The step of a run has a result. -/
def pushResult (runId : ι) (result : StepResult) : Run ι α Unit :=
  modifyRun runId fun r => { r with stepResults := r.stepResults ++ [result] }

/-- A step has failed, and so does the run. -/
def failStep {β : Type} (w : World α) (runId : ι) (step : WorkflowStep) (message : String) :
    Run ι α β := do
  let t ← get
  modifyRun runId fun r => { r with
    state := .failed, error := some message, completedAt := some (w.now t.calls.length) }
  throw (.stepFailed step message)

/-- The output of a step as a variable, if the step has a name for it. -/
def setVar (name : Option String) (value : String) : Run ι α Unit :=
  match name with
  | some name => modify fun t => { t with vars := Function.update t.vars name (some value) }
  | none => pure ()

def setInput (input : String) : Run ι α Unit := modify fun t => { t with currentInput := input }

def pushOutput (output : String) : Run ι α Unit :=
  modify fun t => { t with allOutputs := t.allOutputs ++ [output] }

/-- `agent_resolver`. -/
def resolveAgent (w : World α) (step : WorkflowStep) : Run ι α (α × String) :=
  match w.resolve step.agent with
  | some agent => pure agent
  | none => throw (.agentNotFound step)

/-- The prompt of a step. -/
def promptOf (step : WorkflowStep) (t : Execution ι α) : String :=
  expandVariables step.promptTemplate t.currentInput t.vars

/-- `send_message`, within the time of the step. -/
def sendMessage (w : World α) (step : WorkflowStep) (attempt : ℕ) (agent : α) (prompt : String) :
    Run ι α Answer :=
  modifyGet fun t =>
    let answer := w.send t.calls.length agent prompt
    (answer, { t with calls := t.calls ++ [⟨step, attempt, agent, prompt, answer⟩] })

/-- The attempts of a step with `ErrorMode::Retry`. -/
def attempts (w : World α) (step : WorkflowStep) (agent : α) (prompt : String) (maxRetries : ℕ) :
    ℕ → String → Run ι α (Except String (Option Reply))
  | 0, lastErr => pure (.error ("Step '" ++ step.name ++ "' failed after " ++
      toString maxRetries ++ " retries: " ++ lastErr))
  | left + 1, _ => do
    match ← sendMessage w step (maxRetries - left) agent prompt with
    | .reply reply => pure (.ok (some reply))
    | .failed e => attempts w step agent prompt maxRetries left e
    | .timedOut =>
      attempts w step agent prompt maxRetries left
        ("timed out after " ++ toString step.timeoutSecs ++ "s")

/-- `execute_step_with_error_mode`. -/
def executeStepWithErrorMode (w : World α) (step : WorkflowStep) (agent : α) (prompt : String) :
    Run ι α (Except String (Option Reply)) :=
  match step.errorMode with
  | .fail => do
    match ← sendMessage w step 0 agent prompt with
    | .reply reply => pure (.ok (some reply))
    | .failed e => pure (.error ("Step '" ++ step.name ++ "' failed: " ++ e))
    | .timedOut => pure (.error ("Step '" ++ step.name ++ "' timed out after " ++
        toString step.timeoutSecs ++ "s"))
  | .skip => do
    match ← sendMessage w step 0 agent prompt with
    | .reply reply => pure (.ok (some reply))
    | .failed _ => pure (.ok none)
    | .timedOut => pure (.ok none)
  | .retry maxRetries => attempts w step agent prompt maxRetries (maxRetries + 1) ""

/-! ### The modes of a step -/

/-- The result of a step. -/
def resultOf (w : World α) (stepName : String) (agent : α × String) (reply : Reply) :
    StepResult where
  stepName := stepName
  agentId := w.showId agent.1
  agentName := agent.2
  output := reply.output
  inputTokens := reply.inputTokens
  outputTokens := reply.outputTokens

/-- What a run keeps of a reply. -/
def keepReply (w : World α) (runId : ι) (step : WorkflowStep) (agent : α × String) (reply : Reply) :
    Run ι α Unit := do
  pushResult runId (resultOf w step.name agent reply)
  setVar step.outputVar reply.output
  pushOutput reply.output
  setInput reply.output

/-- `StepMode::Sequential`. -/
def runSequential (w : World α) (runId : ι) (step : WorkflowStep) : Run ι α Unit := do
  let agent ← resolveAgent w step
  let t ← get
  match ← executeStepWithErrorMode w step agent.1 (promptOf step t) with
  | .ok (some reply) => keepReply w runId step agent reply
  | .ok none => pure ()
  | .error e => failStep w runId step e

/-- `StepMode::Conditional`. -/
def runConditional (w : World α) (runId : ι) (step : WorkflowStep) (condition : String) :
    Run ι α Unit := do
  let t ← get
  if Text.containsText (w.toLowercase t.currentInput) (w.toLowercase condition) then
    runSequential w runId step
  else pure ()

/-- `StepMode::Collect`. -/
def runCollect (step : WorkflowStep) : Run ι α Unit := do
  let t ← get
  let collected := "\n\n---\n\n".intercalate t.allOutputs
  setInput collected
  modify fun t => { t with allOutputs := [collected] }
  setVar step.outputVar collected

/-- The rounds of a loop, of which `left` are left of `maxIterations`. -/
def iterate (w : World α) (runId : ι) (step : WorkflowStep) (agent : α × String)
    (maxIterations : ℕ) (untilLower : String) : ℕ → Run ι α Unit
  | 0 => pure ()
  | left + 1 => do
    let t ← get
    match ← executeStepWithErrorMode w step agent.1 (promptOf step t) with
    | .ok (some reply) => do
      let name := step.name ++ " (iter " ++ toString (maxIterations - left) ++ ")"
      pushResult runId (resultOf w name agent reply)
      setInput reply.output
      if untilLower ≠ "" ∧ Text.containsText (w.toLowercase reply.output) untilLower then pure ()
      else iterate w runId step agent maxIterations untilLower left
    | .ok none => pure ()
    | .error e => failStep w runId step e

/-- `StepMode::Loop`. -/
def runLoop (w : World α) (runId : ι) (step : WorkflowStep) (maxIterations : ℕ)
    (untilText : String) : Run ι α Unit := do
  let agent ← resolveAgent w step
  iterate w runId step agent maxIterations (w.toLowercase untilText) maxIterations
  let t ← get
  setVar step.outputVar t.currentInput
  pushOutput t.currentInput

/-- A step of a group with its agent and its prompt. -/
structure Prepared (α : Type) where
  step : WorkflowStep
  agent : α × String
  prompt : String

/-- The agents and the prompts of a group, before any of its agents is called. -/
def prepare (w : World α) : List WorkflowStep → Run ι α (List (Prepared α))
  | [] => pure []
  | step :: steps => do
    let agent ← resolveAgent w step
    let t ← get
    let rest ← prepare w steps
    pure (⟨step, agent, promptOf step t⟩ :: rest)

/-- `join_all`: all calls of a group, with what they come to. -/
def joinAll (w : World α) : List (Prepared α) → Run ι α (List (Prepared α × Answer))
  | [] => pure []
  | p :: ps => do
    let answer ← sendMessage w p.step 0 p.agent.1 p.prompt
    let rest ← joinAll w ps
    pure ((p, answer) :: rest)

/-- What a run makes of the results of a group. -/
def takeResults (w : World α) (runId : ι) : List (Prepared α × Answer) → Run ι α Unit
  | [] => pure ()
  | (p, answer) :: results =>
    match answer with
    | .reply reply => do
      keepReply w runId p.step p.agent reply
      takeResults w runId results
    | .failed e => failStep w runId p.step
        ("FanOut step '" ++ p.step.name ++ "' failed: " ++ e)
    | .timedOut => failStep w runId p.step
        ("FanOut step '" ++ p.step.name ++ "' timed out after " ++
          toString p.step.timeoutSecs ++ "s")

/-- `StepMode::FanOut`, for a group. -/
def runFanOut (w : World α) (runId : ι) (group : List WorkflowStep) : Run ι α Unit := do
  let prepared ← prepare w group
  let results ← joinAll w prepared
  takeResults w runId results

/-! ### Runs -/

def WorkflowStep.isFanOut (step : WorkflowStep) : Bool := step.mode = .fanOut

/-- The steps of a run, one after another, but for a group of `FanOut` steps. -/
def executeSteps (w : World α) (runId : ι) : List WorkflowStep → Run ι α Unit
  | [] => pure ()
  | step :: steps =>
    match step.mode with
    | .sequential => do
      runSequential w runId step
      executeSteps w runId steps
    | .fanOut => do
      runFanOut w runId (step :: steps.takeWhile WorkflowStep.isFanOut)
      executeSteps w runId (steps.dropWhile WorkflowStep.isFanOut)
    | .collect => do
      runCollect step
      executeSteps w runId steps
    | .conditional condition => do
      runConditional w runId step condition
      executeSteps w runId steps
    | .loop maxIterations untilText => do
      runLoop w runId step maxIterations untilText
      executeSteps w runId steps
termination_by steps => steps.length
decreasing_by
  · simp
  · exact Nat.lt_succ_of_le (List.length_dropWhile_le _ _)
  · simp
  · simp
  · simp

/-- `execute_run_inner`. -/
def executeRunInner (w : World α) (runId : ι) : Run ι α String := do
  let t ← get
  match Table.lookup WorkflowRun.id runId t.engine.runs with
  | none => throw .runNotFound
  | some run =>
    modifyRun runId fun r => { r with state := .running }
    match Table.lookup Workflow.id run.workflowId t.engine.workflows with
    | none => throw .definitionNotFound
    | some workflow =>
      setInput run.input
      executeSteps w runId workflow.steps
      let t ← get
      modifyRun runId fun r => { r with
        state := .completed
        output := some t.currentInput
        completedAt := some (w.now t.calls.length) }
      pure t.currentInput

/-- A run that is not over fails. -/
def WorkflowRun.failedWith (r : WorkflowRun ι) (message : String) (now : ℤ) : WorkflowRun ι :=
  match r.state with
  | .running | .pending => { r with
      state := .failed, error := r.error.or (some message), completedAt := some now }
  | _ => r

/-- `execute_run`. -/
def executeRun (w : World α) (runId : ι) : Run ι α String :=
  tryCatch (executeRunInner w runId) fun e => do
    let t ← get
    modifyRun runId fun r => r.failedWith e.text (w.now t.calls.length)
    throw e

/-- A run of the engine, and what it leaves behind. -/
def execute (w : World α) (engine : WorkflowEngine ι) (runId : ι) :
    Except RunError String × Execution ι α :=
  run (executeRun w runId) { engine }

end Workflows
end RustyHand
