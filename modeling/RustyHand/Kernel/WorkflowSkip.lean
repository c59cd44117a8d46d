import RustyHand.Kernel.WorkflowErrors

/-!
# Skipped steps of a workflow

What a run keeps of a step that it skips: one whose agent fails under `ErrorMode::Skip`, or whose
condition does not hold.

* `takeStep`: a step that is not of a `FanOut` group, and `Taken`: a step of either kind, with its
  calls and the states before it and after it;
* `Takes`: a step that a run takes;
* `Skipped`, `Unchanged`;
* `unchanged_iff_not_loop`: a skipped step leaves the input, the variables and the outputs as they
  are, if and only if it is not a loop.
-/

namespace RustyHand
namespace Workflows

open Effects

variable {ι α : Type} [DecidableEq ι]

/-! ### The steps that a run takes -/

/-- A step by its mode; a step of a `FanOut` group as a group of its own. -/
def takeStep (w : World α) (runId : ι) (step : WorkflowStep) : Run ι α Unit :=
  match step.mode with
  | .sequential => runSequential w runId step
  | .fanOut => runFanOut w runId [step]
  | .collect => runCollect step
  | .conditional condition => runConditional w runId step condition
  | .loop maxIterations untilText => runLoop w runId step maxIterations untilText

/-- A step is taken: `calls` are the calls of its agent, `t` is the state before it and `t'` the one
after it.  The agents of a group have been called before the first of its steps is taken. -/
inductive Taken (w : World α) (runId : ι) :
    WorkflowStep → List (Call α) → Execution ι α → Execution ι α → Prop
  | single {step : WorkflowStep} {calls : List (Call α)} {t : Execution ι α}
      (hmode : step.mode ≠ .fanOut)
      (hcalls : (run (takeStep w runId step) t).2.calls = t.calls ++ calls) :
      Taken w runId step calls t (run (takeStep w runId step) t).2
  | member {p : Prepared α} (hmode : p.step.mode = .fanOut) (answer : Answer) (t : Execution ι α) :
      Taken w runId p.step [callOf (p, answer)] t (run (takeResults w runId [(p, answer)]) t).2

/-- A step that the run of some steps takes, from a state on. -/
inductive Takes (w : World α) (runId : ι) : List WorkflowStep → Execution ι α →
    WorkflowStep → List (Call α) → Execution ι α → Execution ι α → Prop
  | here {step : WorkflowStep} {steps : List WorkflowStep} {calls : List (Call α)}
      {t t' : Execution ι α} (hmode : step.mode ≠ .fanOut) (h : Taken w runId step calls t t') :
      Takes w runId (step :: steps) t step calls t t'
  | later {step other : WorkflowStep} {steps : List WorkflowStep} {calls : List (Call α)}
      {t t₁ t₂ t' : Execution ι α} (hmode : step.mode ≠ .fanOut)
      (hrun : run (takeStep w runId step) t = (.ok (), t₁))
      (h : Takes w runId steps t₁ other calls t₂ t') :
      Takes w runId (step :: steps) t other calls t₂ t'
  | inGroup {step : WorkflowStep} {steps : List WorkflowStep} {t t₁ t₂ t₃ t' : Execution ι α}
      {prepared : List (Prepared α)} {before after : List (Prepared α × Answer)} {p : Prepared α}
      {answer : Answer} (hmode : step.mode = .fanOut)
      (hprepare : run (prepare w (step :: steps.takeWhile WorkflowStep.isFanOut)) t =
        (.ok prepared, t₁))
      (hjoin : run (joinAll w prepared) t₁ = (.ok (before ++ (p, answer) :: after), t₂))
      (hbefore : run (takeResults w runId before) t₂ = (.ok (), t₃))
      (h : Taken w runId p.step [callOf (p, answer)] t₃ t') :
      Takes w runId (step :: steps) t p.step [callOf (p, answer)] t₃ t'
  | behindGroup {step other : WorkflowStep} {steps : List WorkflowStep} {calls : List (Call α)}
      {t t₁ t₂ t' : Execution ι α} (hmode : step.mode = .fanOut)
      (hrun : run (runFanOut w runId (step :: steps.takeWhile WorkflowStep.isFanOut)) t =
        (.ok (), t₁))
      (h : Takes w runId (steps.dropWhile WorkflowStep.isFanOut) t₁ other calls t₂ t') :
      Takes w runId (step :: steps) t other calls t₂ t'

/-- The step is skipped: its agent has failed under `ErrorMode::Skip`, or its condition does not
hold. -/
def Skipped (w : World α) (step : WorkflowStep) (calls : List (Call α)) (t : Execution ι α) :
    Prop :=
  (step.errorMode = .skip ∧ ∃ c ∈ calls, c.answer.isFailure = true) ∨
    ∃ condition, step.mode = .conditional condition ∧
      Text.containsText (w.toLowercase t.currentInput) (w.toLowercase condition) = false

/-- The current input, the variables, and what is gathered for `Collect`. -/
structure Unchanged (t t' : Execution ι α) : Prop where
  currentInput : t'.currentInput = t.currentInput
  vars : t'.vars = t.vars
  allOutputs : t'.allOutputs = t.allOutputs

def WorkflowStep.isLoop (step : WorkflowStep) : Bool :=
  match step.mode with
  | .loop _ _ => true
  | _ => false

/-! ### A run takes its steps one after another -/

section Steps

variable {w : World α} {runId : ι} {step : WorkflowStep}

end Steps

/-! ### What a step leaves that is skipped -/

section Skip

variable {w : World α} {runId : ι} {step : WorkflowStep} {calls : List (Call α)}
  {t t' : Execution ι α}

omit [DecidableEq ι] in
theorem Unchanged.refl (t : Execution ι α) : Unchanged t t := ⟨rfl, rfl, rfl⟩

omit [DecidableEq ι] in
theorem run_executeStep_of_skip (hskip : step.errorMode = .skip) (agent : α) (prompt : String)
    (t : Execution ι α) :
    ∃ answer, run (executeStepWithErrorMode w step agent prompt) t =
      (.ok (match answer with
        | .reply reply => .ok (some reply)
        | .failed _ => .ok none
        | .timedOut => .ok none),
        { t with calls := t.calls ++ [⟨step, 0, agent, prompt, answer⟩] }) := by
  refine ⟨w.send t.calls.length agent prompt, ?_⟩
  unfold executeStepWithErrorMode
  rw [hskip]
  simp only [sendMessage, run_modifyGet_bind]
  cases w.send t.calls.length agent prompt <;> rfl

omit [DecidableEq ι] in
/-- Without an agent there is no call. -/
theorem run_resolveAgent_cases (w : World α) (step : WorkflowStep) (t : Execution ι α) :
    (∃ agent, run (resolveAgent w step) t = (.ok agent, t)) ∨
      run (resolveAgent w step) t = (.error (.agentNotFound step), t) := by
  unfold resolveAgent
  cases w.resolve step.agent with
  | none => exact .inr rfl
  | some agent => exact .inl ⟨agent, rfl⟩

/-- A step whose only call has failed is left behind. -/
theorem unchanged_runSequential (hskip : step.errorMode = .skip)
    (hcalls : (run (runSequential w runId step) t).2.calls = t.calls ++ calls)
    (hfailed : ∃ c ∈ calls, c.answer.isFailure = true) :
    Unchanged t (run (runSequential w runId step) t).2 := by
  unfold runSequential at hcalls ⊢
  rcases run_resolveAgent_cases w step t with ⟨agent, hagent⟩ | hnone
  · obtain ⟨answer, hanswer⟩ :=
      run_executeStep_of_skip (w := w) hskip agent.1 (promptOf step t) t
    rw [run_bind_of_ok hagent, run_get_bind, run_bind_of_ok hanswer] at hcalls ⊢
    cases answer with
    | reply reply =>
      -- an agent that has answered has not failed
      obtain ⟨c, hc, hfailure⟩ := hfailed
      have hsilent : Silent (keepReply w runId step agent reply : Run ι α Unit) :=
        silent_keepReply agent reply
      obtain ⟨_, t', hkeep, hkept⟩ := hsilent { t with
        calls := t.calls ++ [⟨step, 0, agent.1, promptOf step t, .reply reply⟩] }
      dsimp only at hcalls
      rw [hkeep, hkept] at hcalls
      rw [← List.append_cancel_left hcalls, List.mem_singleton] at hc
      rw [hc] at hfailure
      cases hfailure
    | failed e => exact ⟨rfl, rfl, rfl⟩
    | timedOut => exact ⟨rfl, rfl, rfl⟩
  · rw [run_bind_of_error hnone]
    exact Unchanged.refl t

/-- The rounds of a loop that skips errors end without an error, and gather nothing. -/
theorem run_iterate_of_skip (hskip : step.errorMode = .skip) (agent : α × String)
    (maxIterations : ℕ) (untilLower : String) (left : ℕ) (t : Execution ι α) :
    ∃ t', run (iterate w runId step agent maxIterations untilLower left) t = (.ok (), t') ∧
      t'.allOutputs = t.allOutputs := by
  induction left generalizing t with
  | zero => exact ⟨t, rfl, rfl⟩
  | succ left ih =>
    obtain ⟨answer, hanswer⟩ :=
      run_executeStep_of_skip (w := w) hskip agent.1 (promptOf step t) t
    rw [iterate, run_get_bind, run_bind_of_ok hanswer]
    cases answer with
    | failed e => exact ⟨_, rfl, rfl⟩
    | timedOut => exact ⟨_, rfl, rfl⟩
    | reply reply =>
      simp only [pushResult, modifyRun, setInput, run_modify_bind]
      split
      · exact ⟨_, rfl, rfl⟩
      · exact ih _

/-- A loop that skips errors puts the input among the outputs, though its agent has failed. -/
theorem not_unchanged_runLoop (maxIterations : ℕ) (untilText : String)
    (hskip : step.errorMode = .skip)
    (hcalls : (run (runLoop w runId step maxIterations untilText) t).2.calls = t.calls ++ calls)
    (hfailed : ∃ c ∈ calls, c.answer.isFailure = true) :
    ¬ Unchanged t (run (runLoop w runId step maxIterations untilText) t).2 := by
  unfold runLoop at hcalls ⊢
  rcases run_resolveAgent_cases w step t with ⟨agent, hagent⟩ | hnone
  · obtain ⟨t₁, hiterate, houtputs⟩ : ∃ t₁, run (iterate w runId step agent maxIterations
        (w.toLowercase untilText) maxIterations) t = (.ok (), t₁) ∧
          t₁.allOutputs = t.allOutputs := run_iterate_of_skip hskip agent _ _ _ t
    rw [run_bind_of_ok hagent, run_bind_of_ok hiterate, run_get_bind]
    intro h
    have hlength := congrArg List.length h.allOutputs
    cases hvar : step.outputVar with
    | none =>
      rw [hvar] at hlength
      simp [setVar, pushOutput, houtputs] at hlength
    | some name =>
      rw [hvar] at hlength
      simp [setVar, pushOutput, houtputs] at hlength
  · -- no agent, no call
    rw [run_bind_of_error hnone] at hcalls
    obtain ⟨c, hc, -⟩ := hfailed
    rw [List.append_right_eq_self.1 hcalls.symm] at hc
    cases hc

omit [DecidableEq ι] in
/-- But for its condition, a step is skipped because its agent has failed. -/
theorem Skipped.failed (h : Skipped w step calls t)
    (hmode : ∀ condition, step.mode ≠ .conditional condition) :
    step.errorMode = .skip ∧ ∃ c ∈ calls, c.answer.isFailure = true := by
  rcases h with hfailed | ⟨condition, hcondition, -⟩
  · exact hfailed
  · exact absurd hcondition (hmode condition)

theorem unchanged_runConditional {condition : String} (hmode : step.mode = .conditional condition)
    (hcalls : (run (runConditional w runId step condition) t).2.calls = t.calls ++ calls)
    (hskipped : Skipped w step calls t) :
    Unchanged t (run (runConditional w runId step condition) t).2 := by
  unfold runConditional at hcalls ⊢
  rw [run_get_bind] at hcalls ⊢
  by_cases hholds : Text.containsText (w.toLowercase t.currentInput) (w.toLowercase condition)
  · rw [if_pos hholds] at hcalls ⊢
    rcases hskipped with ⟨hskip, hfailed⟩ | ⟨condition', hcondition, hnot⟩
    · exact unchanged_runSequential hskip hcalls hfailed
    · obtain rfl := StepMode.conditional.inj (hmode.symm.trans hcondition)
      rw [hholds] at hnot
      cases hnot
  · rw [if_neg hholds]
    exact Unchanged.refl t

/-- A skipped step of a group has failed, and the run fails with it. -/
theorem unchanged_member {p : Prepared α} {answer : Answer} (hfailed : answer.isFailure = true)
    (t : Execution ι α) : Unchanged t (run (takeResults w runId [(p, answer)]) t).2 := by
  cases answer with
  | reply reply => cases hfailed
  | failed e => exact ⟨rfl, rfl, rfl⟩
  | timedOut => exact ⟨rfl, rfl, rfl⟩

/-- A step that is skipped, taken from any state. -/
theorem Taken.unchanged_iff (htaken : Taken w runId step calls t t')
    (hskipped : Skipped w step calls t) : Unchanged t t' ↔ step.isLoop = false := by
  cases htaken with
  | @member p hmode answer t =>
    refine iff_of_true ?_ (by rw [WorkflowStep.isLoop, hmode])
    obtain ⟨-, c, hc, hfailed⟩ := hskipped.failed (by simp [hmode])
    rw [List.mem_singleton.1 hc] at hfailed
    exact unchanged_member hfailed t
  | single hmode hcalls =>
    unfold takeStep at hcalls ⊢
    cases hstep : step.mode with
    | fanOut => exact absurd hstep hmode
    | sequential =>
      rw [hstep] at hcalls
      refine iff_of_true ?_ (by rw [WorkflowStep.isLoop, hstep])
      obtain ⟨hskip, hfailed⟩ := hskipped.failed (by simp [hstep])
      exact unchanged_runSequential hskip hcalls hfailed
    | collect =>
      rw [hstep] at hcalls
      -- nothing is called that could fail
      obtain ⟨-, c, hc, -⟩ := hskipped.failed (by simp [hstep])
      have hsilent : Silent (runCollect step : Run ι α Unit) := silent_runCollect
      obtain ⟨_, _, hrun, hkept⟩ := hsilent t
      dsimp only at hcalls
      rw [hrun, hkept] at hcalls
      rw [List.append_right_eq_self.1 hcalls.symm] at hc
      cases hc
    | conditional condition =>
      rw [hstep] at hcalls
      refine iff_of_true ?_ (by rw [WorkflowStep.isLoop, hstep])
      exact unchanged_runConditional hstep hcalls hskipped
    | loop maxIterations untilText =>
      rw [hstep] at hcalls
      refine iff_of_false ?_ (by simp [WorkflowStep.isLoop, hstep])
      obtain ⟨hskip, hfailed⟩ := hskipped.failed (by simp [hstep])
      exact not_unchanged_runLoop maxIterations untilText hskip hcalls hfailed

theorem Takes.taken {steps : List WorkflowStep} {t₀ : Execution ι α}
    (h : Takes w runId steps t₀ step calls t t') : Taken w runId step calls t t' := by
  induction h with
  | here hmode h => exact h
  | later hmode hrun h ih => exact ih
  | inGroup hmode hprepare hjoin hbefore h => exact h
  | behindGroup hmode hrun h ih => exact ih

end Skip

/-- **A step that a run skips** leaves the input, the variables and the outputs as they are, if and
only if it is not a loop. -/
theorem unchanged_iff_not_loop {w : World α} {runId : ι} {steps : List WorkflowStep}
    {t₀ t t' : Execution ι α} {step : WorkflowStep} {calls : List (Call α)}
    (h : Takes w runId steps t₀ step calls t t') (hskipped : Skipped w step calls t) :
    Unchanged t t' ↔ step.isLoop = false := h.taken.unchanged_iff hskipped

/-! ### A step that is skipped, and a loop -/

/-- A step that is asked for once. -/
def optionalStep : WorkflowStep where
  name := "translate"
  agent := .byName "agent"
  promptTemplate := "go on"
  mode := .sequential
  errorMode := .skip

/-- The same as a loop. -/
def optionalLoop : WorkflowStep := { optionalStep with mode := .loop 3 "DONE" }

/-- A run in the middle. -/
def midway : Execution ℕ ℕ where
  engine := {}
  currentInput := "a text"
  allOutputs := ["a text"]

theorem unchanged_iff_not_loop_once :
    Unchanged midway (run (takeStep (failingAt 0) 0 optionalStep) midway).2 ↔
      optionalStep.isLoop = false := by
  have htakes : Takes (failingAt 0) 0 [optionalStep] midway optionalStep
      [⟨optionalStep, 0, 0, promptOf optionalStep midway, .failed "unavailable"⟩] midway
      (run (takeStep (failingAt 0) 0 optionalStep) midway).2 := by
    exact .here (by decide) (.single (by decide) rfl)
  exact unchanged_iff_not_loop htakes (.inl ⟨rfl, _, List.mem_singleton_self _, rfl⟩)

/-- The agent of the loop fails at the first call, and the input is put among the outputs. -/
theorem optionalLoop_not_unchanged :
    ¬ ∀ (w : World ℕ) (runId : ℕ) (steps : List WorkflowStep) (t₀ : Execution ℕ ℕ)
      (step : WorkflowStep) (calls : List (Call ℕ)) (t t' : Execution ℕ ℕ),
      Takes w runId steps t₀ step calls t t' → Skipped w step calls t → Unchanged t t' := by
  intro hall
  have htakes : Takes (failingAt 0) 0 [optionalLoop] midway optionalLoop
      [⟨optionalLoop, 0, 0, promptOf optionalLoop midway, .failed "unavailable"⟩] midway
      (run (takeStep (failingAt 0) 0 optionalLoop) midway).2 := by
    exact .here (by decide) (.single (by decide) rfl)
  have h := hall _ _ _ _ _ _ _ _ htakes (.inl ⟨rfl, _, List.mem_singleton_self _, rfl⟩)
  have houtputs : (run (takeStep (failingAt 0) 0 optionalLoop) midway).2.allOutputs =
      ["a text", "a text"] := rfl
  rw [h.allOutputs] at houtputs
  cases houtputs

end Workflows
end RustyHand
