import RustyHand.Kernel.WorkflowAwaits

/-!
# The parts of a workflow run

A run is put together from few pieces: calls of agents, results that are written, and what its
future does to what is its own.  What holds of the pieces, and of one part behind another, holds of
all steps of a run.

* `Closed`: the rules of such a property;
* `Closed.executeSteps`: the steps of a run have it.
-/

namespace RustyHand
namespace WorkflowParts

open Workflows (Answer Execution Prepared Reply RunError StepResult WorkflowRun WorkflowStep World)
open Awaits WorkflowAwaits

variable {ι α : Type} [DecidableEq ι]

/-- A property that the pieces of a run have, and one part behind another. -/
structure Closed (w : World α) (runId : ι) (P : ∀ β : Type, Part ι α β → Prop) : Prop where
  pure : ∀ {β : Type} (v : β), P β (pure v)
  bind : ∀ {β γ : Type} {x : Part ι α β} {f : β → Part ι α γ},
    P β x → (∀ v, P γ (f v)) → P γ (x >>= f)
  look : P _ look
  /-- What the future does to what is its own. -/
  update : ∀ u : Execution ι α → Execution ι α, (∀ t, (u t).engine = t.engine) → P _ (update u)
  pushResult : ∀ result, P _ (pushResult runId result)
  noAgent : ∀ step, P (α × String) (throw (.agentNotFound step))
  fails : ∀ step message, P Unit (failStep w runId step message)
  sendMessage : ∀ step attempt agent prompt, P _ (sendMessage w step attempt agent prompt)

namespace Closed

variable {w : World α} {runId : ι} {P : ∀ β : Type, Part ι α β → Prop} (h : Closed w runId P)
  {step : WorkflowStep}
include h

protected theorem setVar (name : Option String) (value : String) : P _ (setVar name value) := by
  cases name with
  | none => exact h.pure ()
  | some name => exact h.update _ fun _ => rfl

protected theorem setInput (input : String) : P _ (setInput input) := h.update _ fun _ => rfl

protected theorem pushOutput (output : String) : P _ (pushOutput output) := h.update _ fun _ => rfl

protected theorem resolveAgent : P _ (resolveAgent w step) := by
  unfold resolveAgent
  cases w.resolve step.agent with
  | none => exact h.noAgent step
  | some agent => exact h.pure agent

protected theorem attempts (agent : α) (prompt : String) (maxRetries left : ℕ)
    (lastErr : String) : P _ (attempts w step agent prompt maxRetries left lastErr) := by
  induction left generalizing lastErr with
  | zero => exact h.pure _
  | succ left ih =>
    refine h.bind (h.sendMessage _ _ _ _) fun answer => ?_
    cases answer with
    | reply reply => exact h.pure _
    | failed e => exact ih e
    | timedOut => exact ih _

protected theorem executeStep (agent : α) (prompt : String) :
    P _ (executeStepWithErrorMode w step agent prompt) := by
  unfold executeStepWithErrorMode
  cases step.errorMode with
  | fail =>
    refine h.bind (h.sendMessage _ _ _ _) fun answer => ?_
    cases answer <;> exact h.pure _
  | skip =>
    refine h.bind (h.sendMessage _ _ _ _) fun answer => ?_
    cases answer <;> exact h.pure _
  | retry maxRetries => exact h.attempts _ _ _ _ _

protected theorem keepReply (agent : α × String) (reply : Reply) :
    P _ (keepReply w runId step agent reply) := by
  refine h.bind (h.pushResult _) fun _ => ?_
  refine h.bind (h.setVar _ _) fun _ => ?_
  exact h.bind (h.pushOutput _) fun _ => h.setInput _

/-- What is made of the outcome of a step. -/
protected theorem outcome {k : Reply → Part ι α Unit} (hk : ∀ reply, P _ (k reply))
    (r : Except String (Option Reply)) :
    P Unit (match r with
      | .ok (some reply) => k reply
      | .ok none => Pure.pure ()
      | .error e => failStep w runId step e) := by
  match r with
  | .ok (some reply) => exact hk reply
  | .ok none => exact h.pure ()
  | .error e => exact h.fails step e

protected theorem runSequential : P _ (runSequential w runId step) := by
  refine h.bind h.resolveAgent fun agent => ?_
  refine h.bind h.look fun t => ?_
  refine h.bind (h.executeStep _ _) fun r => ?_
  exact h.outcome (fun reply => h.keepReply agent reply) r

protected theorem runConditional (condition : String) :
    P _ (runConditional w runId step condition) := by
  refine h.bind h.look fun t => ?_
  split
  · exact h.runSequential
  · exact h.pure ()

protected theorem runCollect : P _ (runCollect step) := by
  refine h.bind h.look fun t => ?_
  refine h.bind (h.setInput _) fun _ => ?_
  exact h.bind (h.update _ fun _ => rfl) fun _ => h.setVar _ _

protected theorem iterate (agent : α × String) (maxIterations : ℕ) (untilLower : String)
    (left : ℕ) : P _ (iterate w runId step agent maxIterations untilLower left) := by
  induction left with
  | zero => exact h.pure ()
  | succ left ih =>
    refine h.bind h.look fun t => ?_
    refine h.bind (h.executeStep _ _) fun r => h.outcome (fun reply => ?_) r
    refine h.bind (h.pushResult _) fun _ => ?_
    refine h.bind (h.setInput _) fun _ => ?_
    split
    · exact h.pure ()
    · exact ih

protected theorem runLoop (maxIterations : ℕ) (untilText : String) :
    P _ (runLoop w runId step maxIterations untilText) := by
  refine h.bind h.resolveAgent fun agent => ?_
  refine h.bind (h.iterate _ _ _ _) fun _ => ?_
  refine h.bind h.look fun t => ?_
  exact h.bind (h.setVar _ _) fun _ => h.pushOutput _

protected theorem prepare (steps : List WorkflowStep) : P _ (prepare w steps) := by
  induction steps with
  | nil => exact h.pure []
  | cons step steps ih =>
    refine h.bind h.resolveAgent fun agent => ?_
    refine h.bind h.look fun t => ?_
    exact h.bind ih fun rest => h.pure _

protected theorem joinAll (prepared : List (Prepared α)) : P _ (joinAll w prepared) := by
  induction prepared with
  | nil => exact h.pure []
  | cons p ps ih =>
    refine h.bind (h.sendMessage _ _ _ _) fun answer => ?_
    exact h.bind ih fun rest => h.pure _

protected theorem takeResults (results : List (Prepared α × Answer)) :
    P _ (takeResults w runId results) := by
  induction results with
  | nil => exact h.pure ()
  | cons r results ih =>
    obtain ⟨p, answer⟩ := r
    cases answer with
    | reply reply => exact h.bind (h.keepReply _ _) fun _ => ih
    | failed e => exact h.fails p.step _
    | timedOut => exact h.fails p.step _

protected theorem runFanOut (group : List WorkflowStep) : P _ (runFanOut w runId group) := by
  refine h.bind (h.prepare _) fun prepared => ?_
  exact h.bind (h.joinAll _) fun results => h.takeResults results

/-- The steps of a run, whatever they are. -/
protected theorem executeSteps (steps : List WorkflowStep) :
    P _ (executeSteps w runId steps) := by
  induction steps using Workflows.executeSteps.induct with
  | case1 =>
    rw [executeSteps]
    exact h.pure ()
  | case2 step steps hmode ih =>
    rw [executeSteps, hmode]
    exact h.bind h.runSequential fun _ => ih
  | case3 step steps hmode ih =>
    rw [executeSteps, hmode]
    exact h.bind (h.runFanOut _) fun _ => ih
  | case4 step steps hmode ih =>
    rw [executeSteps, hmode]
    exact h.bind h.runCollect fun _ => ih
  | case5 step steps condition hmode ih =>
    rw [executeSteps, hmode]
    exact h.bind (h.runConditional _) fun _ => ih
  | case6 step steps maxIterations untilText hmode ih =>
    rw [executeSteps, hmode]
    exact h.bind (h.runLoop _ _) fun _ => ih

end Closed

end WorkflowParts
end RustyHand
