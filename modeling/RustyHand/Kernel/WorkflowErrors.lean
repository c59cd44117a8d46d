import RustyHand.Kernel.Workflow

/-!
# Error modes of a workflow

What a run makes of agents that fail, by the error modes of its steps.

* `KeepsErrorModes`: a run whose steps skip errors does not fail with an agent, and a step that
  retries is attempted again as often as it says;
* `PlainFanOut`: no step of a `FanOut` group counts on its error mode;
* `executeSteps_ensures`: then every run keeps the error modes;
* `exists_fails`: else there is one that does not;
* `keepsErrorModes_iff`.
-/

namespace RustyHand
namespace Workflows

open Effects

variable {ι α : Type}

/-- The agent has not answered. -/
def Answer.isFailure : Answer → Bool
  | reply _ => false
  | failed _ => true
  | timedOut => true

/-- The agent of a step was called once, and again as often as the step says, one call after
another, and has failed each time. -/
def Retried (calls : List (Call α)) (step : WorkflowStep) (maxRetries : ℕ) : Prop :=
  ∃ tries, tries <:+: calls ∧ tries.map Call.attempt = List.range (maxRetries + 1) ∧
    ∀ c ∈ tries, c.step = step ∧ c.answer.isFailure = true

/-- A run whose steps all skip errors does not fail because an agent has failed, and no run fails
with a step that retries before its agent has been called as often as it says. -/
structure KeepsErrorModes (steps : List WorkflowStep) (result : Except RunError String)
    (calls : List (Call α)) : Prop where
  skipped : (∀ step ∈ steps, step.errorMode = .skip) →
    ∀ step message, result ≠ .error (.stepFailed step message)
  retried : ∀ step message maxRetries, result = .error (.stepFailed step message) →
    step.errorMode = .retry maxRetries → Retried calls step maxRetries

/-- No step of a `FanOut` group retries, and if there is such a group, not all steps skip errors. -/
def PlainFanOut (steps : List WorkflowStep) : Prop :=
  ∀ step ∈ steps, step.mode = .fanOut →
    (∃ other ∈ steps, other.errorMode ≠ .skip) ∧ ∀ n, step.errorMode ≠ .retry (n + 1)

/-! ### Computations that call no agent -/

/-- The computation returns, and calls no agent. -/
def Silent {β : Type} (x : Run ι α β) : Prop :=
  ∀ t, ∃ v t', run x t = (.ok v, t') ∧ t'.calls = t.calls

theorem silent_pure {β : Type} (v : β) : Silent (pure v : Run ι α β) := fun t => ⟨v, t, rfl, rfl⟩

theorem silent_modify (f : Execution ι α → Execution ι α) (hf : ∀ t, (f t).calls = t.calls) :
    Silent (modify f : Run ι α Unit) := fun t => ⟨(), f t, rfl, hf t⟩

theorem Silent.get_bind {β : Type} {f : Execution ι α → Run ι α β} (hf : ∀ t, Silent (f t)) :
    Silent (get >>= f) := fun t => hf t t

theorem Silent.bind {β γ : Type} {x : Run ι α β} {f : β → Run ι α γ} (hx : Silent x)
    (hf : ∀ v, Silent (f v)) : Silent (x >>= f) := by
  intro t
  obtain ⟨v, t', hrun, hcalls⟩ := hx t
  obtain ⟨v', t'', hrun', hcalls'⟩ := hf v t'
  exact ⟨v', t'', (run_bind_of_ok hrun).trans hrun', hcalls'.trans hcalls⟩

/-- What is known of the calls stays known. -/
theorem Silent.ensures {β : Type} {x : Run ι α β} (hx : Silent x) (P : List (Call α) → Prop)
    (E : RunError → Execution ι α → Prop) :
    Ensures (fun t => P t.calls) x (fun _ t => P t.calls) E where
  ok := by
    intro t v t' hP hrun
    obtain ⟨v', t'', hrun', hcalls⟩ := hx t
    rw [hrun'] at hrun
    obtain ⟨-, rfl⟩ : v' = v ∧ t'' = t' := by simpa using hrun
    rw [hcalls]
    exact hP
  error := by
    intro t e t' hP hrun
    obtain ⟨v', t'', hrun', -⟩ := hx t
    rw [hrun'] at hrun
    simp at hrun

/-! ### Computations whose calls are answered -/

/-- Agents of which one call fails. -/
def failingAt [Inhabited α] (n : ℕ) : World α where
  toLowercase s := s
  showId _ := ""
  resolve _ := some (default, "agent")
  send m _ _ := if m = n then .failed "unavailable" else .reply ⟨"done", 0, 0⟩
  now _ := 0

/-- The computation returns what `Q` says, if none of its calls is the one that fails. -/
def Smooth {β : Type} (Q : β → Prop) (x : ℕ → Run ι α β) : Prop :=
  ∀ t, ∃ v t', Q v ∧ t.calls.length ≤ t'.calls.length ∧
    (t'.calls.countP fun c => c.answer.isFailure) = (t.calls.countP fun c => c.answer.isFailure) ∧
    ∀ n, t'.calls.length ≤ n → run (x n) t = (.ok v, t')

theorem Smooth.bind {β γ : Type} {Q : β → Prop} {R : γ → Prop} {x : ℕ → Run ι α β}
    {f : ℕ → β → Run ι α γ} (hx : Smooth Q x) (hf : ∀ v, Q v → Smooth R fun n => f n v) :
    Smooth R fun n => x n >>= f n := by
  intro t
  obtain ⟨v, t', hQ, hle, hcount, hrun⟩ := hx t
  obtain ⟨v', t'', hR, hle', hcount', hrun'⟩ := hf v hQ t'
  exact ⟨v', t'', hR, hle.trans hle', hcount'.trans hcount, fun n hn =>
    (run_bind_of_ok (hrun n (hle'.trans hn))).trans (hrun' n hn)⟩

theorem Silent.smooth {β : Type} {x : Run ι α β} (hx : Silent x) :
    Smooth (fun _ => True) fun _ => x := by
  intro t
  obtain ⟨v, t', hrun, hcalls⟩ := hx t
  exact ⟨v, t', trivial, by rw [hcalls], by rw [hcalls], fun _ _ => hrun⟩

theorem smooth_pure {β : Type} {Q : β → Prop} {v : β} (hv : Q v) :
    Smooth Q fun _ => (pure v : Run ι α β) := fun t => ⟨v, t, hv, le_rfl, rfl, fun _ _ => rfl⟩

theorem Smooth.ite {β : Type} {Q : β → Prop} {x y : ℕ → Run ι α β} {c : Prop} [Decidable c]
    (hx : Smooth Q x) (hy : Smooth Q y) : Smooth Q fun n => if c then x n else y n := by
  split
  · exact hx
  · exact hy

theorem Smooth.get_bind {β : Type} {Q : β → Prop} {f : ℕ → Execution ι α → Run ι α β}
    (hf : ∀ t, Smooth Q fun n => f n t) : Smooth Q fun n => get >>= f n := fun t => hf t t

variable [DecidableEq ι] {w : World α} {runId : ι} {step : WorkflowStep} {steps : List WorkflowStep}

theorem silent_modifyRun (f : WorkflowRun ι → WorkflowRun ι) :
    Silent (modifyRun runId f : Run ι α Unit) := silent_modify _ fun _ => rfl

omit [DecidableEq ι] in
theorem silent_setVar (name : Option String) (value : String) :
    Silent (setVar name value : Run ι α Unit) := by
  cases name with
  | none => exact silent_pure _
  | some name => exact silent_modify _ fun _ => rfl

omit [DecidableEq ι] in
theorem silent_setInput (input : String) : Silent (setInput input : Run ι α Unit) :=
  silent_modify _ fun _ => rfl

omit [DecidableEq ι] in
theorem silent_pushOutput (output : String) : Silent (pushOutput output : Run ι α Unit) :=
  silent_modify _ fun _ => rfl

theorem silent_pushResult (result : StepResult) : Silent (pushResult runId result : Run ι α Unit) :=
  silent_modifyRun _

theorem silent_keepReply (agent : α × String) (reply : Reply) :
    Silent (keepReply w runId step agent reply : Run ι α Unit) :=
  (silent_pushResult _).bind fun _ => (silent_setVar _ _).bind fun _ =>
    (silent_pushOutput _).bind fun _ => silent_setInput _

omit [DecidableEq ι] in
theorem silent_runCollect : Silent (runCollect step : Run ι α Unit) := by
  refine Silent.get_bind fun t => (silent_setInput _).bind fun _ => ?_
  refine Silent.bind (silent_modify _ ?_) fun _ => silent_setVar _ _
  exact fun _ => rfl

/-! ### A step that fails -/

/-- A run fails with an agent only at a step that does not skip errors, and after all attempts. -/
def FailsBy (steps : List WorkflowStep) (e : RunError) (t : Execution ι α) : Prop :=
  ∀ step message, e = .stepFailed step message →
    (∃ other ∈ steps, other.errorMode ≠ .skip) ∧
      ∀ maxRetries, step.errorMode = .retry maxRetries → Retried t.calls step maxRetries

/-- What a step may fail with. -/
def MayFail (step : WorkflowStep) (calls : List (Call α)) : Prop :=
  step.errorMode ≠ .skip ∧
    ∀ maxRetries, step.errorMode = .retry maxRetries → Retried calls step maxRetries

theorem failStep_ensures {β : Type} (message : String)
    (hmem : ∃ other ∈ steps, other.errorMode ≠ .skip) :
    Ensures (fun t => ∀ maxRetries, step.errorMode = .retry maxRetries →
        Retried t.calls step maxRetries)
      (failStep w runId step message : Run ι α β) (fun _ _ => False) (FailsBy steps) := by
  constructor
  · intro t v t' hP hrun
    cases hrun
  · intro t e t' hP hrun
    obtain ⟨rfl, rfl⟩ : RunError.stepFailed step message = e ∧ _ = t' := by
      simpa [failStep, modifyRun] using hrun
    intro step' message' heq
    cases heq
    exact ⟨hmem, hP⟩

omit [DecidableEq ι] in
theorem resolveAgent_ensures (P : Execution ι α → Prop) :
    Ensures P (resolveAgent w step) (fun _ => P) (FailsBy steps) := by
  unfold resolveAgent
  split
  · exact .pure _ fun _ hP => hP
  · refine .throw _ fun _ _ step' message heq => ?_
    cases heq

omit [DecidableEq ι] in
/-- A call is one more. -/
theorem sendMessage_ensures (attempt : ℕ) (agent : α) (prompt : String)
    (P : List (Call α) → Prop) (E : RunError → Execution ι α → Prop) :
    Ensures (fun t => P t.calls) (sendMessage w step attempt agent prompt)
      (fun answer t => ∃ calls, P calls ∧ t.calls = calls ++
          [⟨step, attempt, agent, prompt, answer⟩])
      E :=
  .modifyGet _ fun t hP => ⟨t.calls, hP, rfl⟩

/-- The last calls are the first attempts of a step, and have failed. -/
def Tried (step : WorkflowStep) (n : ℕ) (calls : List (Call α)) : Prop :=
  ∃ before tries, calls = before ++ tries ∧ tries.map Call.attempt = List.range n ∧
    ∀ c ∈ tries, c.step = step ∧ c.answer.isFailure = true

theorem Tried.succ {n : ℕ} {calls : List (Call α)} (h : Tried step n calls) (agent : α)
    (prompt : String) {answer : Answer} (hanswer : answer.isFailure = true) :
    Tried step (n + 1) (calls ++ [⟨step, n, agent, prompt, answer⟩]) := by
  obtain ⟨before, tries, rfl, hrange, htries⟩ := h
  refine ⟨before, tries ++ [⟨step, n, agent, prompt, answer⟩], by simp, ?_, ?_⟩
  · rw [List.map_append, hrange, List.range_succ]
    rfl
  · intro c hc
    rcases List.mem_append.1 hc with hc | hc
    · exact htries c hc
    · rw [List.mem_singleton.1 hc]
      exact ⟨rfl, hanswer⟩

theorem Tried.retried {n : ℕ} {calls : List (Call α)} (h : Tried step (n + 1) calls) :
    Retried calls step n := by
  obtain ⟨before, tries, rfl, hrange, htries⟩ := h
  exact ⟨tries, (List.suffix_append before tries).isInfix, hrange, htries⟩

omit [DecidableEq ι] in
theorem attempts_ensures (agent : α) (prompt : String) (maxRetries left : ℕ) (lastErr : String)
    (hleft : left ≤ maxRetries + 1) :
    Ensures (fun t : Execution ι α => Tried step (maxRetries + 1 - left) t.calls)
      (attempts w step agent prompt maxRetries left lastErr)
      (fun r t => ∀ message, r = .error message → Retried t.calls step maxRetries)
      (fun _ _ => False) := by
  induction left generalizing lastErr with
  | zero => exact .pure _ fun t htried _ _ => htried.retried
  | succ left ih =>
    rw [attempts]
    refine (sendMessage_ensures (maxRetries - left) agent prompt
      (Tried step (maxRetries + 1 - (left + 1))) _).bind fun answer => ?_
    have hnext : ∀ lastErr, answer.isFailure = true → Ensures
        (fun t : Execution ι α => ∃ calls, Tried step (maxRetries + 1 - (left + 1)) calls ∧
          t.calls = calls ++ [⟨step, maxRetries - left, agent, prompt, answer⟩])
        (attempts w step agent prompt maxRetries left lastErr)
        (fun r t => ∀ message, r = .error message → Retried t.calls step maxRetries)
        (fun _ _ => False) := by
      intro lastErr hanswer
      refine (ih lastErr (by omega)).weaken ?_ (fun _ _ h => h) fun _ _ h => h
      rintro t ⟨calls, htried, hcalls⟩
      rw [hcalls, show maxRetries + 1 - left = maxRetries - left + 1 by omega]
      rw [show maxRetries + 1 - (left + 1) = maxRetries - left by omega] at htried
      exact htried.succ agent prompt hanswer
    cases answer with
    | reply reply => exact .pure _ fun _ _ message heq => by cases heq
    | failed e => exact hnext e rfl
    | timedOut => exact hnext _ rfl

omit [DecidableEq ι] in
/-- Where a step has an error, it does not skip errors, and has been attempted as often as it
says. -/
theorem executeStepWithErrorMode_ensures (agent : α) (prompt : String) :
    Ensures (fun _ : Execution ι α => True) (executeStepWithErrorMode w step agent prompt)
      (fun r t => ∀ message, r = .error message → MayFail step t.calls) (fun _ _ => False) := by
  unfold executeStepWithErrorMode
  split
  · -- `ErrorMode::Fail`
    rename_i hmode
    have hfails : ∀ calls : List (Call α), MayFail step calls :=
      fun calls => ⟨by simp [hmode], by simp [hmode]⟩
    refine (sendMessage_ensures 0 agent prompt (fun _ => True) _).bind fun answer => ?_
    cases answer with
    | reply reply => exact .pure _ fun t _ _ _ => hfails t.calls
    | failed e => exact .pure _ fun t _ _ _ => hfails t.calls
    | timedOut => exact .pure _ fun t _ _ _ => hfails t.calls
  · -- `ErrorMode::Skip`
    refine (sendMessage_ensures 0 agent prompt (fun _ => True) _).bind fun answer => ?_
    cases answer with
    | reply reply => exact .pure _ fun t _ message heq => by cases heq
    | failed e => exact .pure _ fun t _ message heq => by cases heq
    | timedOut => exact .pure _ fun t _ message heq => by cases heq
  · -- `ErrorMode::Retry`
    rename_i maxRetries hmode
    refine (attempts_ensures agent prompt maxRetries (maxRetries + 1) "" le_rfl).weaken ?_ ?_
      fun _ _ h => h
    · exact fun t _ => ⟨t.calls, [], by simp, by simp, by simp⟩
    · intro r t hretried message heq
      refine ⟨by simp [hmode], fun n hn => ?_⟩
      rw [hmode] at hn
      cases hn
      exact hretried message heq

/-! ### The modes of a step -/

/-- What a step comes to: an error that it may have, or no error. -/
theorem failStep_of_mayFail {β : Type} (message : String) (hmem : step ∈ steps) :
    Ensures (fun t => MayFail step t.calls) (failStep w runId step message : Run ι α β)
      (fun _ _ => False) (FailsBy steps) where
  ok := fun t v t' hP hrun => by cases hrun
  error := fun t e t' hP hrun =>
    (failStep_ensures message ⟨step, hmem, hP.1⟩).error t e t' hP.2 hrun

theorem outcome_ensures (hmem : step ∈ steps) (agent : α) (prompt : String)
    {k : Reply → Run ι α Unit} (hk : ∀ reply,
      Ensures (fun _ : Execution ι α => True) (k reply) (fun _ _ => True) (FailsBy steps)) :
    Ensures (fun _ : Execution ι α => True)
      (executeStepWithErrorMode w step agent prompt >>= fun r => match r with
        | .ok (some reply) => k reply
        | .ok none => pure ()
        | .error message => failStep w runId step message)
      (fun _ _ => True) (FailsBy steps) := by
  refine ((executeStepWithErrorMode_ensures agent prompt).weaken (fun _ h => h)
    (fun _ _ h => h) fun _ _ h => h.elim).bind fun r => ?_
  match r with
  | .ok none => exact .pure _ fun _ _ => trivial
  | .ok (some reply) =>
    exact (hk reply).weaken (fun _ _ => trivial) (fun _ _ h => h) fun _ _ h => h
  | .error message =>
    exact (failStep_of_mayFail message hmem).weaken (fun t h => h message rfl)
      (fun _ _ h => h.elim) fun _ _ h => h

theorem runSequential_ensures (hmem : step ∈ steps) :
    Ensures (fun _ : Execution ι α => True) (runSequential w runId step) (fun _ _ => True)
      (FailsBy steps) := by
  refine (resolveAgent_ensures _).bind fun agent => .get_bind fun t => ?_
  refine (outcome_ensures hmem agent.1 (promptOf step t) fun reply => ?_).weaken
    (fun _ _ => trivial) (fun _ _ h => h) fun _ _ h => h
  exact (silent_keepReply agent reply).ensures (fun _ => True) _

theorem runConditional_ensures (hmem : step ∈ steps) (condition : String) :
    Ensures (fun _ : Execution ι α => True) (runConditional w runId step condition)
      (fun _ _ => True) (FailsBy steps) := by
  refine .get_bind fun t => ?_
  split
  · exact runSequential_ensures hmem
  · exact .pure _ fun _ _ => trivial

theorem iterate_ensures (hmem : step ∈ steps) (agent : α × String) (maxIterations : ℕ)
    (untilLower : String) (left : ℕ) :
    Ensures (fun _ : Execution ι α => True)
      (iterate w runId step agent maxIterations untilLower left) (fun _ _ => True)
      (FailsBy steps) := by
  induction left with
  | zero => exact .pure _ fun _ _ => trivial
  | succ left ih =>
    refine .get_bind fun t => ?_
    refine (outcome_ensures hmem agent.1 (promptOf step t) fun reply => ?_).weaken
      (fun _ _ => trivial) (fun _ _ h => h) fun _ _ h => h
    refine ((silent_pushResult _).ensures (fun _ => True) _).bind fun _ => ?_
    refine ((silent_setInput _).ensures (fun _ => True) _).bind fun _ => ?_
    split
    · exact .pure _ fun _ _ => trivial
    · exact ih

theorem runLoop_ensures (hmem : step ∈ steps) (maxIterations : ℕ) (untilText : String) :
    Ensures (fun _ : Execution ι α => True) (runLoop w runId step maxIterations untilText)
      (fun _ _ => True) (FailsBy steps) := by
  refine (resolveAgent_ensures _).bind fun agent => ?_
  refine (iterate_ensures hmem agent maxIterations _ maxIterations).bind fun _ => ?_
  refine .get_bind fun t => ?_
  exact ((silent_setVar _ _).ensures (fun _ => True) _).bind fun _ =>
    (silent_pushOutput _).ensures (fun _ => True) _

/-! ### A group -/

/-- What the agents of a group answer, where `n` calls have been made before. -/
def answersOf (w : World α) : ℕ → List (Prepared α) → List (Prepared α × Answer)
  | _, [] => []
  | n, p :: ps => (p, w.send n p.agent.1 p.prompt) :: answersOf w (n + 1) ps

/-- The call of a member of a group. -/
def callOf (r : Prepared α × Answer) : Call α := ⟨r.1.step, 0, r.1.agent.1, r.1.prompt, r.2⟩

omit [DecidableEq ι] in
theorem run_joinAll (ps : List (Prepared α)) (t : Execution ι α) :
    run (joinAll w ps) t = (.ok (answersOf w t.calls.length ps),
      { t with calls := t.calls ++ (answersOf w t.calls.length ps).map callOf }) := by
  induction ps generalizing t with
  | nil => simp [joinAll, answersOf]
  | cons p ps ih =>
    rw [joinAll, sendMessage, run_modifyGet_bind, run_bind_of_ok (ih _)]
    simp [answersOf, callOf]

theorem step_of_mem_answersOf {n : ℕ} {ps : List (Prepared α)} {r : Prepared α × Answer}
    (h : r ∈ answersOf w n ps) : r.1 ∈ ps := by
  induction ps generalizing n with
  | nil => exact absurd h List.not_mem_nil
  | cons p ps ih =>
    rcases List.mem_cons.1 h with rfl | h
    · exact List.mem_cons_self
    · exact List.mem_cons_of_mem _ (ih h)

omit [DecidableEq ι] in
theorem prepare_ensures (group : List WorkflowStep) :
    Ensures (fun _ : Execution ι α => True) (prepare w group)
      (fun ps _ => ∀ p ∈ ps, p.step ∈ group) (FailsBy steps) := by
  induction group with
  | nil => exact .pure _ fun _ _ p hp => absurd hp List.not_mem_nil
  | cons step group ih =>
    refine (resolveAgent_ensures _).bind fun agent => .get_bind fun t => ih.bind fun ps => ?_
    refine .pure _ fun _ hps p hp => ?_
    rcases List.mem_cons.1 hp with rfl | hp
    · exact List.mem_cons_self
    · exact List.mem_cons_of_mem _ (hps p hp)

/-- A group that is plain fails only with a step that does not retry, and that has made its call. -/
theorem takeResults_ensures (hplain : PlainFanOut steps) (results : List (Prepared α × Answer))
    (hsteps : ∀ r ∈ results, r.1.step ∈ steps ∧ r.1.step.mode = .fanOut) :
    Ensures (fun t : Execution ι α => ∀ r ∈ results, callOf r ∈ t.calls)
      (takeResults w runId results) (fun _ _ => True) (FailsBy steps) := by
  induction results with
  | nil => exact .pure _ fun _ _ => trivial
  | cons r results ih =>
    obtain ⟨p, answer⟩ := r
    obtain ⟨hmem, hmode⟩ := hsteps (p, answer) List.mem_cons_self
    obtain ⟨hother, hretry⟩ := hplain p.step hmem hmode
    have hfails : ∀ message, answer.isFailure = true →
        Ensures (fun t : Execution ι α => ∀ r ∈ (p, answer) :: results, callOf r ∈ t.calls)
          (failStep w runId p.step message : Run ι α Unit) (fun _ _ => True) (FailsBy steps) := by
      intro message hanswer
      refine (failStep_ensures message hother).weaken ?_ (fun _ _ h => h.elim) fun _ _ h => h
      intro t hcalls maxRetries hmode
      cases maxRetries with
      | succ n => exact absurd hmode (hretry n)
      | zero =>
        refine ⟨[callOf (p, answer)], ?_, rfl, ?_⟩
        · exact (List.singleton_infix_iff _ _).2 (hcalls (p, answer) List.mem_cons_self)
        · intro c hc
          rw [List.mem_singleton.1 hc]
          exact ⟨rfl, hanswer⟩
    cases answer with
    | reply reply =>
      refine (((silent_keepReply p.agent reply).ensures
        (fun calls => ∀ r ∈ results, callOf r ∈ calls) _).weaken ?_ (fun _ _ h => h)
          fun _ _ h => h).bind fun _ => ih fun r hr => hsteps r (List.mem_cons_of_mem _ hr)
      exact fun t hcalls r hr => hcalls r (List.mem_cons_of_mem _ hr)
    | failed e => exact hfails _ rfl
    | timedOut => exact hfails _ rfl

theorem runFanOut_ensures (hplain : PlainFanOut steps) (group : List WorkflowStep)
    (hgroup : ∀ step ∈ group, step ∈ steps ∧ step.mode = .fanOut) :
    Ensures (fun _ : Execution ι α => True) (runFanOut w runId group) (fun _ _ => True)
      (FailsBy steps) := by
  refine (prepare_ensures group).bind fun ps => ?_
  have hrest : (∀ p ∈ ps, p.step ∈ group) → Ensures (fun _ : Execution ι α => True)
      (do let results ← joinAll w ps; takeResults w runId results) (fun _ _ => True)
      (FailsBy steps) := by
    intro hps
    have hresults : ∀ (n : ℕ), ∀ r ∈ answersOf w n ps,
        r.1.step ∈ steps ∧ r.1.step.mode = .fanOut :=
      fun n r hr => hgroup _ (hps _ (step_of_mem_answersOf hr))
    constructor
    · exact fun _ _ _ _ _ => trivial
    · intro t e t' _ hrun
      rw [run_bind_of_ok (run_joinAll ps t)] at hrun
      refine (takeResults_ensures hplain _ (hresults _)).error _ e t' ?_ hrun
      exact fun r hr => List.mem_append_right _ (List.mem_map_of_mem hr)
  constructor
  · exact fun _ _ _ _ _ => trivial
  · exact fun t e t' hps hrun => (hrest hps).error t e t' trivial hrun

/-! ### Whole runs -/

theorem executeSteps_ensures (hplain : PlainFanOut steps) (rest : List WorkflowStep)
    (hrest : ∀ step ∈ rest, step ∈ steps) :
    Ensures (fun _ : Execution ι α => True) (executeSteps w runId rest) (fun _ _ => True)
      (FailsBy steps) := by
  fun_induction executeSteps w runId rest with
  | case1 => exact .pure _ fun _ _ => trivial
  | case2 step rest hmode ih =>
    exact (runSequential_ensures (hrest step List.mem_cons_self)).bind fun _ =>
      ih fun step hstep => hrest step (List.mem_cons_of_mem _ hstep)
  | case3 step rest hmode ih =>
    refine (runFanOut_ensures hplain _ ?_).bind fun _ => ih fun step hstep =>
      hrest step (List.mem_cons_of_mem _ ((List.dropWhile_suffix _).mem hstep))
    intro step' hstep'
    rcases List.mem_cons.1 hstep' with rfl | hstep'
    · exact ⟨hrest step' List.mem_cons_self, hmode⟩
    · refine ⟨hrest step' (List.mem_cons_of_mem _ ((List.takeWhile_prefix _).mem hstep')), ?_⟩
      have hfanOut : step'.isFanOut = true := List.mem_takeWhile_imp hstep'
      exact of_decide_eq_true hfanOut
  | case4 step rest hmode ih =>
    exact ((silent_runCollect).ensures (fun _ => True) _).bind fun _ =>
      ih fun step hstep => hrest step (List.mem_cons_of_mem _ hstep)
  | case5 step rest condition hmode ih =>
    exact (runConditional_ensures (hrest step List.mem_cons_self) condition).bind fun _ =>
      ih fun step hstep => hrest step (List.mem_cons_of_mem _ hstep)
  | case6 step rest maxIterations untilText hmode ih =>
    exact (runLoop_ensures (hrest step List.mem_cons_self) maxIterations untilText).bind fun _ =>
      ih fun step hstep => hrest step (List.mem_cons_of_mem _ hstep)

/-- The run has begun. -/
def begun (engine : WorkflowEngine ι) (run : WorkflowRun ι) : Execution ι α where
  engine := { engine with
    runs := Table.modify WorkflowRun.id run.id (fun r => { r with state := .running }) engine.runs }
  currentInput := run.input

/-- The run and its workflow are there. -/
structure Found (engine : WorkflowEngine ι) (runId : ι) (workflow : Workflow ι)
    (r : WorkflowRun ι) :
    Prop where
  run : Table.lookup WorkflowRun.id runId engine.runs = some r
  workflow : Table.lookup Workflow.id r.workflowId engine.workflows = some workflow

variable {engine : WorkflowEngine ι} {workflow : Workflow ι} {r : WorkflowRun ι}

theorem run_executeRunInner (hfound : Found engine runId workflow r) :
    run (executeRunInner w runId) { engine } =
      run (do
        executeSteps w runId workflow.steps
        let t ← get
        modifyRun runId fun r => { r with
          state := .completed
          output := some t.currentInput
          completedAt := some (w.now t.calls.length) }
        pure t.currentInput) (begun (α := α) engine r) := by
  have hid : r.id = runId := by
    simpa using List.find?_some hfound.run
  rw [executeRunInner, run_get_bind]
  simp only [hfound.run, hfound.workflow]
  rw [modifyRun, run_modify_bind, setInput, run_modify_bind, begun, hid]

/-- A run fails as its steps do. -/
theorem execute_of_error (hfound : Found engine runId workflow r) {e : RunError}
    {t : Execution ι α} (hrun : run (executeSteps w runId workflow.steps) (begun engine r) =
      (.error e, t)) :
    (execute w engine runId).1 = .error e ∧ (execute w engine runId).2.calls = t.calls := by
  have hinner : run (executeRunInner w runId) { engine } = (.error e, t) :=
    (run_executeRunInner hfound).trans (run_bind_of_error hrun)
  rw [execute, executeRun, run_tryCatch_of_error hinner]
  exact ⟨rfl, rfl⟩

theorem execute_of_ok (hfound : Found engine runId workflow r) {t : Execution ι α}
    (hrun : run (executeSteps w runId workflow.steps) (begun engine r) = (.ok (), t)) :
    ∃ v, (execute w engine runId).1 = .ok v := by
  have hinner := (run_executeRunInner hfound).trans (run_bind_of_ok hrun)
  rw [run_get_bind, modifyRun, run_modify_bind, run_pure] at hinner
  rw [execute, executeRun, run_tryCatch_of_ok hinner]
  exact ⟨_, rfl⟩

/-- Where the groups are plain every run keeps the error modes. -/
theorem keepsErrorModes_of_plainFanOut (w : World α) (hplain : PlainFanOut workflow.steps)
    (hfound : Found engine runId workflow r) :
    KeepsErrorModes workflow.steps (execute w engine runId).1 (execute w engine runId).2.calls := by
  rcases hrun : run (executeSteps w runId workflow.steps) (begun engine r) with ⟨e | v, t⟩
  · obtain ⟨hresult, hcalls⟩ := execute_of_error hfound hrun
    have hfails := (executeSteps_ensures hplain workflow.steps fun _ h => h).error
      _ e t trivial hrun
    rw [hresult, hcalls]
    constructor
    · intro hskip step message heq
      obtain ⟨⟨other, hmem, hother⟩, -⟩ := hfails step message (Except.error.inj heq)
      exact hother (hskip other hmem)
    · exact fun step message maxRetries heq hmode =>
        (hfails step message (Except.error.inj heq)).2 maxRetries hmode
  · obtain ⟨v, hresult⟩ := execute_of_ok hfound hrun
    rw [hresult]
    exact ⟨fun _ _ _ heq => (by cases heq), fun _ _ _ heq => (by cases heq)⟩

/-! ### A call that fails -/

variable [Inhabited α]

omit [DecidableEq ι] in
theorem smooth_sendMessage (attempt : ℕ) (agent : α) (prompt : String) :
    Smooth (fun answer => ∃ reply, answer = .reply reply)
      fun n => (sendMessage (failingAt n) step attempt agent prompt : Run ι α Answer) := by
  intro t
  refine ⟨.reply ⟨"done", 0, 0⟩,
    { t with calls := t.calls ++ [⟨step, attempt, agent, prompt, .reply ⟨"done", 0, 0⟩⟩] },
    ⟨_, rfl⟩, by simp, by simp [Answer.isFailure], fun n hn => ?_⟩
  rw [List.length_append, List.length_singleton] at hn
  have hne : t.calls.length ≠ n := by omega
  simp [sendMessage, failingAt, hne]

omit [DecidableEq ι] in
theorem smooth_executeStepWithErrorMode (agent : α) (prompt : String) :
    Smooth (fun r => ∃ reply, r = .ok (some reply)) fun n =>
      (executeStepWithErrorMode (failingAt n) step agent prompt :
        Run ι α (Except String (Option Reply))) := by
  unfold executeStepWithErrorMode
  cases step.errorMode with
  | fail =>
    refine (smooth_sendMessage 0 agent prompt).bind fun answer hanswer => ?_
    obtain ⟨reply, rfl⟩ := hanswer
    exact smooth_pure ⟨reply, rfl⟩
  | skip =>
    refine (smooth_sendMessage 0 agent prompt).bind fun answer hanswer => ?_
    obtain ⟨reply, rfl⟩ := hanswer
    exact smooth_pure ⟨reply, rfl⟩
  | retry maxRetries =>
    simp only [attempts]
    refine (smooth_sendMessage _ agent prompt).bind fun answer hanswer => ?_
    obtain ⟨reply, rfl⟩ := hanswer
    exact smooth_pure ⟨reply, rfl⟩

theorem smooth_runSequential :
    Smooth (fun _ => True) fun n => (runSequential (failingAt n) runId step : Run ι α Unit) := by
  have hagent : Smooth (fun _ => True) fun n => (resolveAgent (failingAt n) step :
      Run ι α (α × String)) := smooth_pure (v := (default, "agent")) trivial
  refine hagent.bind fun agent _ => .get_bind fun t => ?_
  refine (smooth_executeStepWithErrorMode agent.1 (promptOf step t)).bind fun r hr => ?_
  obtain ⟨reply, rfl⟩ := hr
  exact (silent_keepReply (w := failingAt 0) agent reply).smooth

theorem smooth_runConditional (condition : String) :
    Smooth (fun _ => True) fun n =>
      (runConditional (failingAt n) runId step condition : Run ι α Unit) := by
  refine .get_bind fun t => ?_
  show Smooth _ fun n => if Text.containsText t.currentInput condition = true then
    runSequential (failingAt n) runId step else pure ()
  exact smooth_runSequential.ite (smooth_pure trivial)

theorem smooth_iterate (agent : α × String) (maxIterations : ℕ) (untilLower : String) (left : ℕ) :
    Smooth (fun _ => True) fun n =>
      (iterate (failingAt n) runId step agent maxIterations untilLower left : Run ι α Unit) := by
  induction left with
  | zero => exact smooth_pure trivial
  | succ left ih =>
    refine .get_bind fun t => ?_
    refine (smooth_executeStepWithErrorMode agent.1 (promptOf step t)).bind fun r hr => ?_
    obtain ⟨reply, rfl⟩ := hr
    have hpush : Silent (pushResult runId (resultOf (failingAt 0) (step.name ++ " (iter " ++
        toString (maxIterations - left) ++ ")") agent reply) : Run ι α Unit) := silent_pushResult _
    refine hpush.smooth.bind fun _ _ => (silent_setInput reply.output).smooth.bind fun _ _ => ?_
    show Smooth _ fun n => if untilLower ≠ "" ∧
        Text.containsText reply.output untilLower = true then
      pure () else iterate (failingAt n) runId step agent maxIterations untilLower left
    exact (smooth_pure trivial).ite ih

theorem smooth_runLoop (maxIterations : ℕ) (untilText : String) :
    Smooth (fun _ => True) fun n =>
      (runLoop (failingAt n) runId step maxIterations untilText : Run ι α Unit) := by
  have hagent : Smooth (fun _ => True) fun n => (resolveAgent (failingAt n) step :
      Run ι α (α × String)) := smooth_pure trivial
  refine hagent.bind fun agent _ => ?_
  refine (smooth_iterate agent maxIterations untilText maxIterations).bind fun _ _ => ?_
  refine .get_bind fun t => ?_
  exact (silent_setVar _ _).smooth.bind fun _ _ => (silent_pushOutput _).smooth

/-! ### A group in which a call fails -/

/-- A member of a group with the answer that it gets where it does not fail. -/
def repliedTo (p : Prepared α) : Prepared α × Answer := (p, .reply ⟨"done", 0, 0⟩)

omit [DecidableEq ι] in
theorem run_prepare (group : List WorkflowStep) (t : Execution ι α) :
    ∃ ps : List (Prepared α), ps.map Prepared.step = group ∧
      ∀ n, run (prepare (failingAt n) group) t = (.ok ps, t) := by
  induction group with
  | nil => exact ⟨[], rfl, fun _ => rfl⟩
  | cons step group ih =>
    obtain ⟨ps, hps, hrun⟩ := ih
    refine ⟨⟨step, (default, "agent"), promptOf step t⟩ :: ps, by rw [List.map_cons, hps],
      fun n => ?_⟩
    have hagent : run (resolveAgent (failingAt n) step) t = (.ok (default, "agent"), t) := rfl
    rw [prepare, run_bind_of_ok hagent, run_get_bind, run_bind_of_ok (hrun n), run_pure]

omit [Inhabited α] in
theorem answersOf_append (w : World α) (m : ℕ) (ps ps' : List (Prepared α)) :
    answersOf w m (ps ++ ps') = answersOf w m ps ++ answersOf w (m + ps.length) ps' := by
  induction ps generalizing m with
  | nil => rfl
  | cons p ps ih =>
    rw [List.cons_append, answersOf, ih, answersOf, List.length_cons, List.cons_append,
      show m + 1 + ps.length = m + (ps.length + 1) by omega]

theorem answersOf_replied {n m : ℕ} {ps : List (Prepared α)} (h : n < m ∨ m + ps.length ≤ n) :
    answersOf (failingAt n) m ps = ps.map repliedTo := by
  induction ps generalizing m with
  | nil => rfl
  | cons p ps ih =>
    rw [List.length_cons] at h
    have hne : m ≠ n := by omega
    rw [answersOf, ih (by omega), List.map_cons]
    simp [failingAt, repliedTo, hne]

omit [Inhabited α] in
theorem countP_replied (ps : List (Prepared α)) :
    (((ps.map repliedTo).map callOf).countP fun c => c.answer.isFailure) = 0 := by
  rw [List.countP_eq_zero]
  intro c hc
  obtain ⟨r, hr, rfl⟩ := List.mem_map.1 hc
  obtain ⟨p, -, rfl⟩ := List.mem_map.1 hr
  simp [callOf, repliedTo, Answer.isFailure]

theorem takeResults_failingAt (n : ℕ) (results : List (Prepared α × Answer)) :
    (takeResults (failingAt n) runId results : Run ι α Unit) =
      takeResults (failingAt 0) runId results := by
  induction results with
  | nil => rfl
  | cons r results ih =>
    obtain ⟨p, answer⟩ := r
    cases answer with
    | reply reply =>
      rw [takeResults, takeResults, ih]
      rfl
    | failed e => rfl
    | timedOut => rfl

omit [Inhabited α] in
theorem silent_takeResults (ps : List (Prepared α)) :
    Silent (takeResults w runId (ps.map repliedTo) : Run ι α Unit) := by
  induction ps with
  | nil => exact silent_pure _
  | cons p ps ih => exact (silent_keepReply p.agent _).bind fun _ => ih

theorem smooth_runFanOut (runId : ι) (group : List WorkflowStep) :
    Smooth (fun _ => True) fun n => (runFanOut (failingAt n) runId group : Run ι α Unit) := by
  intro t
  obtain ⟨ps, -, hprepare⟩ := run_prepare group t
  have hsilent : Silent (takeResults (failingAt 0) runId (ps.map repliedTo) : Run ι α Unit) :=
    silent_takeResults ps
  obtain ⟨v, t', hrun, hcalls⟩ :=
    hsilent { t with calls := t.calls ++ (ps.map repliedTo).map callOf }
  refine ⟨v, t', trivial, ?_, ?_, fun n hn => ?_⟩
  · rw [hcalls]
    simp
  · rw [hcalls, List.countP_append, countP_replied, add_zero]
  · rw [hcalls] at hn
    simp only [List.length_append, List.length_map] at hn
    show run (runFanOut (failingAt n) runId group) t = _
    rw [runFanOut, run_bind_of_ok (hprepare n), run_bind_of_ok (run_joinAll ps t),
      answersOf_replied (Or.inr hn), takeResults_failingAt]
    exact hrun

omit [Inhabited α] in
theorem takeResults_fails (w : World α) (runId : ι) (before : List (Prepared α)) (p : Prepared α)
    (e : String)
    (after : List (Prepared α × Answer)) (t : Execution ι α) :
    ∃ message t', run (takeResults w runId (before.map repliedTo ++ (p, .failed e) :: after)) t =
      (.error (.stepFailed p.step message), t') ∧ t'.calls = t.calls := by
  induction before generalizing t with
  | nil => exact ⟨_, _, rfl, rfl⟩
  | cons q before ih =>
    have hsilent : Silent (keepReply w runId q.step q.agent ⟨"done", 0, 0⟩ : Run ι α Unit) :=
      silent_keepReply q.agent _
    obtain ⟨v, t', hrun, hcalls⟩ := hsilent t
    obtain ⟨message, t'', hrun', hcalls'⟩ := ih t'
    refine ⟨message, t'', ?_, hcalls'.trans hcalls⟩
    exact (run_bind_of_ok hrun).trans hrun'

theorem runFanOut_fails (group : List WorkflowStep) (hmem : step ∈ group) (t : Execution ι α) :
    ∃ n message t', t.calls.length ≤ n ∧
      run (runFanOut (failingAt n) runId group) t = (.error (.stepFailed step message), t') ∧
      (t'.calls.countP fun c => c.answer.isFailure) =
        (t.calls.countP fun c => c.answer.isFailure) + 1 := by
  obtain ⟨ps, hps, hprepare⟩ := run_prepare group t
  rw [← hps] at hmem
  obtain ⟨p, hp, rfl⟩ := List.mem_map.1 hmem
  obtain ⟨before, after, rfl⟩ := List.append_of_mem hp
  let n := t.calls.length + before.length
  have hsend : (failingAt n : World α).send n p.agent.1 p.prompt = .failed "unavailable" :=
    if_pos rfl
  have hanswers : answersOf (failingAt n) t.calls.length (before ++ p :: after) =
      before.map repliedTo ++ (p, .failed "unavailable") :: after.map repliedTo := by
    rw [answersOf_append, answersOf_replied (Or.inr le_rfl), answersOf, hsend,
      answersOf_replied (Or.inl (Nat.lt_succ_self n))]
  obtain ⟨message, t', hrun, hcalls⟩ := takeResults_fails (failingAt n) runId before p "unavailable"
    (after.map repliedTo) { t with
      calls := t.calls ++ (before.map repliedTo ++
        (p, .failed "unavailable") :: after.map repliedTo).map callOf }
  refine ⟨n, message, t', Nat.le_add_right _ _, ?_, ?_⟩
  · rw [runFanOut, run_bind_of_ok (hprepare n), run_bind_of_ok (run_joinAll _ t), hanswers]
    exact hrun
  · rw [hcalls, List.countP_append, List.map_append, List.countP_append, countP_replied, zero_add,
      List.map_cons, List.countP_cons_of_pos rfl, countP_replied, zero_add]

/-- A step that is not of a group, before the others. -/
theorem executeSteps_cons (α : Type) [Inhabited α] (runId : ι) (hmode : step.mode ≠ .fanOut)
    (steps : List WorkflowStep) :
    ∃ x : ℕ → Run ι α Unit, Smooth (fun _ => True) x ∧
      ∀ n, executeSteps (failingAt n) runId (step :: steps) =
        x n >>= fun _ => executeSteps (failingAt n) runId steps := by
  cases hstep : step.mode with
  | sequential =>
    exact ⟨_, smooth_runSequential, fun n => by rw [executeSteps, hstep]⟩
  | fanOut => exact absurd hstep hmode
  | collect => exact ⟨_, silent_runCollect.smooth, fun n => by rw [executeSteps, hstep]⟩
  | conditional condition =>
    exact ⟨_, smooth_runConditional condition, fun n => by rw [executeSteps, hstep]⟩
  | loop maxIterations untilText =>
    exact ⟨_, smooth_runLoop maxIterations untilText, fun n => by rw [executeSteps, hstep]⟩

/-- For each step of a group there is a call whose failure makes the run fail with that step. -/
theorem exists_fails (α : Type) [Inhabited α] (runId : ι) (steps : List WorkflowStep)
    (hmem : step ∈ steps) (hmode : step.mode = .fanOut)
    (t : Execution ι α) :
    ∃ n message t', t.calls.length ≤ n ∧
      run (executeSteps (failingAt n) runId steps) t = (.error (.stepFailed step message), t') ∧
      (t'.calls.countP fun c => c.answer.isFailure) =
        (t.calls.countP fun c => c.answer.isFailure) + 1 := by
  induction hlength : steps.length using Nat.strong_induction_on generalizing steps t with
  | _ length ih =>
    subst hlength
    cases steps with
    | nil => exact absurd hmem List.not_mem_nil
    | cons head steps =>
      by_cases hhead : head.mode = .fanOut
      · by_cases hgroup : step ∈ head :: steps.takeWhile WorkflowStep.isFanOut
        · obtain ⟨n, message, t', hle, hrun, hcount⟩ := runFanOut_fails _ hgroup t
          refine ⟨n, message, t', hle, ?_, hcount⟩
          rw [executeSteps, hhead]
          exact run_bind_of_error hrun
        · have hrest : step ∈ steps.dropWhile WorkflowStep.isFanOut := by
            rw [List.mem_cons, not_or] at hgroup
            have hmem' := (List.mem_cons.1 hmem).resolve_left hgroup.1
            rw [← List.takeWhile_append_dropWhile (p := WorkflowStep.isFanOut) (l := steps),
              List.mem_append] at hmem'
            exact hmem'.resolve_left hgroup.2
          obtain ⟨v, t₁, -, hle₁, hcount₁, hrun₁⟩ := smooth_runFanOut runId
            (head :: steps.takeWhile WorkflowStep.isFanOut) t
          obtain ⟨n, message, t', hle, hrun, hcount⟩ := ih _
            (Nat.lt_succ_of_le (List.length_dropWhile_le _ _)) _ hrest t₁ rfl
          refine ⟨n, message, t', hle₁.trans hle, ?_, by rw [hcount, hcount₁]⟩
          rw [executeSteps, hhead]
          exact (run_bind_of_ok (hrun₁ n hle)).trans hrun
      · have hrest : step ∈ steps := (List.mem_cons.1 hmem).resolve_left fun heq =>
          hhead (heq ▸ hmode)
        obtain ⟨x, hx, hsteps⟩ := executeSteps_cons α runId hhead steps
        obtain ⟨v, t₁, -, hle₁, hcount₁, hrun₁⟩ := hx t
        obtain ⟨n, message, t', hle, hrun, hcount⟩ := ih _ (Nat.lt_succ_self _) _ hrest t₁ rfl
        refine ⟨n, message, t', hle₁.trans hle, ?_, by rw [hcount, hcount₁]⟩
        rw [hsteps]
        exact (run_bind_of_ok (hrun₁ n hle)).trans hrun

/-- A run in which a call of a group fails has one failure only. -/
theorem plainFanOut_of_keeps
    (hkeeps : ∀ (w : World α) (engine : WorkflowEngine ι) (runId : ι) (r : WorkflowRun ι),
      Found engine runId workflow r →
      KeepsErrorModes workflow.steps (execute w engine runId).1 (execute w engine runId).2.calls) :
    PlainFanOut workflow.steps := by
  intro step hmem hmode
  let r : WorkflowRun ι :=
    { id := workflow.id, workflowId := workflow.id, workflowName := workflow.name, input := "",
      startedAt := 0 }
  have hfound : Found ⟨[workflow], [r]⟩ workflow.id workflow r :=
    ⟨by simp [Table.lookup, r], by simp [Table.lookup, r]⟩
  obtain ⟨n, message, t, -, hrun, hcount⟩ :=
    exists_fails α workflow.id workflow.steps hmem hmode (begun ⟨[workflow], [r]⟩ r)
  obtain ⟨hresult, hcalls⟩ := execute_of_error hfound hrun
  have hkept := hkeeps (failingAt n) _ _ _ hfound
  rw [hresult, hcalls] at hkept
  constructor
  · by_contra hall
    refine hkept.skipped (fun other hother => ?_) step message rfl
    by_contra hmode
    exact hall ⟨other, hother, hmode⟩
  · intro k hretry
    obtain ⟨tries, hinfix, hrange, htries⟩ := hkept.retried step message (k + 1) rfl hretry
    have hlength : tries.length = k + 2 := by
      simpa using congrArg List.length hrange
    have hall : (tries.countP fun c => c.answer.isFailure) = tries.length :=
      List.countP_eq_length.2 fun c hc => (htries c hc).2
    have hle := hinfix.sublist.countP_le (p := fun c : Call α => c.answer.isFailure)
    have hnone : ((begun ⟨[workflow], [r]⟩ r : Execution ι α).calls.countP
        fun c => c.answer.isFailure) = 0 := rfl
    omega

/-! ### A group that is not plain -/

/-- A group of one step, whose errors are to be skipped. -/
def skippedFanOut : WorkflowStep where
  name := "survey"
  agent := .byName "agent"
  promptTemplate := "go on"
  mode := .fanOut
  errorMode := .skip

/-- The run of a workflow with that step. -/
def surveyRun : WorkflowRun ℕ where
  id := 1
  workflowId := 2
  workflowName := "surveys"
  input := ""
  startedAt := 0

def survey : Workflow ℕ := ⟨2, "surveys", [skippedFanOut]⟩

/-- The agent fails, and so does the run. -/
theorem survey_fails :
    ¬ ∀ (workflow : Workflow ℕ) (w : World ℕ) (engine : WorkflowEngine ℕ) (runId : ℕ)
      (r : WorkflowRun ℕ), Found engine runId workflow r →
      KeepsErrorModes workflow.steps (execute w engine runId).1
          (execute w engine runId).2.calls := by
  intro hall
  have hfound : Found ⟨[survey], [surveyRun]⟩ 1 survey surveyRun := ⟨rfl, rfl⟩
  have hgroup : ∃ message t, run (runFanOut (failingAt 0 : World ℕ) 1 [skippedFanOut])
      (begun ⟨[survey], [surveyRun]⟩ surveyRun) =
        (.error (.stepFailed skippedFanOut message), t) := ⟨_, _, rfl⟩
  obtain ⟨message, t, hgroup⟩ := hgroup
  have hrun : run (executeSteps (failingAt 0) 1 survey.steps)
      (begun ⟨[survey], [surveyRun]⟩ surveyRun) =
        (.error (.stepFailed skippedFanOut message), t) := by
    rw [survey, executeSteps]
    exact run_bind_of_error hgroup
  have hkept := hall survey (failingAt 0) _ _ _ hfound
  rw [(execute_of_error hfound hrun).1] at hkept
  exact hkept.skipped (by simp [survey, skippedFanOut]) _ _ rfl

/-- All runs of a workflow keep the error modes of its steps, if and only if its groups are
plain. -/
theorem keepsErrorModes_iff (workflow : Workflow ι) :
    (∀ (w : World α) (engine : WorkflowEngine ι) (runId : ι) (r : WorkflowRun ι),
      Found engine runId workflow r →
      KeepsErrorModes workflow.steps (execute w engine runId).1
        (execute w engine runId).2.calls) ↔
    PlainFanOut workflow.steps :=
  ⟨plainFanOut_of_keeps, fun hplain w _ _ _ hfound =>
    keepsErrorModes_of_plainFanOut w hplain hfound⟩

end Workflows
end RustyHand
