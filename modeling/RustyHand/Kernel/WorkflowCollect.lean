import Mathlib.Data.List.DropRight
import RustyHand.Kernel.WorkflowErrors

/-!
# What a `Collect` step hands on

* `groupOutputs`: the outputs of the `FanOut` group that stands before a step;
* `CollectsGroups`: a run in which each `Collect` step hands on the outputs of that group;
* `CollectsFirst`: nothing but that group stands before a `Collect` step, or nothing that says
  anything;
* `executeSteps_append`: a run of steps goes through the runs of the steps before;
* `collectsGroups_of_collectsFirst`, `collectsFirst_of_collectsGroups`, `collectsGroups_iff`.
-/

namespace RustyHand
namespace Workflows

open Effects

variable {ι α : Type}

/-- What stands between collected outputs. -/
def separator : String := "\n\n---\n\n"

/-- The output that a call was answered with. -/
def Call.output? (c : Call α) : Option String :=
  match c.answer with
  | .reply reply => some reply.output
  | _ => none

/-- The group of `FanOut` steps that some steps end with. -/
def lastGroup (steps : List WorkflowStep) : List WorkflowStep :=
  steps.rtakeWhile WorkflowStep.isFanOut

/-- The outputs of the group that some steps end with: each of its steps makes one call, and no
other call is made after them. -/
def groupOutputs (steps : List WorkflowStep) (calls : List (Call α)) : List String :=
  (calls.rtake (lastGroup steps).length).filterMap Call.output?

/-- The input that a `Collect` step hands on. -/
def handedOn (step : WorkflowStep) (t : Execution ι α) : String :=
  (run (runCollect step : Run ι α Unit) t).2.currentInput

/-- Each `Collect` step that a run of the steps comes to hands on the outputs of the group before
it, joined. -/
def CollectsGroups [DecidableEq ι] (w : World α) (runId : ι) (steps : List WorkflowStep)
    (t : Execution ι α) : Prop :=
  ∀ before step after, steps = before ++ step :: after → step.mode = .collect →
    ∀ t', run (executeSteps w runId before) t = (.ok (), t') →
      handedOn step t' = separator.intercalate (groupOutputs before t'.calls)

/-- Does the step never call an agent where the current input is empty? -/
def WorkflowStep.isQuiet (toLowercase : String → String) (step : WorkflowStep) : Bool :=
  match step.mode with
  | .collect => true
  | .conditional condition => !Text.containsText (toLowercase "") (toLowercase condition)
  | _ => false

/-- The steps begin with a `Collect`, which makes the input empty, and go on with steps that leave
it so. -/
def Idle (toLowercase : String → String) (steps : List WorkflowStep) : Prop :=
  ∃ first rest, steps = first :: rest ∧ first.mode = .collect ∧
    ∀ step ∈ rest, step.isQuiet toLowercase = true

/-- Before a `Collect` step there are `FanOut` steps only, or steps that call no agent. -/
def CollectsFirst (toLowercase : String → String) (steps : List WorkflowStep) : Prop :=
  ∀ before step after, steps = before ++ step :: after → step.mode = .collect →
    (∀ other ∈ before, other.mode = .fanOut) ∨ Idle toLowercase before

/-! ### Joined outputs -/

theorem separator_append_ne (a b : String) : a ++ separator ++ b ≠ "" := by
  intro heq
  have hlength := congrArg String.length heq
  have hseparator : separator.length = 7 := by decide
  rw [String.length_append, String.length_append, hseparator, String.length_empty] at hlength
  omega

/-- One more output leaves no empty text. -/
theorem intercalate_concat_ne {outputs : List String} {output : String}
    (h : outputs ≠ [] ∨ output ≠ "") : separator.intercalate (outputs ++ [output]) ≠ "" := by
  by_cases houtputs : outputs = []
  · rw [houtputs, List.nil_append, String.intercalate_singleton]
    exact h.resolve_left fun hne => hne houtputs
  · rw [String.intercalate_append_of_ne_nil houtputs (List.cons_ne_nil _ _)]
    exact separator_append_ne _ _

theorem intercalate_append_ne {outputs more : List String} (houtputs : outputs ≠ [])
    (hmore : more ≠ []) : separator.intercalate (outputs ++ more) ≠ separator.intercalate more := by
  rw [String.intercalate_append_of_ne_nil houtputs hmore]
  intro heq
  have hlength := congrArg String.length heq
  have hseparator : separator.length = 7 := by decide
  rw [String.length_append, String.length_append, hseparator] at hlength
  omega

/-! ### Runs of the steps before -/

variable [DecidableEq ι] {w : World α} {runId : ι} {step : WorkflowStep}
  {steps before after : List WorkflowStep} {t t' : Execution ι α}

/-- No group goes over from the first steps to the others. -/
def Apart (before after : List WorkflowStep) : Prop :=
  ∀ last ∈ before.getLast?, ∀ first ∈ after.head?, ¬ (last.isFanOut = true ∧ first.isFanOut = true)

theorem Apart.suffix {rest : List WorkflowStep} (h : Apart before after) (hrest : rest <:+ before) :
    Apart rest after := by
  obtain ⟨dropped, rfl⟩ := hrest
  exact fun last hlast => h last (List.mem_getLast?_append_of_mem_getLast? hlast)

theorem takeWhile_append_of_forall {p : WorkflowStep → Bool}
    (h : (∀ step ∈ before, p step = true) → ∀ first ∈ after.head?, p first = false) :
    (before ++ after).takeWhile p = before.takeWhile p ∧
      (before ++ after).dropWhile p = before.dropWhile p ++ after := by
  induction before with
  | nil =>
    cases after with
    | nil => exact ⟨rfl, rfl⟩
    | cons first after =>
      have hp : p first = false := h (fun _ hmem => absurd hmem List.not_mem_nil) first rfl
      simp [hp]
  | cons step before ih =>
    cases hp : p step with
    | true =>
      have hrest := ih fun hall => h fun other hother => by
        rcases List.mem_cons.1 hother with rfl | hother
        · exact hp
        · exact hall other hother
      simp [hp, hrest.1, hrest.2]
    | false => simp [hp]

/-- A run goes through the runs of the first steps. -/
theorem executeSteps_append (h : Apart before after) :
    (executeSteps w runId (before ++ after) : Run ι α Unit) =
      executeSteps w runId before >>= fun _ => executeSteps w runId after := by
  induction before using executeSteps.induct with
  | case1 => simp [executeSteps]
  | case2 step steps hmode ih =>
    rw [List.cons_append, executeSteps, executeSteps, hmode]
    simp only [bind_assoc]
    rw [ih (h.suffix (List.suffix_cons _ _))]
  | case3 step steps hmode ih =>
    have hfanOut : step.isFanOut = true := decide_eq_true hmode
    obtain ⟨htake, hdrop⟩ := takeWhile_append_of_forall
      (p := WorkflowStep.isFanOut) fun hall first hfirst => by
        have hlast : ((step :: steps).getLast (List.cons_ne_nil _ _)).isFanOut = true := by
          rcases List.mem_cons.1 (List.getLast_mem (List.cons_ne_nil step steps)) with heq | hmem
          · rw [heq]
            exact hfanOut
          · exact hall _ hmem
        by_contra hne
        rw [Bool.not_eq_false] at hne
        exact h _ (List.getLast?_eq_some_getLast _) first hfirst ⟨hlast, hne⟩
    have hsuffix : steps.dropWhile WorkflowStep.isFanOut <:+ step :: steps :=
      (List.dropWhile_suffix _).trans (List.suffix_cons _ _)
    rw [List.cons_append, executeSteps, executeSteps, hmode]
    simp only [bind_assoc]
    rw [htake, hdrop, ih (h.suffix hsuffix)]
  | case4 step steps hmode ih =>
    rw [List.cons_append, executeSteps, executeSteps, hmode]
    simp only [bind_assoc]
    rw [ih (h.suffix (List.suffix_cons _ _))]
  | case5 step steps condition hmode ih =>
    rw [List.cons_append, executeSteps, executeSteps, hmode]
    simp only [bind_assoc]
    rw [ih (h.suffix (List.suffix_cons _ _))]
  | case6 step steps maxIterations untilText hmode ih =>
    rw [List.cons_append, executeSteps, executeSteps, hmode]
    simp only [bind_assoc]
    rw [ih (h.suffix (List.suffix_cons _ _))]

/-! ### What the steps leave -/

omit [DecidableEq ι] in
theorem run_setVar (name : Option String) (value : String) (t : Execution ι α) :
    ∃ vars, run (setVar name value : Run ι α Unit) t = (.ok (), { t with vars := vars }) := by
  cases name with
  | none => exact ⟨t.vars, rfl⟩
  | some name => exact ⟨_, rfl⟩

omit [DecidableEq ι] in
theorem run_runCollect (step : WorkflowStep) (t : Execution ι α) :
    ∃ vars, run (runCollect step : Run ι α Unit) t = (.ok (), { t with
      currentInput := separator.intercalate t.allOutputs
      allOutputs := [separator.intercalate t.allOutputs]
      vars := vars }) := by
  obtain ⟨vars, hvars⟩ := run_setVar (ι := ι) (α := α) step.outputVar
    (separator.intercalate t.allOutputs) { t with
      currentInput := separator.intercalate t.allOutputs
      allOutputs := [separator.intercalate t.allOutputs] }
  refine ⟨vars, ?_⟩
  rw [runCollect, run_get_bind]
  exact hvars

omit [DecidableEq ι] in
theorem handedOn_eq (step : WorkflowStep) (t : Execution ι α) :
    handedOn step t = separator.intercalate t.allOutputs := by
  obtain ⟨vars, hrun⟩ := run_runCollect step t
  rw [handedOn, hrun]

theorem run_pushResult (runId : ι) (result : StepResult) (t : Execution ι α) :
    ∃ engine, run (pushResult runId result : Run ι α Unit) t =
      (.ok (), { t with engine := engine }) := ⟨_, rfl⟩

/-- A reply is an output more, and the next input. -/
theorem run_keepReply (w : World α) (runId : ι) (step : WorkflowStep) (agent : α × String)
    (reply : Reply) (t : Execution ι α) :
    ∃ t', run (keepReply w runId step agent reply) t = (.ok (), t') ∧ t'.calls = t.calls ∧
      t'.allOutputs = t.allOutputs ++ [reply.output] ∧ t'.currentInput = reply.output := by
  obtain ⟨engine, hpush⟩ := run_pushResult runId (resultOf w step.name agent reply) t
  obtain ⟨vars, hvars⟩ := run_setVar step.outputVar reply.output { t with engine := engine }
  refine ⟨{ t with engine := engine, vars := vars, allOutputs := t.allOutputs ++ [reply.output]
                   currentInput := reply.output }, ?_, rfl, rfl, rfl⟩
  rw [keepReply, run_bind_of_ok hpush, run_bind_of_ok hvars]
  rfl

omit [DecidableEq ι] in
theorem prepare_eq_ok {group : List WorkflowStep} {ps : List (Prepared α)}
    (h : run (prepare w group) t = (.ok ps, t')) : t' = t ∧ ps.map Prepared.step = group := by
  induction group generalizing ps t' with
  | nil =>
    cases h
    exact ⟨rfl, rfl⟩
  | cons step group ih =>
    rw [prepare] at h
    cases hagent : w.resolve step.agent with
    | none =>
      have hnone : run (resolveAgent w step) t = (.error (.agentNotFound step), t) := by
        rw [resolveAgent, hagent, run_throw]
      rw [run_bind_of_error hnone] at h
      cases h
    | some agent =>
      have hsome : run (resolveAgent w step) t = (.ok agent, t) := by
        rw [resolveAgent, hagent, run_pure]
      rw [run_bind_of_ok hsome, run_get_bind] at h
      rcases hrest : run (prepare w group) t with ⟨e | rest, s⟩
      · rw [run_bind_of_error hrest] at h
        cases h
      · rw [run_bind_of_ok hrest, run_pure] at h
        cases h
        obtain ⟨rfl, hsteps⟩ := ih hrest
        exact ⟨rfl, by rw [List.map_cons, hsteps]⟩

/-- The outputs of a group are its answers. -/
theorem takeResults_eq_ok {results : List (Prepared α × Answer)}
    (h : run (takeResults w runId results) t = (.ok (), t')) :
    t'.calls = t.calls ∧ ∃ outputs, (results.map callOf).map Call.output? = outputs.map some ∧
      t'.allOutputs = t.allOutputs ++ outputs := by
  induction results generalizing t with
  | nil =>
    cases h
    exact ⟨rfl, [], rfl, (List.append_nil _).symm⟩
  | cons result results ih =>
    obtain ⟨p, answer⟩ := result
    cases answer with
    | reply reply =>
      obtain ⟨s, hkeep, hcalls, houtputs, -⟩ :=
        run_keepReply w runId p.step p.agent reply t
      rw [takeResults, run_bind_of_ok hkeep] at h
      obtain ⟨hcalls', outputs, hanswers, houtputs'⟩ := ih h
      refine ⟨hcalls'.trans hcalls, reply.output :: outputs, ?_, ?_⟩
      · rw [List.map_cons, List.map_cons, List.map_cons, hanswers]
        rfl
      · rw [houtputs', houtputs, List.append_assoc]
        rfl
    | failed e => cases h
    | timedOut => cases h

omit [DecidableEq ι] in
theorem map_fst_answersOf (n : ℕ) (ps : List (Prepared α)) :
    (answersOf w n ps).map Prod.fst = ps := by
  induction ps generalizing n with
  | nil => rfl
  | cons p ps ih => rw [answersOf, List.map_cons, ih]

/-- A group that is through has made one call for each step, in the order of the steps, and its
outputs are what the calls were answered with. -/
theorem runFanOut_eq_ok {group : List WorkflowStep}
    (h : run (runFanOut w runId group) t = (.ok (), t')) :
    ∃ made outputs, t'.calls = t.calls ++ made ∧ made.map Call.step = group ∧
      made.map Call.output? = outputs.map some ∧ t'.allOutputs = t.allOutputs ++ outputs := by
  rw [runFanOut] at h
  rcases hprepare : run (prepare w group) t with ⟨e | ps, s⟩
  · rw [run_bind_of_error hprepare] at h
    cases h
  · obtain ⟨rfl, hsteps⟩ := prepare_eq_ok hprepare
    rw [run_bind_of_ok hprepare, run_bind_of_ok (run_joinAll ps s)] at h
    obtain ⟨hcalls, outputs, hanswers, houtputs⟩ := takeResults_eq_ok h
    refine ⟨_, outputs, hcalls, ?_, hanswers, houtputs⟩
    have hstep : Call.step ∘ callOf = Prepared.step ∘ (Prod.fst : Prepared α × Answer → _) := rfl
    rw [List.map_map, hstep, ← List.map_map, map_fst_answersOf, hsteps]

/-! ### A group at the beginning -/

theorem filterMap_eq_of_map {β γ : Type} {f : β → Option γ} {l : List β} {out : List γ}
    (h : l.map f = out.map some) : l.filterMap f = out := by
  have hid : l.filterMap f = (l.map f).filterMap id := by simp
  rw [hid, h]
  simp

/-- The last calls are those of the group, and its outputs come behind the ones before. -/
theorem outputs_of_fanOut {group : List WorkflowStep} (hall : ∀ other ∈ group, other.mode = .fanOut)
    (h : run (executeSteps w runId group) t = (.ok (), t')) :
    t'.allOutputs = t.allOutputs ++ (t'.calls.rtake group.length).filterMap Call.output? ∧
      ((t'.calls.rtake group.length).filterMap Call.output?).length = group.length := by
  cases group with
  | nil =>
    rw [executeSteps] at h
    cases h
    simp
  | cons step rest =>
    have hrest : ∀ other ∈ rest, other.isFanOut = true := fun other hother =>
      decide_eq_true (hall other (List.mem_cons_of_mem _ hother))
    rw [executeSteps, hall step List.mem_cons_self] at h
    simp only [List.takeWhile_eq_self_iff.2 hrest, List.dropWhile_eq_nil_iff.2 hrest] at h
    rcases hrun : run (runFanOut w runId (step :: rest)) t with ⟨e | v, s⟩
    · rw [run_bind_of_error hrun] at h
      cases h
    · rw [run_bind_of_ok hrun, executeSteps] at h
      cases h
      obtain ⟨made, outputs, hcalls, hsteps, hanswers, houtputs⟩ := runFanOut_eq_ok hrun
      have hmade : made.length = (step :: rest).length := by rw [← hsteps, List.length_map]
      have hlength : outputs.length = made.length := by
        simpa using (congrArg List.length hanswers).symm
      have htake : (t'.calls.rtake (step :: rest).length).filterMap Call.output? = outputs := by
        rw [hcalls, List.rtake, List.length_append, hmade, Nat.add_sub_cancel, List.drop_left]
        exact filterMap_eq_of_map hanswers
      rw [htake]
      exact ⟨houtputs, hlength.trans hmade⟩

theorem lastGroup_of_fanOut (hall : ∀ other ∈ before, other.mode = .fanOut) :
    lastGroup before = before :=
  List.rtakeWhile_eq_self_iff.2 fun other hother => decide_eq_true (hall other hother)

/-! ### Steps that say nothing -/

/-- The outputs so far are one empty text, and so is the current input. -/
def Blank (t : Execution ι α) : Prop := t.allOutputs = [""] ∧ t.currentInput = ""

theorem executeSteps_blank (w : World α) (runId : ι)
    (hquiet : ∀ step ∈ steps, step.isQuiet w.toLowercase = true) (hblank : Blank t) :
    ∃ t', run (executeSteps w runId steps) t = (.ok (), t') ∧ Blank t' := by
  induction steps generalizing t with
  | nil => exact ⟨t, by rw [executeSteps, run_pure], hblank⟩
  | cons step rest ih =>
    have hstep := hquiet step List.mem_cons_self
    have hrest : ∀ other ∈ rest, other.isQuiet w.toLowercase = true := fun other hother =>
      hquiet other (List.mem_cons_of_mem _ hother)
    rw [executeSteps]
    unfold WorkflowStep.isQuiet at hstep
    split
    · rename_i hmode
      simp [hmode] at hstep
    · rename_i hmode
      simp [hmode] at hstep
    · -- the outputs so far, joined, are the empty text again
      obtain ⟨vars, hrun⟩ := run_runCollect step t
      rw [run_bind_of_ok hrun]
      refine ih hrest ⟨?_, ?_⟩
      · rw [hblank.1, String.intercalate_singleton]
      · rw [hblank.1, String.intercalate_singleton]
    · rename_i condition hmode
      rw [hmode] at hstep
      have hskip : run (runConditional w runId step condition) t = (.ok (), t) := by
        rw [runConditional, run_get_bind, hblank.2, if_neg (by simpa using hstep), run_pure]
      rw [run_bind_of_ok hskip]
      exact ih hrest hblank
    · rename_i hmode
      simp [hmode] at hstep

theorem executeSteps_idle (w : World α) (runId : ι) (hidle : Idle w.toLowercase before)
    (hempty : t.allOutputs = []) :
    ∃ t', run (executeSteps w runId before) t = (.ok (), t') ∧ Blank t' := by
  obtain ⟨first, rest, rfl, hmode, hquiet⟩ := hidle
  obtain ⟨vars, hrun⟩ := run_runCollect first t
  rw [executeSteps, hmode, run_bind_of_ok hrun, hempty]
  exact executeSteps_blank w runId hquiet ⟨rfl, rfl⟩

theorem lastGroup_idle {toLowercase : String → String} (hidle : Idle toLowercase before) :
    lastGroup before = [] := by
  obtain ⟨first, rest, rfl, hmode, hquiet⟩ := hidle
  refine List.rtakeWhile_eq_nil_iff.2 fun hne hlast => ?_
  have hfanOut : ((first :: rest).getLast hne).mode = .fanOut := of_decide_eq_true hlast
  rcases List.mem_cons.1 (List.getLast_mem hne) with heq | hmem
  · rw [heq, hmode] at hfanOut
    cases hfanOut
  · have hstep := hquiet _ hmem
    rw [WorkflowStep.isQuiet, hfanOut] at hstep
    cases hstep

/-- Where the `Collect` steps come first, each hands on the outputs of the group before it. -/
theorem collectsGroups_of_collectsFirst (w : World α) (runId : ι)
    (hfirst : CollectsFirst w.toLowercase steps) (hempty : t.allOutputs = []) :
    CollectsGroups w runId steps t := by
  intro before step after heq hmode t' hrun
  rw [handedOn_eq]
  rcases hfirst before step after heq hmode with hall | hidle
  · rw [(outputs_of_fanOut hall hrun).1, hempty, groupOutputs, lastGroup_of_fanOut hall,
      List.nil_append]
  · obtain ⟨s, hrun', hblank⟩ := executeSteps_idle w runId hidle hempty
    rw [hrun'] at hrun
    cases hrun
    rw [hblank.1, groupOutputs, lastGroup_idle hidle]
    simp

/-! ### Agents that answer -/

/-- Agents that answer each prompt. -/
def answering [Inhabited α] (toLowercase : String → String) : World α where
  toLowercase := toLowercase
  showId _ := ""
  resolve _ := some (default, "agent")
  send _ _ _ := .reply ⟨"done", 0, 0⟩
  now _ := 0

/-- A property of the outputs that further outputs keep, and a `Collect` step too. -/
structure Lasting (Q : List String → Prop) : Prop where
  append : ∀ outputs more, Q outputs → Q (outputs ++ more)
  collect : ∀ outputs, Q outputs → Q [separator.intercalate outputs]

theorem lasting_ne_nil : Lasting fun outputs => outputs ≠ [] where
  append _ _ h := List.append_ne_nil_of_left_ne_nil h _
  collect _ _ := List.cons_ne_nil _ _

theorem lasting_says : Lasting fun outputs => separator.intercalate outputs ≠ "" where
  append outputs more h := by
    have houtputs : outputs ≠ [] := by
      rintro rfl
      exact h String.intercalate_nil
    by_cases hmore : more = []
    · rw [hmore, List.append_nil]
      exact h
    · rw [String.intercalate_append_of_ne_nil houtputs hmore]
      exact separator_append_ne _ _
  collect outputs h := by
    rw [String.intercalate_singleton]
    exact h

variable [Inhabited α] (runId) (toLowercase : String → String) {Q : List String → Prop}

omit [DecidableEq ι] in
theorem executeStepWithErrorMode_answered (step : WorkflowStep) (agent : α) (prompt : String)
    (t : Execution ι α) :
    ∃ t', run (executeStepWithErrorMode (answering toLowercase) step agent prompt) t =
      (.ok (.ok (some ⟨"done", 0, 0⟩)), t') ∧
        t'.allOutputs = t.allOutputs ∧ t'.currentInput = t.currentInput := by
  unfold executeStepWithErrorMode
  cases step.errorMode with
  | fail => exact ⟨_, rfl, rfl, rfl⟩
  | skip => exact ⟨_, rfl, rfl, rfl⟩
  | retry maxRetries => exact ⟨_, rfl, rfl, rfl⟩

theorem runSequential_answered (step : WorkflowStep) (t : Execution ι α) :
    ∃ t', run (runSequential (answering toLowercase) runId step) t = (.ok (), t') ∧
      t'.allOutputs = t.allOutputs ++ ["done"] := by
  have hagent : run (resolveAgent (answering toLowercase) step) t =
      (.ok ((default : α), "agent"), t) := rfl
  obtain ⟨s, hrun, houtputs, -⟩ :=
    executeStepWithErrorMode_answered toLowercase step (default : α) (promptOf step t) t
  obtain ⟨t', hkeep, -, houtputs', -⟩ := run_keepReply (answering toLowercase) runId step
    ((default : α), "agent") ⟨"done", 0, 0⟩ s
  refine ⟨t', ?_, by rw [houtputs', houtputs]⟩
  rw [runSequential, run_bind_of_ok hagent, run_get_bind, run_bind_of_ok hrun]
  exact hkeep

theorem runConditional_answered (step : WorkflowStep) (condition : String) (t : Execution ι α) :
    ∃ t' more, run (runConditional (answering toLowercase) runId step condition) t =
        (.ok (), t') ∧ t'.allOutputs = t.allOutputs ++ more ∧
      (Text.containsText (toLowercase t.currentInput) (toLowercase condition) = true →
        more = ["done"]) := by
  rw [runConditional, run_get_bind]
  show ∃ t' more, run (if Text.containsText (toLowercase t.currentInput)
    (toLowercase condition) = true then _ else _) t = _ ∧ _ ∧ _
  split_ifs with hmet
  · obtain ⟨t', hrun, houtputs⟩ := runSequential_answered runId toLowercase step t
    exact ⟨t', ["done"], hrun, houtputs, fun _ => rfl⟩
  · exact ⟨t, [], rfl, (List.append_nil _).symm, fun h => absurd h hmet⟩

/-- The rounds of a loop leave the outputs as they are, and no empty input if there was one. -/
theorem iterate_answered (step : WorkflowStep) (agent : α × String) (maxIterations : ℕ)
    (untilLower : String) (left : ℕ) (t : Execution ι α) :
    ∃ t', run (iterate (answering toLowercase) runId step agent maxIterations untilLower left) t =
        (.ok (), t') ∧ t'.allOutputs = t.allOutputs ∧
      (t.currentInput ≠ "" → t'.currentInput ≠ "") := by
  induction left generalizing t with
  | zero => exact ⟨t, rfl, rfl, id⟩
  | succ left ih =>
    obtain ⟨s, hrun, houtputs, -⟩ :=
      executeStepWithErrorMode_answered toLowercase step agent.1 (promptOf step t) t
    obtain ⟨engine, hpush⟩ := run_pushResult runId (resultOf (answering toLowercase)
      (step.name ++ " (iter " ++ toString (maxIterations - left) ++ ")") agent ⟨"done", 0, 0⟩) s
    let next : Execution ι α := { s with engine := engine, currentInput := "done" }
    have hnext : run (iterate (answering toLowercase) runId step agent maxIterations untilLower
        (left + 1)) t = run (if untilLower ≠ "" ∧
          Text.containsText (toLowercase "done") untilLower = true then pure ()
        else iterate (answering toLowercase) runId step agent maxIterations untilLower left)
          next := by
      rw [iterate, run_get_bind, run_bind_of_ok hrun]
      exact run_bind_of_ok hpush
    have hinput : next.currentInput ≠ "" := show "done" ≠ "" by decide
    rw [hnext]
    split_ifs with huntil
    · exact ⟨next, rfl, houtputs, fun _ => hinput⟩
    · obtain ⟨t', hrun', houtputs', hkeeps⟩ := ih next
      exact ⟨t', hrun', houtputs'.trans houtputs, fun _ => hkeeps hinput⟩

theorem runLoop_answered (step : WorkflowStep) (maxIterations : ℕ) (untilText : String)
    (t : Execution ι α) :
    ∃ t' output, run (runLoop (answering toLowercase) runId step maxIterations untilText) t =
        (.ok (), t') ∧ t'.allOutputs = t.allOutputs ++ [output] ∧
      (t.currentInput ≠ "" → output ≠ "") := by
  have hagent : run (resolveAgent (answering toLowercase) step) t =
      (.ok ((default : α), "agent"), t) := rfl
  obtain ⟨s, hrun, houtputs, hinput⟩ := iterate_answered runId toLowercase step
    ((default : α), "agent") maxIterations (toLowercase untilText) maxIterations t
  obtain ⟨vars, hvars⟩ := run_setVar step.outputVar s.currentInput s
  refine ⟨{ s with vars := vars, allOutputs := s.allOutputs ++ [s.currentInput] },
    s.currentInput, ?_, by rw [houtputs], hinput⟩
  rw [runLoop, run_bind_of_ok hagent]
  show run (iterate (answering toLowercase) runId step _ maxIterations (toLowercase untilText)
    maxIterations >>= _) t = _
  rw [run_bind_of_ok hrun, run_get_bind, run_bind_of_ok hvars]
  rfl

omit [DecidableEq ι] in
theorem prepare_answered (group : List WorkflowStep) (t : Execution ι α) :
    ∃ ps, run (prepare (answering toLowercase) group) t = (.ok ps, t) := by
  induction group with
  | nil => exact ⟨[], rfl⟩
  | cons step group ih =>
    obtain ⟨ps, hrun⟩ := ih
    have hagent : run (resolveAgent (answering toLowercase) step) t =
        (.ok ((default : α), "agent"), t) := rfl
    refine ⟨⟨step, (default, "agent"), promptOf step t⟩ :: ps, ?_⟩
    rw [prepare, run_bind_of_ok hagent, run_get_bind, run_bind_of_ok hrun, run_pure]

theorem answersOf_answering (n : ℕ) (ps : List (Prepared α)) :
    answersOf (answering toLowercase) n ps = ps.map repliedTo := by
  induction ps generalizing n with
  | nil => rfl
  | cons p ps ih =>
    rw [answersOf, ih, List.map_cons]
    rfl

theorem runFanOut_answered (step : WorkflowStep) (rest : List WorkflowStep) (t : Execution ι α) :
    ∃ t' more, run (runFanOut (answering toLowercase) runId (step :: rest)) t = (.ok (), t') ∧
      t'.allOutputs = t.allOutputs ++ "done" :: more := by
  obtain ⟨ps, hprepare⟩ := prepare_answered toLowercase (step :: rest) t
  obtain ⟨-, hsteps⟩ := prepare_eq_ok hprepare
  have hsilent : Silent (takeResults (answering toLowercase) runId (ps.map repliedTo) :
      Run ι α Unit) := silent_takeResults ps
  obtain ⟨v, t', htake, -⟩ :=
    hsilent { t with calls := t.calls ++ (ps.map repliedTo).map callOf }
  have hrun : run (runFanOut (answering toLowercase) runId (step :: rest)) t = (.ok (), t') := by
    rw [runFanOut, run_bind_of_ok hprepare, run_bind_of_ok (run_joinAll ps t),
      answersOf_answering]
    exact htake
  obtain ⟨-, outputs, hanswers, houtputs⟩ := takeResults_eq_ok htake
  cases ps with
  | nil => cases hsteps
  | cons p ps =>
    cases outputs with
    | nil => cases hanswers
    | cons output more =>
      rw [List.map_cons, List.map_cons, List.map_cons, List.map_cons, List.cons.injEq] at hanswers
      have houtput : output = "done" := (Option.some.inj hanswers.1).symm
      exact ⟨t', more, hrun, by rw [houtputs, houtput]⟩

/-- A lasting property stays to the end of a run. -/
theorem executeSteps_lasting (hQ : Lasting Q) (steps : List WorkflowStep) (t : Execution ι α)
    (ht : Q t.allOutputs) :
    ∃ t', run (executeSteps (answering toLowercase) runId steps) t = (.ok (), t') ∧
      Q t'.allOutputs := by
  induction steps using executeSteps.induct generalizing t with
  | case1 => exact ⟨t, by rw [executeSteps, run_pure], ht⟩
  | case2 step steps hmode ih =>
    obtain ⟨s, hrun, houtputs⟩ := runSequential_answered runId toLowercase step t
    rw [executeSteps, hmode, run_bind_of_ok hrun]
    exact ih s (houtputs ▸ hQ.append _ _ ht)
  | case3 step steps hmode ih =>
    obtain ⟨s, more, hrun, houtputs⟩ :=
      runFanOut_answered runId toLowercase step (steps.takeWhile WorkflowStep.isFanOut) t
    rw [executeSteps, hmode, run_bind_of_ok hrun]
    exact ih s (houtputs ▸ hQ.append _ _ ht)
  | case4 step steps hmode ih =>
    obtain ⟨vars, hrun⟩ := run_runCollect step t
    rw [executeSteps, hmode, run_bind_of_ok hrun]
    exact ih _ (hQ.collect _ ht)
  | case5 step steps condition hmode ih =>
    obtain ⟨s, more, hrun, houtputs, -⟩ :=
      runConditional_answered runId toLowercase step condition t
    rw [executeSteps, hmode, run_bind_of_ok hrun]
    exact ih s (houtputs ▸ hQ.append _ _ ht)
  | case6 step steps maxIterations untilText hmode ih =>
    obtain ⟨s, output, hrun, houtputs, -⟩ :=
      runLoop_answered runId toLowercase step maxIterations untilText t
    rw [executeSteps, hmode, run_bind_of_ok hrun]
    exact ih s (houtputs ▸ hQ.append _ _ ht)

/-- An output comes of the step, and not only an empty one. -/
def Speaks (toLowercase : String → String) (step : WorkflowStep) (t : Execution ι α) : Prop :=
  match step.mode with
  | .collect => False
  | .conditional condition =>
    Text.containsText (toLowercase t.currentInput) (toLowercase condition) = true
  | .loop _ _ => t.allOutputs ≠ [] ∨ t.currentInput ≠ ""
  | _ => True

/-- What a step has said stays to the end of a run. -/
theorem executeSteps_says {rest : List WorkflowStep} (hspeaks : Speaks toLowercase step t) :
    ∃ t', run (executeSteps (answering toLowercase) runId (step :: rest)) t = (.ok (), t') ∧
      separator.intercalate t'.allOutputs ≠ "" := by
  have hdone : separator.intercalate (t.allOutputs ++ ["done"]) ≠ "" :=
    intercalate_concat_ne (Or.inr (by decide))
  rw [executeSteps]
  unfold Speaks at hspeaks
  split
  · obtain ⟨s, hrun, houtputs⟩ := runSequential_answered runId toLowercase step t
    rw [run_bind_of_ok hrun]
    exact executeSteps_lasting runId toLowercase lasting_says _ s (houtputs ▸ hdone)
  · obtain ⟨s, more, hrun, houtputs⟩ :=
      runFanOut_answered runId toLowercase step (rest.takeWhile WorkflowStep.isFanOut) t
    rw [run_bind_of_ok hrun]
    refine executeSteps_lasting runId toLowercase lasting_says _ s ?_
    rw [houtputs, List.append_cons]
    exact lasting_says.append _ _ hdone
  · rename_i hmode
    simp [hmode] at hspeaks
  · rename_i condition hmode
    simp only [hmode] at hspeaks
    obtain ⟨s, more, hrun, houtputs, hmore⟩ :=
      runConditional_answered runId toLowercase step condition t
    rw [run_bind_of_ok hrun]
    refine executeSteps_lasting runId toLowercase lasting_says _ s ?_
    rw [houtputs, hmore hspeaks]
    exact hdone
  · rename_i maxIterations untilText hmode
    simp only [hmode] at hspeaks
    obtain ⟨s, output, hrun, houtputs, houtput⟩ :=
      runLoop_answered runId toLowercase step maxIterations untilText t
    rw [run_bind_of_ok hrun]
    refine executeSteps_lasting runId toLowercase lasting_says _ s ?_
    rw [houtputs]
    exact intercalate_concat_ne (hspeaks.imp_right houtput)

/-! ### A `Collect` step that hands on more -/

/-- An input with which a first step has something to say. -/
def inputFor (step : WorkflowStep) : String :=
  match step.mode with
  | .conditional condition => condition
  | _ => "go"

variable {toLowercase} in
omit [DecidableEq ι] [Inhabited α] in
theorem speaks_inputFor (hmode : step.mode ≠ .collect) (hinput : t.currentInput = inputFor step) :
    Speaks toLowercase step t := by
  unfold Speaks
  unfold inputFor at hinput
  split
  · rename_i hcollect
    exact hmode hcollect
  · rename_i condition hconditional
    rw [hconditional] at hinput
    rw [hinput, Text.containsText]
    exact decide_eq_true (List.infix_refl _)
  · rename_i hloop
    rw [hloop] at hinput
    have hgo : t.currentInput ≠ "" := by
      rw [hinput]
      exact show "go" ≠ "" by decide
    exact Or.inr hgo
  · trivial

variable {toLowercase} in
omit [DecidableEq ι] [Inhabited α] in
/-- A step that is not quiet has something to say after an empty text. -/
theorem speaks_of_blank (hloud : step.isQuiet toLowercase = false) (hblank : Blank t) :
    Speaks toLowercase step t := by
  unfold Speaks
  unfold WorkflowStep.isQuiet at hloud
  split
  · rename_i hmode
    simp [hmode] at hloud
  · rename_i condition hmode
    rw [hmode] at hloud
    rw [hblank.2]
    simpa using hloud
  · rw [hblank.1]
    exact Or.inl (List.cons_ne_nil _ _)
  · trivial

/-- Steps that are not idle say something, with the right input. -/
theorem executeSteps_loud {first : WorkflowStep} {rest : List WorkflowStep}
    (hidle : ¬ Idle toLowercase (first :: rest)) (hempty : t.allOutputs = [])
    (hinput : t.currentInput = inputFor first) :
    ∃ t', run (executeSteps (answering toLowercase) runId (first :: rest)) t = (.ok (), t') ∧
      separator.intercalate t'.allOutputs ≠ "" := by
  by_cases hmode : first.mode = .collect
  · let quiet := rest.takeWhile (WorkflowStep.isQuiet toLowercase)
    -- the first step that is not quiet
    cases hloud : rest.dropWhile (WorkflowStep.isQuiet toLowercase) with
    | nil => exact absurd ⟨first, rest, rfl, hmode, List.dropWhile_eq_nil_iff.1 hloud⟩ hidle
    | cons loud after =>
      have hsplit : first :: rest = (first :: quiet) ++ loud :: after := by
        rw [List.cons_append, ← hloud, List.takeWhile_append_dropWhile]
      have hquiet : Idle toLowercase (first :: quiet) :=
        ⟨first, quiet, rfl, hmode, fun step hstep => List.mem_takeWhile_imp hstep⟩
      have hapart : Apart (first :: quiet) (loud :: after) := by
        intro last hlast _ _ hboth
        have hgroup := List.rtakeWhile_eq_nil_iff.1 (lastGroup_idle hquiet) (List.cons_ne_nil _ _)
        rw [List.getLast?_eq_some_getLast (List.cons_ne_nil _ _)] at hlast
        cases hlast
        exact hgroup hboth.1
      have hnot : loud.isQuiet toLowercase = false := by
        have hhead := List.head?_dropWhile_not (WorkflowStep.isQuiet toLowercase) rest
        rw [hloud] at hhead
        simpa using hhead
      obtain ⟨s, hrun, hblank⟩ :=
        executeSteps_idle (answering toLowercase) runId hquiet hempty
      rw [hsplit, executeSteps_append hapart, run_bind_of_ok hrun]
      exact executeSteps_says runId toLowercase (speaks_of_blank hnot hblank)
  · exact executeSteps_says runId toLowercase (speaks_inputFor hmode hinput)

/-- Any steps leave an output, with the right input. -/
theorem executeSteps_heard {first : WorkflowStep} {rest : List WorkflowStep}
    (hinput : t.currentInput = inputFor first) :
    ∃ t', run (executeSteps (answering toLowercase) runId (first :: rest)) t = (.ok (), t') ∧
      t'.allOutputs ≠ [] := by
  by_cases hmode : first.mode = .collect
  · obtain ⟨vars, hrun⟩ := run_runCollect first t
    rw [executeSteps, hmode, run_bind_of_ok hrun]
    exact executeSteps_lasting runId toLowercase lasting_ne_nil _ _ (List.cons_ne_nil _ _)
  · obtain ⟨t', hrun, hsays⟩ := executeSteps_says runId toLowercase (speaks_inputFor hmode hinput)
    refine ⟨t', hrun, ?_⟩
    intro hnil
    rw [hnil, String.intercalate_nil] at hsays
    exact hsays rfl

/-- Steps with something else before their last group leave more than the outputs of the group. -/
theorem exists_more {first : WorkflowStep} {rest : List WorkflowStep}
    (hall : ¬ ∀ other ∈ first :: rest, other.mode = .fanOut)
    (hidle : ¬ Idle toLowercase (first :: rest)) (hempty : t.allOutputs = [])
    (hinput : t.currentInput = inputFor first) :
    ∃ t', run (executeSteps (answering toLowercase) runId (first :: rest)) t = (.ok (), t') ∧
      separator.intercalate t'.allOutputs ≠
        separator.intercalate (groupOutputs (first :: rest) t'.calls) := by
  by_cases hgroup : lastGroup (first :: rest) = []
  · obtain ⟨t', hrun, hsays⟩ := executeSteps_loud runId toLowercase hidle hempty hinput
    refine ⟨t', hrun, ?_⟩
    rw [groupOutputs, hgroup]
    simpa using hsays
  · let others := (first :: rest).rdropWhile WorkflowStep.isFanOut
    have hsplit : others ++ lastGroup (first :: rest) = first :: rest :=
      List.rdropWhile_append_rtakeWhile
    have hothers : others ≠ [] := by
      intro hnil
      exact hall fun other hother =>
        of_decide_eq_true (List.rdropWhile_eq_nil_iff.1 hnil other hother)
    have hapart : Apart others (lastGroup (first :: rest)) := by
      intro last hlast _ _ hboth
      rw [List.getLast?_eq_some_getLast hothers] at hlast
      cases hlast
      exact List.rdropWhile_last_not _ _ hothers hboth.1
    have hfanOut : ∀ other ∈ lastGroup (first :: rest), other.mode = .fanOut :=
      fun other hother => of_decide_eq_true
        (List.mem_rtakeWhile_imp (p := WorkflowStep.isFanOut) hother)
    obtain ⟨head, tail, hhead⟩ := List.exists_cons_of_ne_nil hothers
    have hfirst : head = first := by
      rw [hhead] at hsplit
      exact (List.cons.inj hsplit).1
    obtain ⟨s, hrun, hheard⟩ := executeSteps_heard runId toLowercase
      (hinput.trans (congrArg inputFor hfirst.symm))
    obtain ⟨t', hrun', -⟩ := executeSteps_lasting runId toLowercase
      lasting_ne_nil (lastGroup (first :: rest)) s hheard
    obtain ⟨houtputs, hlength⟩ := outputs_of_fanOut hfanOut hrun'
    refine ⟨t', ?_, ?_⟩
    · rw [← hsplit, executeSteps_append hapart, hhead, run_bind_of_ok hrun]
      exact hrun'
    · rw [houtputs]
      refine intercalate_append_ne hheard fun hnil => hgroup ?_
      rw [hnil] at hlength
      exact List.length_eq_zero_iff.1 hlength.symm

/-- A run in which a `Collect` step hands on more than it should, if there may be one. -/
theorem collectsFirst_of_collectsGroups {workflow : Workflow ι} {toLowercase : String → String}
    (hgroups : ∀ (w : World α), w.toLowercase = toLowercase →
      ∀ (engine : WorkflowEngine ι) (runId : ι) (r : WorkflowRun ι),
        Found engine runId workflow r →
        CollectsGroups w runId workflow.steps (begun engine r)) :
    CollectsFirst toLowercase workflow.steps := by
  intro before step after heq hmode
  cases before with
  | nil => exact Or.inl fun other hother => absurd hother List.not_mem_nil
  | cons first rest =>
    by_contra hnot
    rw [not_or] at hnot
    let r : WorkflowRun ι :=
      { id := workflow.id, workflowId := workflow.id, workflowName := workflow.name
        input := inputFor first, startedAt := 0 }
    have hfound : Found ⟨[workflow], [r]⟩ workflow.id workflow r :=
      ⟨by simp [Table.lookup, r], by simp [Table.lookup, r]⟩
    obtain ⟨t, hrun, hmore⟩ := exists_more (α := α) workflow.id toLowercase
      (t := begun ⟨[workflow], [r]⟩ r) hnot.1 hnot.2 rfl rfl
    refine hmore ?_
    rw [← handedOn_eq step]
    exact hgroups (answering toLowercase) rfl _ _ _ hfound _ step after heq hmode t hrun

/-! ### A step before the group -/

/-- A step, for an agent that is called with the input. -/
def stepNamed (name : String) (mode : StepMode) : WorkflowStep where
  name := name
  agent := .byName "agent"
  promptTemplate := "\x7b\x7binput\x7d\x7d"
  mode := mode

/-- A survey of two agents after a plan. -/
def plannedSurvey : Workflow ℕ :=
  ⟨2, "planned", [stepNamed "plan" .sequential, stepNamed "first" .fanOut,
    stepNamed "second" .fanOut, stepNamed "collect" .collect]⟩

/-- The plan is collected with the answers. -/
theorem plannedSurvey_collects_more :
    ¬ ∀ (workflow : Workflow ℕ) (w : World ℕ) (engine : WorkflowEngine ℕ) (runId : ℕ)
      (r : WorkflowRun ℕ), Found engine runId workflow r →
      CollectsGroups w runId workflow.steps (begun engine r) := by
  intro hall
  have hfound : Found ⟨[plannedSurvey], [surveyRun]⟩ 1 plannedSurvey surveyRun := ⟨rfl, rfl⟩
  have hsteps : (executeSteps (answering id) 1 [stepNamed "plan" .sequential,
      stepNamed "first" .fanOut, stepNamed "second" .fanOut] : Run ℕ ℕ Unit) =
      runSequential (answering id) 1 (stepNamed "plan" .sequential) >>= fun _ =>
        runFanOut (answering id) 1 [stepNamed "first" .fanOut, stepNamed "second" .fanOut] >>=
          fun _ => pure () := by
    simp [executeSteps, stepNamed, WorkflowStep.isFanOut]
  have hrun : ∃ t, run (executeSteps (answering id : World ℕ) 1 [stepNamed "plan" .sequential,
      stepNamed "first" .fanOut, stepNamed "second" .fanOut])
        (begun ⟨[plannedSurvey], [surveyRun]⟩ surveyRun) = (.ok (), t) ∧
      t.allOutputs = ["done"] ++ ["done", "done"] ∧
      groupOutputs [stepNamed "plan" .sequential, stepNamed "first" .fanOut,
        stepNamed "second" .fanOut] t.calls = ["done", "done"] := by
    rw [hsteps]
    exact ⟨_, rfl, rfl, rfl⟩
  obtain ⟨t, hrun, houtputs, hgroup⟩ := hrun
  have hcollected := hall plannedSurvey (answering id) _ 1 _ hfound _
    (stepNamed "collect" .collect) [] rfl rfl t hrun
  rw [handedOn_eq, houtputs, hgroup] at hcollected
  exact intercalate_append_ne (List.cons_ne_nil _ _) (List.cons_ne_nil _ _) hcollected

/-- The `Collect` steps of all runs of a workflow hand on the outputs of the group before them, and
nothing else, if and only if nothing comes before that group, or nothing that says anything. -/
theorem collectsGroups_iff (toLowercase : String → String) (workflow : Workflow ι) :
    (∀ (w : World α), w.toLowercase = toLowercase →
      ∀ (engine : WorkflowEngine ι) (runId : ι) (r : WorkflowRun ι),
        Found engine runId workflow r →
        CollectsGroups w runId workflow.steps (begun engine r)) ↔
    CollectsFirst toLowercase workflow.steps := by
  refine ⟨collectsFirst_of_collectsGroups, fun hfirst w hw engine runId r _ => ?_⟩
  subst hw
  exact collectsGroups_of_collectsFirst w runId hfirst rfl

end Workflows
end RustyHand
