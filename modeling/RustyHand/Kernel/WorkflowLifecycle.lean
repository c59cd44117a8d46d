import RustyHand.Kernel.WorkflowPhases

/-!
# The life of a workflow run

What `execute_run` of `rusty-hand-kernel/src/workflow.rs` leaves of a run, whatever the agents
answer and others do in between, and what `create_run` evicts.

* `Stage`, `AtStage`: how far a run is, and what is recorded of it then;
* `Elsewhere`: what others do while a future awaits;
* `keeps_executeRun`: what comes out of a run is recorded;
* `Recorded`, `Evicts`;
* `run_lifecycle`.
-/

namespace RustyHand
namespace WorkflowLifecycle

open Workflows (Answer Execution RunError StepResult Workflow WorkflowRun WorkflowStep World)
open WorkflowPhases (Spares failedWith_id mem_toRemove unique_evictOldest)
open Awaits WorkflowAwaits WorkflowParts

variable {ι α β : Type} [DecidableEq ι]

/-! ### What is recorded of a run -/

/-- How far a future of `execute_run` is. -/
inductive Stage
  /-- It has not looked at its run. -/
  | unread
  /-- Its run is not there. -/
  | absent
  /-- Its run is there, in whatever state. -/
  | found
  | running
  | completed (output : String)
  | failed

/-- A run that has failed, with its error and its end. -/
def HasFailed (r : WorkflowRun ι) : Prop :=
  r.state = .failed ∧ r.error.isSome = true ∧ r.completedAt.isSome = true

/-- What is recorded of a run. -/
def AtStage (runId : ι) : Stage → Execution ι α → Prop
  | .unread, _ => True
  | .absent, t => Table.lookup WorkflowRun.id runId t.engine.runs = none
  | .found, t => ∃ r, Table.lookup WorkflowRun.id runId t.engine.runs = some r
  | .running, t => ∃ r, Table.lookup WorkflowRun.id runId t.engine.runs = some r ∧
      r.state = .running
  | .completed output, t => ∃ r, Table.lookup WorkflowRun.id runId t.engine.runs = some r ∧
      r.state = .completed ∧ r.output = some output
  | .failed, t => ∀ r, Table.lookup WorkflowRun.id runId t.engine.runs = some r → HasFailed r

/-- A future does not await where it has found its run, nor when its run is completed. -/
def Awaiting : Stage → AwaitPoint → Prop
  | .found, _ => False
  | .completed _, _ => False
  | _, _ => True

/-- What others do while a future awaits.  They leave what is its own, and its run, but for a run
that is over, which they can evict. -/
structure Elsewhere (runId : ι) (t t' : Execution ι α) : Prop where
  own : t' = { t with engine := t'.engine }
  unique : Table.UniqueKeys WorkflowRun.id t.engine.runs →
    Table.UniqueKeys WorkflowRun.id t'.engine.runs
  run : Table.lookup WorkflowRun.id runId t'.engine.runs =
      Table.lookup WorkflowRun.id runId t.engine.runs ∨
    Table.lookup WorkflowRun.id runId t'.engine.runs = none ∧
      ∃ r, Table.lookup WorkflowRun.id runId t.engine.runs = some r ∧ isOver r = true

theorem Elsewhere.refl (runId : ι) (t : Execution ι α) : Elsewhere runId t t :=
  ⟨rfl, id, .inl rfl⟩

theorem Elsewhere.trans {runId : ι} {t t' t'' : Execution ι α} (h : Elsewhere runId t t')
    (h' : Elsewhere runId t' t'') : Elsewhere runId t t'' where
  own := by rw [h'.own, h.own]
  unique := fun hunique => h'.unique (h.unique hunique)
  run := by
    rcases h'.run with heq' | ⟨hnone, r, hr, hover⟩
    · rw [heq']
      exact h.run
    · rcases h.run with heq | ⟨hgone, -⟩
      · exact .inr ⟨hnone, r, heq ▸ hr, hover⟩
      · rw [hgone] at hr
        cases hr

/-- What is recorded of a run stays recorded, while its future awaits. -/
theorem AtStage.elsewhere {runId : ι} {i : Stage} {point : AwaitPoint} {t t' : Execution ι α}
    (hawaiting : Awaiting i point) (h : AtStage runId i t) (hothers : Elsewhere runId t t') :
    AtStage runId i t' := by
  cases i with
  | unread => trivial
  | found => exact hawaiting.elim
  | completed output => exact hawaiting.elim
  | absent =>
    rcases hothers.run with heq | ⟨hnone, -⟩
    · exact heq.trans h
    · exact hnone
  | running =>
    obtain ⟨r, hr, hrunning⟩ := h
    rcases hothers.run with heq | ⟨-, r', hr', hover⟩
    · exact ⟨r, heq.trans hr, hrunning⟩
    · obtain rfl := Option.some.inj (hr.symm.trans hr')
      simp [isOver, hrunning] at hover
  | failed =>
    intro r hr
    rcases hothers.run with heq | ⟨hnone, -⟩
    · exact h r (heq.symm.trans hr)
    · rw [hnone] at hr
      cases hr

/-! ### What a future of `execute_run` keeps -/

/-- A future of a run, and what is recorded of the run by the end. -/
abbrev KeepsStage (runId : ι) (Q : Stage → β → Prop) (E : Stage → RunError → Prop)
    (x : Part ι α β) (i : Stage) : Prop :=
  KeepsFuture (AtStage runId) (fun _ _ => True) Awaiting Q E x i

/-- How far a run is when a part of it fails. -/
def errorStage : RunError → Stage
  | .runNotFound => .absent
  | .stepFailed _ _ => .failed
  | _ => .running

/-- A part of a run that is running. -/
def Runs (runId : ι) (x : Part ι α β) : Prop :=
  KeepsStage runId (fun i _ => i = .running) (fun i e => i = errorStage e) x .running

/-- The run is changed, and what is recorded of it. -/
theorem keeps_modifyRun {i j : Stage} {runId : ι} {Q : Stage → Unit → Prop}
    {E : Stage → RunError → Prop} {point : AwaitPoint} {g : WorkflowRun ι → WorkflowRun ι}
    (hpoint : Awaiting i point)
    (hstage : ∀ t t' : Execution ι α, AtStage runId i t →
      t'.engine.runs = Table.modify WorkflowRun.id runId g t.engine.runs → AtStage runId j t')
    (hQ : Q j ()) : KeepsStage runId Q E (modifyRun point runId g : Part ι α Unit) i :=
  KeepsFuture.pause_bind hpoint
    (KeepsFuture.update (fun t ht => ⟨hstage t _ ht rfl, trivial⟩) hQ)

section Runs

variable {runId : ι} {w : World α}

/-- The run as it is after a change. -/
theorem lookup_of_modify {g : WorkflowRun ι → WorkflowRun ι} {t t' : Execution ι α}
    (hruns : t'.engine.runs = Table.modify WorkflowRun.id runId g t.engine.runs)
    (hid : ∀ r, (g r).id = r.id) :
    Table.lookup WorkflowRun.id runId t'.engine.runs =
      (Table.lookup WorkflowRun.id runId t.engine.runs).map g := by
  rw [hruns, Table.lookup_modify hid]

theorem runs_failStep (step : WorkflowStep) (message : String) :
    Runs runId (failStep w runId step message : Part ι α β) := by
  refine KeepsFuture.look_bind (fun _ => trivial) fun t _ => ?_
  refine KeepsFuture.bind (Q := fun i _ => i = .failed) ?_ fun i _ hi => KeepsFuture.throw hi
  refine keeps_modifyRun (j := .failed) trivial (fun t t' _ hruns r hr => ?_) rfl
  rw [lookup_of_modify hruns fun _ => rfl] at hr
  obtain ⟨r', -, rfl⟩ := Option.map_eq_some_iff.1 hr
  exact ⟨rfl, rfl, rfl⟩

theorem closed_runs (w : World α) (runId : ι) :
    Closed w runId fun β (x : Part ι α β) => Runs runId x where
  pure := fun _ => KeepsFuture.pure rfl
  bind := by
    intro β γ x f hx hf
    refine KeepsFuture.bind hx fun i v hi => ?_
    subst hi
    exact hf v
  look := fun t ht => ⟨.running, ht, trivial, rfl⟩
  update := by
    intro u hu
    refine KeepsFuture.update (j := .running) (fun t ht => ⟨?_, trivial⟩) rfl
    show ∃ r, Table.lookup WorkflowRun.id runId (u t).engine.runs = some r ∧ r.state = .running
    rw [hu]
    exact ht
  pushResult := by
    intro result
    refine keeps_modifyRun trivial (fun t t' ht hruns => ?_) rfl
    obtain ⟨r, hr, hrunning⟩ := ht
    refine ⟨{ r with stepResults := r.stepResults ++ [result] }, ?_, hrunning⟩
    rw [lookup_of_modify hruns fun _ => rfl, hr, Option.map_some]
  noAgent := fun _ => KeepsFuture.throw rfl
  fails := runs_failStep
  sendMessage := fun step attempt agent prompt =>
    KeepsFuture.pause_bind trivial
      (KeepsFuture.ask (j := .running) (fun t ht => ⟨ht, trivial⟩) fun _ => rfl)

theorem keeps_executeRunInner : KeepsStage runId (fun i output => i = .completed output)
    (fun i e => i = errorStage e) (executeRunInner w runId : Part ι α String) .unread := by
  refine KeepsFuture.pause_bind trivial ?_
  refine KeepsFuture.look_bind_exists (fun _ => trivial) fun t _ => ?_
  cases hrun : Table.lookup WorkflowRun.id runId t.engine.runs with
  | none => exact ⟨.absent, hrun, KeepsFuture.throw rfl⟩
  | some run =>
    refine ⟨.found, ⟨run, hrun⟩, ?_⟩
    have hid : ∀ r : WorkflowRun ι, WorkflowRun.id { r with state := .running } = r.id :=
      fun _ => rfl
    refine KeepsFuture.update_bind (j := .running) (fun t ht => ⟨?_, trivial⟩) ?_
    · obtain ⟨r, hr⟩ := ht
      refine ⟨{ r with state := .running }, ?_, rfl⟩
      exact (Table.lookup_modify hid runId _).trans (congrArg _ hr)
    refine KeepsFuture.pause_bind trivial ?_
    refine KeepsFuture.look_bind (fun _ => trivial) fun t _ => ?_
    cases Table.lookup Workflow.id run.workflowId t.engine.workflows with
    | none => exact KeepsFuture.throw rfl
    | some workflow =>
      have hclosed := closed_runs w runId
      refine KeepsFuture.bind (hclosed.setInput run.input) fun i _ hi => ?_
      subst hi
      refine KeepsFuture.bind (hclosed.executeSteps workflow.steps) fun i _ hi => ?_
      subst hi
      refine KeepsFuture.look_bind (fun _ => trivial) fun t _ => ?_
      refine KeepsFuture.bind (Q := fun i _ => i = .completed t.currentInput) ?_
        fun i _ hi => KeepsFuture.pure hi
      refine keeps_modifyRun (j := .completed t.currentInput) trivial (fun t₁ t₂ ht hruns => ?_)
        rfl
      obtain ⟨r, hr, -⟩ := ht
      have hrun := lookup_of_modify hruns fun _ => rfl
      rw [hr, Option.map_some] at hrun
      exact ⟨_, hrun, rfl, rfl⟩

/-- The error of a run is written, unless the step that failed has written it. -/
theorem keeps_finalize (e : RunError) (now : ℤ) :
    KeepsStage runId (fun i _ => i = .absent ∨ i = .failed) (fun _ _ => False)
      (modifyRun (.finalize e) runId (fun r => r.failedWith e.text now) : Part ι α Unit)
      (errorStage e) := by
  have hid : ∀ r : WorkflowRun ι, (r.failedWith e.text now).id = r.id :=
    fun r => failedWith_id r _ _
  have hrunning : ∀ t t' : Execution ι α, AtStage runId .running t →
      t'.engine.runs = Table.modify WorkflowRun.id runId (fun r => r.failedWith e.text now)
        t.engine.runs → AtStage runId .failed t' := by
    rintro t t' ⟨r, hr, hstate⟩ hruns r' hr'
    rw [lookup_of_modify hruns hid, hr] at hr'
    obtain rfl := Option.some.inj hr'
    simp [HasFailed, WorkflowRun.failedWith, hstate]
  cases e with
  | runNotFound =>
    refine keeps_modifyRun (j := .absent) trivial (fun t t' ht hruns => ?_) (.inl rfl)
    exact (lookup_of_modify hruns hid).trans (congrArg _ ht)
  | definitionNotFound => exact keeps_modifyRun trivial hrunning (.inr rfl)
  | agentNotFound step => exact keeps_modifyRun trivial hrunning (.inr rfl)
  | stepFailed step message =>
    refine keeps_modifyRun (j := .failed) trivial (fun t t' ht hruns r hr => ?_) (.inr rfl)
    rw [lookup_of_modify hruns hid] at hr
    obtain ⟨r', hr', rfl⟩ := Option.map_eq_some_iff.1 hr
    have hfailed := ht r' hr'
    simpa [WorkflowRun.failedWith, hfailed.1] using hfailed

/-- Whatever comes out of a run, it is recorded. -/
theorem keeps_executeRun : KeepsStage runId (fun i output => i = .completed output)
    (fun i _ => i = .absent ∨ i = .failed) (executeRun w runId : Part ι α String) .unread := by
  refine KeepsFuture.tryCatch keeps_executeRunInner fun i e hi => ?_
  subst hi
  refine KeepsFuture.look_bind (fun _ => trivial) fun t _ => ?_
  refine KeepsFuture.bind ((keeps_finalize e _).mono (fun _ _ h => h) fun _ _ h => h.elim)
    fun i _ hi => KeepsFuture.throw hi

end Runs

/-! ### Eviction -/

/-- What a `create_run` does to the runs of others: those that are gone were over, and not more are
left than are retained, or active. -/
structure Evicts (runId : ι) (before after : List (WorkflowRun ι)) : Prop where
  onlyOver : ∀ r ∈ before, r.id ≠ runId → r ∉ after → isOver r = true
  bounded : after.length ≤ max maxRetainedRuns (after.countP fun r => !isOver r)

omit [DecidableEq ι] in
theorem take_evictable_subperm (runs : List (WorkflowRun ι)) (n : ℕ) :
    List.Subperm (((runs.filter isOver).insertionSort
      fun r r' => r.startedAt ≤ r'.startedAt).take n) runs :=
  ((List.take_sublist _ _).subperm.trans (List.perm_insertionSort _ _).subperm).trans
    List.filter_sublist.subperm

/-- As many are left as are retained, or all that are not over. -/
theorem length_evictOldest_le (runs : List (WorkflowRun ι)) :
    (evictOldest runs).length ≤ max maxRetainedRuns (runs.countP fun r => !isOver r) := by
  have hremoved : min (runs.length - maxRetainedRuns) (runs.countP isOver) ≤
      runs.countP fun r => (toRemove runs).contains r.id := by
    have hle := (take_evictable_subperm runs (runs.length - maxRetainedRuns)).countP_le
      fun r => (toRemove runs).contains r.id
    rw [List.countP_eq_length.2 fun r hr => ?_] at hle
    · rwa [List.length_take, List.length_insertionSort, ← List.countP_eq_length_filter] at hle
    · rw [List.contains_iff_mem]
      exact List.mem_map_of_mem hr
  have hlength : (evictOldest runs).length +
      (runs.countP fun r => (toRemove runs).contains r.id) = runs.length := by
    have hsplit := runs.length_eq_countP_add_countP fun r => (toRemove runs).contains r.id
    rw [evictOldest, ← List.countP_eq_length_filter, hsplit, add_comm]
    simp
  have hcount : runs.length = runs.countP isOver + runs.countP fun r => !isOver r := by
    rw [runs.length_eq_countP_add_countP isOver]
    simp
  omega

omit [DecidableEq ι] in
/-- A run that is not over is not evicted. -/
theorem not_mem_toRemove {runs : List (WorkflowRun ι)}
    (hunique : Table.UniqueKeys WorkflowRun.id runs) {r : WorkflowRun ι} (hr : r ∈ runs)
    (hactive : isOver r = false) : r.id ∉ toRemove runs := by
  intro hmem
  obtain ⟨r', hr', hid, hover⟩ := mem_toRemove hmem
  rw [Table.UniqueKeys.eq hunique hr' hr hid, hactive] at hover
  cases hover

theorem countP_active_evictOldest {runs : List (WorkflowRun ι)}
    (hunique : Table.UniqueKeys WorkflowRun.id runs) :
    ((evictOldest runs).countP fun r => !isOver r) = runs.countP fun r => !isOver r := by
  rw [evictOldest, List.countP_filter]
  refine List.countP_congr fun r hr => ?_
  cases hactive : isOver r with
  | true => simp
  | false => simp [not_mem_toRemove hunique hr hactive]

theorem evicts_evictOldest {runs : List (WorkflowRun ι)}
    (hunique : Table.UniqueKeys WorkflowRun.id runs) {run : WorkflowRun ι} {runId : ι}
    (hid : run.id = runId) :
    Evicts runId runs (evictOldest (Table.upsert WorkflowRun.id run runs)) := by
  subst hid
  have hupsert : Table.UniqueKeys WorkflowRun.id (Table.upsert WorkflowRun.id run runs) :=
    hunique.upsert
  constructor
  · intro r hr hne hgone
    by_contra hactive
    have hmem : r ∈ Table.upsert WorkflowRun.id run runs := Table.mem_upsert.2 (.inr ⟨hr, hne⟩)
    have hkept := not_mem_toRemove hupsert hmem (Bool.eq_false_iff.2 hactive)
    refine hgone (List.mem_filter.2 ⟨hmem, ?_⟩)
    simpa using hkept
  · rw [countP_active_evictOldest hupsert]
    exact length_evictOldest_le _

/-- A new run is put among the runs as they are when `create_run` has locked them. -/
theorem ends_createRun {w : World α} {runId workflowId id : ι} {input : String}
    {t t' : Execution ι α}
    (hunique : Table.UniqueKeys WorkflowRun.id t.engine.runs)
    (h : Ends (Elsewhere runId) (createRun w runId workflowId input).run t (.ok (some id)) t') :
    ∃ m, Elsewhere runId t m ∧ Evicts runId m.engine.runs t'.engine.runs := by
  obtain ⟨t₁, hlookup, h⟩ := h.of_pause_bind
  have h := h.of_look_bind
  cases hworkflow : Table.lookup Workflow.id workflowId t₁.engine.workflows with
  | none =>
    rw [hworkflow] at h
    obtain ⟨heq, -⟩ := h.of_pure
    cases heq
  | some workflow =>
    rw [hworkflow] at h
    obtain ⟨m, hinsert, h⟩ := h.of_pause_bind
    obtain ⟨-, rfl⟩ := h.of_update_bind.of_pure
    exact ⟨m, hlookup.trans hinsert,
      evicts_evictOldest (hinsert.unique (hlookup.unique hunique)) rfl⟩

/-! ### What is recorded in the end -/

/-- What is recorded of a run when `execute_run` returns: its output, or its error, if the run is
there at all; and it is neither pending nor running. -/
structure Recorded (runId : ι) (result : Except RunError String) (runs : List (WorkflowRun ι)) :
    Prop where
  completed : ∀ output, result = .ok output → ∃ r,
    Table.lookup WorkflowRun.id runId runs = some r ∧ r.state = .completed ∧
      r.output = some output
  failed : ∀ e, result = .error e → ∀ r, Table.lookup WorkflowRun.id runId runs = some r →
    HasFailed r
  ended : ∀ r, Table.lookup WorkflowRun.id runId runs = some r → isOver r = true

theorem recorded_of_completed {runId : ι} {output : String} {t : Execution ι α}
    (h : AtStage runId (.completed output) t) : Recorded runId (.ok output) t.engine.runs := by
  obtain ⟨r, hr, hstate, houtput⟩ := h
  refine ⟨fun output' heq => ?_, nofun, fun r' hr' => ?_⟩
  · obtain rfl := Except.ok.inj heq
    exact ⟨r, hr, hstate, houtput⟩
  · obtain rfl := Option.some.inj (hr.symm.trans hr')
    simp [isOver, hstate]

theorem recorded_of_failed {runId : ι} {e : RunError} {t : Execution ι α}
    (h : ∀ r, Table.lookup WorkflowRun.id runId t.engine.runs = some r → HasFailed r) :
    Recorded runId (.error e) t.engine.runs := by
  refine ⟨nofun, fun _ _ => h, fun r hr => ?_⟩
  simp [isOver, (h r hr).1]

/-- What is recorded when a future of `execute_run` returns, whatever others have done. -/
theorem recorded_of_ends {w : World α} {runId : ι} {result : Except RunError String}
    {t t' : Execution ι α}
    (h : Ends (Elsewhere runId) (executeRun w runId).run t result t') :
    Recorded runId result t'.engine.runs := by
  obtain ⟨i, hi, hresult⟩ := Keeps.ends (fun _ _ _ _ hawaiting => AtStage.elsewhere hawaiting)
    keeps_executeRun (A := AtStage runId) trivial h
  cases result with
  | ok output =>
    obtain rfl : i = .completed output := hresult
    exact recorded_of_completed hi
  | error e =>
    refine recorded_of_failed fun r hr => ?_
    rcases hresult with rfl | rfl
    · rw [show Table.lookup WorkflowRun.id runId t'.engine.runs = none from hi] at hr
      cases hr
    · exact hi r hr

/-- **The life of a run.**  Whatever the workflow is, the agents answer and others do at the awaits,
what `execute_run` returns is recorded of the run, which is over then; and `create_run` evicts only
runs that are over, and leaves no more than are retained, or active. -/
theorem run_lifecycle (w : World α) (runId : ι) :
    (∀ (t t' : Execution ι α) (result : Except RunError String),
      Ends (Elsewhere runId) (executeRun w runId).run t result t' →
      Recorded runId result t'.engine.runs) ∧
    ∀ (workflowId id : ι) (input : String) (t t' : Execution ι α),
      Table.UniqueKeys WorkflowRun.id t.engine.runs →
      Ends (Elsewhere runId) (createRun w runId workflowId input).run t (.ok (some id)) t' →
      ∃ m, Elsewhere runId t m ∧ Evicts runId m.engine.runs t'.engine.runs :=
  ⟨fun _ _ _ h => recorded_of_ends h, fun _ _ _ _ _ hunique h => ends_createRun hunique h⟩

/-- A workflow of one step. -/
def summary : Workflow ℕ where
  id := 0
  name := "summary"
  steps := [{ name := "write", agent := .byName "writer", promptTemplate := "{{input}}"
              mode := .sequential }]

/-- An agent that does not answer in time. -/
def lateWriter : World ℕ where
  toLowercase := id
  showId := toString
  resolve := fun _ => some (0, "writer")
  send := fun _ _ _ => .timedOut
  now := fun _ => 0

/-- An engine with a run that has not begun. -/
def pendingRun : Execution ℕ ℕ where
  engine :=
    { workflows := [summary]
      runs := [{ id := 0, workflowId := 0, workflowName := "summary", input := "news",
                 startedAt := 0 }] }

theorem run_lifecycle_late :
    Recorded 0 ((executeRun lateWriter 0).run.toState pendingRun).1
        ((executeRun lateWriter 0).run.toState pendingRun).2.engine.runs ∧
      ∃ m, Elsewhere 1 pendingRun m ∧ Evicts 1 m.engine.runs
        ((createRun lateWriter 1 0 "sports").run.toState pendingRun).2.engine.runs := by
  constructor
  · exact (run_lifecycle lateWriter 0).1 _ _ _ (Ends.of_toState (Elsewhere.refl 0) _ _)
  · have hcreated : Ends (Elsewhere 1) (createRun lateWriter 1 0 "sports").run pendingRun
        (.ok (some 1)) ((createRun lateWriter 1 0 "sports").run.toState pendingRun).2 :=
      Ends.of_toState (Elsewhere.refl 1) _ _
    exact (run_lifecycle lateWriter 1).2 0 1 "sports" _ _ (List.nodup_singleton 0) hcreated

end WorkflowLifecycle
end RustyHand
