import RustyHand.Kernel.WorkflowParts

/-!
# The phases of a workflow run

The status of a run is written by its own future, between the awaits.  A run comes into being, is
active until its future has written how it ended, and stays over then; at every await of the future
the place of the await tells the phase.

* `Phase`, `Stands`, `Holds`: a run before its creation, until it is over, and then;
* `Spares`: what a future leaves of the runs of others;
* `unfinished`: the awaits at which a run is pending or running;
* `keeps_runWorkflow`: at every await the run is in the phase that the await says.
-/

namespace RustyHand
namespace WorkflowPhases

open Workflows (Answer Execution Prepared Reply RunError StepResult Workflow WorkflowEngine
  WorkflowRun WorkflowStep World)
open Awaits WorkflowAwaits WorkflowParts

variable {ι α β : Type} [DecidableEq ι]

/-! ### The phases of a run -/

/-- How far a run is. -/
inductive Phase
  | before
  | active
  | ended
  deriving DecidableEq

/-- What the phase of a run says of the runs of the engine. -/
def Stands (runId : ι) : Phase → List (WorkflowRun ι) → Prop
  | .before, runs => Table.lookup WorkflowRun.id runId runs = none
  | .active, runs => ∃ r, Table.lookup WorkflowRun.id runId runs = some r ∧ isOver r = false
  | .ended, runs => ∀ r, Table.lookup WorkflowRun.id runId runs = some r → isOver r = true

/-- What holds for a future in a phase of its run. -/
structure Holds (runId : ι) (i : Phase) (t : Execution ι α) : Prop where
  unique : Table.UniqueKeys WorkflowRun.id t.engine.runs
  stands : Stands runId i t.engine.runs

/-- Other runs stay as they are, but those that are over can be evicted. -/
def Spares (runId : ι) (runs runs' : List (WorkflowRun ι)) : Prop :=
  ∀ id ≠ runId, Table.lookup WorkflowRun.id id runs' = Table.lookup WorkflowRun.id id runs ∨
    Table.lookup WorkflowRun.id id runs' = none ∧
      ∃ r, Table.lookup WorkflowRun.id id runs = some r ∧ isOver r = true

/-- What a future does to the runs of others. -/
def Others (runId : ι) (t t' : Execution ι α) : Prop :=
  Spares runId t.engine.runs t'.engine.runs

/-- The awaits at which the run of a future is pending or running. -/
def unfinished : AwaitPoint → Bool
  | .lookup | .insert => false
  | .start | .definition | .send | .record | .fail | .finish => true
  | .finalize (.stepFailed _ _) => false
  | .finalize _ => true
  | .expire point => unfinished point

/-- An await says whether the run is active. -/
def Says (i : Phase) (point : AwaitPoint) : Prop := unfinished point = true ↔ i = .active

/-- The phase of a run after an error. -/
def errorPhase : RunError → Phase
  | .stepFailed _ _ => .ended
  | _ => .active

theorem Spares.refl (runId : ι) (runs : List (WorkflowRun ι)) : Spares runId runs runs :=
  fun _ _ => .inl rfl

theorem Spares.trans {runId : ι} {runs runs' runs'' : List (WorkflowRun ι)}
    (h : Spares runId runs runs') (h' : Spares runId runs' runs'') :
    Spares runId runs runs'' := by
  intro id hid
  rcases h' id hid with heq' | ⟨hnone, r, hr, hover⟩
  · rw [heq']
    exact h id hid
  · rcases h id hid with heq | ⟨hgone, -⟩
    · exact .inr ⟨hnone, r, heq ▸ hr, hover⟩
    · rw [hgone] at hr
      cases hr

theorem Others.refl (runId : ι) (t : Execution ι α) : Others runId t t := Spares.refl _ _

theorem Others.trans (runId : ι) (a b c : Execution ι α) (h : Others runId a b)
    (h' : Others runId b c) : Others runId a c := Spares.trans h h'

/-- What the future of another run does leaves a run in its phase. -/
theorem Stands.spared {runId other : ι} (hne : runId ≠ other) {i : Phase}
    {runs runs' : List (WorkflowRun ι)} (h : Stands runId i runs)
    (hspares : Spares other runs runs') :
    Stands runId i runs' := by
  rcases hspares runId hne with heq | ⟨hnone, r, hr, hover⟩
  · cases i with
    | before => exact heq.trans h
    | active =>
      obtain ⟨r, hr, hactive⟩ := h
      exact ⟨r, heq.trans hr, hactive⟩
    | ended => exact fun r hr => h r (heq.symm.trans hr)
  · cases i with
    | before => exact hnone
    | active =>
      obtain ⟨r', hr', hactive⟩ := h
      obtain rfl := Option.some.inj (hr.symm.trans hr')
      rw [hover] at hactive
      cases hactive
    | ended =>
      intro r' hr'
      rw [hnone] at hr'
      cases hr'

/-! ### What is done to the runs -/

section Runs

variable {runId : ι} {runs : List (WorkflowRun ι)} {f : WorkflowRun ι → WorkflowRun ι}

theorem spares_modify (hid : ∀ r, (f r).id = r.id) (runs : List (WorkflowRun ι)) :
    Spares runId runs (Table.modify WorkflowRun.id runId f runs) :=
  fun _ hne => .inl (Table.lookup_modify_of_ne hid hne runs)

theorem stands_modify_active (hid : ∀ r, (f r).id = r.id) (hkeep : ∀ r, isOver r = false →
      isOver (f r) = false) (h : Stands runId .active runs) :
    Stands runId .active (Table.modify WorkflowRun.id runId f runs) := by
  obtain ⟨r, hr, hactive⟩ := h
  refine ⟨f r, ?_, hkeep r hactive⟩
  rw [Table.lookup_modify hid, hr, Option.map_some]

theorem stands_modify_ended (hid : ∀ r, (f r).id = r.id) (hover : ∀ r, isOver (f r) = true) :
    Stands runId .ended (Table.modify WorkflowRun.id runId f runs) := by
  intro r hr
  rw [Table.lookup_modify hid] at hr
  obtain ⟨r', -, rfl⟩ := Option.map_eq_some_iff.1 hr
  exact hover r'

omit [DecidableEq ι] in
theorem isOver_failedWith (r : WorkflowRun ι) (message : String) (now : ℤ) :
    isOver (r.failedWith message now) = true := by
  unfold WorkflowRun.failedWith
  cases hstate : r.state <;> simp [isOver, hstate]

omit [DecidableEq ι] in
theorem failedWith_id (r : WorkflowRun ι) (message : String) (now : ℤ) :
    (r.failedWith message now).id = r.id := by
  unfold WorkflowRun.failedWith
  cases r.state <;> rfl

omit [DecidableEq ι] in
theorem mem_toRemove {id : ι} (h : id ∈ toRemove runs) :
    ∃ r ∈ runs, r.id = id ∧ isOver r = true := by
  obtain ⟨r, hr, hid⟩ := List.mem_map.1 h
  have hsorted := List.mem_of_mem_take hr
  obtain ⟨hruns, hover⟩ := List.mem_filter.1 ((List.mem_insertionSort _).1 hsorted)
  exact ⟨r, hruns, hid, hover⟩

theorem lookup_evictOldest (hunique : Table.UniqueKeys WorkflowRun.id runs) (id : ι) :
    Table.lookup WorkflowRun.id id (evictOldest runs) = Table.lookup WorkflowRun.id id runs ∨
      Table.lookup WorkflowRun.id id (evictOldest runs) = none ∧
        ∃ r, Table.lookup WorkflowRun.id id runs = some r ∧ isOver r = true := by
  unfold evictOldest
  rw [Table.UniqueKeys.lookup_filter hunique]
  cases hr : Table.lookup WorkflowRun.id id runs with
  | none => exact .inl rfl
  | some r =>
    by_cases hmem : r.id ∈ toRemove runs
    · refine .inr ⟨by simp [Option.filter, hmem], r, rfl, ?_⟩
      obtain ⟨r', hruns, hid, hover⟩ := mem_toRemove hmem
      rwa [Table.UniqueKeys.eq hunique hruns (Table.mem_of_lookup hr).1 hid] at hover
    · exact .inl (by simp [Option.filter, hmem])

theorem unique_evictOldest (hunique : Table.UniqueKeys WorkflowRun.id runs) :
    Table.UniqueKeys WorkflowRun.id (evictOldest runs) :=
  hunique.sublist (List.filter_sublist.map WorkflowRun.id)

end Runs

/-! ### What a future keeps -/

/-- A future of a run, and what it keeps. -/
abbrev KeepsRun {ε : Type} (runId : ι) (Q : Phase → β → Prop) (E : Phase → ε → Prop)
    (x : Future AwaitPoint (Execution ι α) ε β) (i : Phase) : Prop :=
  KeepsFuture (Holds runId) (Others runId) Says Q E x i

/-- The run is changed as a whole. -/
theorem holds_modify {i j : Phase} {runId : ι} {g : WorkflowRun ι → WorkflowRun ι}
    {t t' : Execution ι α} (ht : Holds runId i t)
    (hruns : t'.engine.runs = Table.modify WorkflowRun.id runId g t.engine.runs)
    (hid : ∀ r, (g r).id = r.id)
    (hphase : Stands runId i t.engine.runs →
      Stands runId j (Table.modify WorkflowRun.id runId g t.engine.runs)) :
    Holds runId j t' ∧ Others runId t t' := by
  refine ⟨⟨?_, ?_⟩, ?_⟩
  · rw [hruns]
    exact Table.UniqueKeys.modify hid ht.unique
  · rw [hruns]
    exact hphase ht.stands
  · show Spares runId t.engine.runs t'.engine.runs
    rw [hruns]
    exact spares_modify hid _

theorem keeps_modifyRun {i j : Phase} {runId : ι} {Q : Phase → Unit → Prop}
    {E : Phase → RunError → Prop} {point : AwaitPoint} {g : WorkflowRun ι → WorkflowRun ι}
    (hpoint : Says i point) (hid : ∀ r, (g r).id = r.id)
    (hphase : ∀ runs, Stands runId i runs →
      Stands runId j (Table.modify WorkflowRun.id runId g runs)) (hQ : Q j ()) :
    KeepsRun runId Q E (modifyRun point runId g : Part ι α Unit) i :=
  KeepsFuture.pause_bind hpoint
    (KeepsFuture.update (fun t ht => holds_modify ht rfl hid (hphase t.engine.runs)) hQ)

/-- A part of an active run leaves it active, and after an error where the error says. -/
def Active (runId : ι) (x : Part ι α β) : Prop :=
  KeepsRun runId (fun i _ => i = .active) (fun i e => i = errorPhase e) x .active

namespace Active

variable {γ : Type} {runId : ι} {x : Part ι α β} {f : β → Part ι α γ}

protected theorem pure (v : β) : Active runId (pure v : Part ι α β) := KeepsFuture.pure rfl

protected theorem throw {e : RunError} (h : errorPhase e = .active) :
    Active runId (throw e : Part ι α β) := KeepsFuture.throw h.symm

/-- What comes behind a part begins in an active run. -/
theorem andThen {Q : Phase → γ → Prop} (hx : Active runId x)
    (hf : ∀ v, KeepsRun runId Q (fun i e => i = errorPhase e) (f v) .active) :
    KeepsRun runId Q (fun i e => i = errorPhase e) (x >>= f) .active := by
  refine KeepsFuture.bind hx fun i v hi => ?_
  subst hi
  exact hf v

protected theorem bind (hx : Active runId x) (hf : ∀ v, Active runId (f v)) :
    Active runId (x >>= f) := hx.andThen hf

protected theorem look : Active runId (look : Part ι α (Execution ι α)) :=
  fun a ha => ⟨.active, ha, Others.refl runId a, rfl⟩

/-- What the future does to what is its own. -/
protected theorem update {u : Execution ι α → Execution ι α} (hu : ∀ t, (u t).engine = t.engine) :
    Active runId (update u : Part ι α Unit) := by
  refine KeepsFuture.update (j := .active) (fun t ht => ⟨⟨?_, ?_⟩, ?_⟩) rfl
  · rw [hu]
    exact ht.unique
  · rw [hu]
    exact ht.stands
  · show Spares runId t.engine.runs (u t).engine.runs
    rw [hu]
    exact Spares.refl _ _

protected theorem modifyRun {point : AwaitPoint} {g : WorkflowRun ι → WorkflowRun ι}
    (hpoint : unfinished point = true) (hid : ∀ r, (g r).id = r.id)
    (hkeep : ∀ r, isOver r = false → isOver (g r) = false) :
    Active runId (modifyRun point runId g : Part ι α Unit) :=
  keeps_modifyRun (iff_of_true hpoint rfl) hid (fun _ => stands_modify_active hid hkeep) rfl

protected theorem pushResult (result : StepResult) :
    Active runId (pushResult runId result : Part ι α Unit) :=
  Active.modifyRun rfl (fun _ => rfl) fun _ h => h

/-- A failed step ends the run. -/
protected theorem failStep (w : World α) (step : WorkflowStep) (message : String) :
    Active runId (failStep w runId step message : Part ι α β) := by
  refine KeepsFuture.look_bind (Others.refl runId) fun t _ => ?_
  refine KeepsFuture.bind (Q := fun i _ => i = .ended) ?_ fun i _ hi => KeepsFuture.throw hi
  exact keeps_modifyRun (iff_of_true rfl rfl) (fun _ => rfl)
    (fun _ _ => stands_modify_ended (fun _ => rfl) fun _ => rfl) rfl

end Active

theorem closed_active (w : World α) (runId : ι) :
    Closed w runId fun β (x : Part ι α β) => Active runId x where
  pure := Active.pure
  bind := Active.bind
  look := Active.look
  update := fun _ hu => Active.update hu
  pushResult := Active.pushResult
  noAgent := fun _ => Active.throw rfl
  fails := Active.failStep w
  sendMessage := by
    intro step attempt agent prompt
    refine KeepsFuture.pause_bind (iff_of_true rfl rfl) ?_
    exact KeepsFuture.ask (j := .active)
      (fun t ht => ⟨⟨ht.unique, ht.stands⟩, Others.refl runId t⟩) fun _ => rfl

/-! ### Runs -/

section Runs

variable {runId : ι} {w : World α}

theorem keeps_executeRunInner : KeepsRun runId (fun i _ => i = .ended) (fun i e => i = errorPhase e)
    (executeRunInner w runId : Part ι α String) .active := by
  refine KeepsFuture.pause_bind (iff_of_true rfl rfl) ?_
  refine KeepsFuture.look_bind (Others.refl runId) fun t ht => ?_
  obtain ⟨run, hrun, -⟩ := ht.stands
  rw [hrun]
  refine KeepsFuture.update_bind (j := .active) (fun t ht => holds_modify ht rfl (fun _ => rfl)
    (stands_modify_active (fun _ => rfl) fun _ _ => rfl)) ?_
  refine KeepsFuture.pause_bind (iff_of_true rfl rfl) ?_
  refine KeepsFuture.look_bind (Others.refl runId) fun t _ => ?_
  cases Table.lookup Workflow.id run.workflowId t.engine.workflows with
  | none => exact KeepsFuture.throw rfl
  | some workflow =>
    refine Active.andThen ((closed_active w runId).setInput run.input) fun _ => ?_
    refine Active.andThen ((closed_active w runId).executeSteps workflow.steps) fun _ => ?_
    refine KeepsFuture.look_bind (Others.refl runId) fun t _ => ?_
    refine KeepsFuture.bind (Q := fun i _ => i = .ended) ?_ fun i _ hi => KeepsFuture.pure hi
    exact keeps_modifyRun (iff_of_true rfl rfl) (fun _ => rfl)
      (fun _ _ => stands_modify_ended (fun _ => rfl) fun _ => rfl) rfl

theorem says_finalize (e : RunError) : Says (errorPhase e) (.finalize e) := by
  cases e <;> simp [Says, unfinished, errorPhase]

/-- Whatever comes out of a run, it is over then. -/
theorem keeps_executeRun : KeepsRun runId (fun i _ => i = .ended) (fun i _ => i = .ended)
    (executeRun w runId : Part ι α String) .active := by
  refine KeepsFuture.tryCatch keeps_executeRunInner fun i e hi => ?_
  subst hi
  refine KeepsFuture.look_bind (Others.refl runId) fun t _ => ?_
  refine KeepsFuture.bind (Q := fun i _ => i = .ended) ?_ fun i _ hi => KeepsFuture.throw hi
  exact keeps_modifyRun (says_finalize e) (fun r => failedWith_id r _ _)
    (fun _ _ => stands_modify_ended (fun r => failedWith_id r _ _) fun r => isOver_failedWith r _ _)
    rfl

/-- The new run is there, and the runs of others, but for those that were over. -/
theorem holds_insert {run : WorkflowRun ι} {t t' : Execution ι α} (ht : Holds runId .before t)
    (hruns : t'.engine.runs = evictOldest (Table.upsert WorkflowRun.id run t.engine.runs))
    (hid : run.id = runId) (hactive : isOver run = false) :
    Holds runId .active t' ∧ Others runId t t' := by
  subst hid
  have hunique : Table.UniqueKeys WorkflowRun.id (Table.upsert WorkflowRun.id run t.engine.runs) :=
    Table.UniqueKeys.upsert ht.unique
  have hnew : Table.lookup WorkflowRun.id run.id (Table.upsert WorkflowRun.id run t.engine.runs) =
      some run := by
    rw [Table.lookup_upsert, if_pos rfl]
  refine ⟨⟨?_, run, ?_, hactive⟩, ?_⟩
  · rw [hruns]
    exact unique_evictOldest hunique
  · rw [hruns]
    rcases lookup_evictOldest hunique run.id with heq | ⟨-, r, hr, hover⟩
    · exact heq.trans hnew
    · obtain rfl := Option.some.inj (hnew.symm.trans hr)
      rw [hactive] at hover
      cases hover
  · show Spares run.id t.engine.runs t'.engine.runs
    intro id hne
    have hold : Table.lookup WorkflowRun.id id (Table.upsert WorkflowRun.id run t.engine.runs) =
        Table.lookup WorkflowRun.id id t.engine.runs := by
      rw [Table.lookup_upsert, if_neg hne]
    rw [hruns, ← hold]
    exact lookup_evictOldest hunique id

theorem keeps_createRun (workflowId : ι) (input : String) :
    KeepsRun runId (fun i o => o.elim (i = .before) fun id => id = runId ∧ i = .active)
      (fun i _ => i ≠ .active) (createRun w runId workflowId input : Future _ (Execution ι α) _ _)
      .before := by
  refine KeepsFuture.pause_bind (iff_of_false nofun nofun) ?_
  refine KeepsFuture.look_bind (Others.refl runId) fun t _ => ?_
  cases Table.lookup Workflow.id workflowId t.engine.workflows with
  | none => exact KeepsFuture.pure rfl
  | some workflow =>
    refine KeepsFuture.pause_bind (iff_of_false nofun nofun) ?_
    refine KeepsFuture.update_bind (j := .active) (fun t ht => holds_insert ht rfl rfl rfl) ?_
    exact KeepsFuture.pure ⟨rfl, rfl⟩

/-- When its time is over, the run is over. -/
theorem keeps_markRunFailed {i : Phase} {point : AwaitPoint} (h : Says i point) (error : String) :
    KeepsRun runId (fun i _ => i = .ended) (fun i _ => i ≠ .active)
      (markRunFailed w point runId error : Future _ (Execution ι α) _ _) i := by
  refine KeepsFuture.pause_bind h ?_
  refine KeepsFuture.update (j := .ended) (fun t ht => holds_modify ht rfl
    (fun r => failedWith_id r _ _) fun _ => ?_) rfl
  exact stands_modify_ended (fun r => failedWith_id r _ _) fun r => isOver_failedWith r _ _

/-- **What a future of `run_workflow` keeps.**  At every await the run is in the phase that the
await says, and what comes out leaves no active run. -/
theorem keeps_runWorkflow (w : World α) (deadline : Option ℕ) (runId workflowId : ι)
    (input : String) : KeepsRun runId (fun i _ => i ≠ .active) (fun i _ => i ≠ .active)
      (runWorkflow w deadline runId workflowId input) .before := by
  refine KeepsFuture.bind (keeps_createRun workflowId input) fun i o ho => ?_
  cases o with
  | none =>
    obtain rfl : i = .before := ho
    exact KeepsFuture.throw nofun
  | some id =>
    obtain ⟨rfl, rfl⟩ := ho
    refine KeepsFuture.bind (KeepsFuture.lift (keeps_executeRun.within deadline)) fun i r hr => ?_
    match r with
    | .inl point =>
      refine KeepsFuture.bind (keeps_markRunFailed hr _) fun i _ hi => ?_
      obtain rfl : i = .ended := hi
      exact KeepsFuture.throw nofun
    | .inr (.error e) =>
      obtain rfl : i = .ended := hr
      exact KeepsFuture.throw nofun
    | .inr (.ok output) =>
      obtain rfl : i = .ended := hr
      exact KeepsFuture.pure nofun

end Runs

end WorkflowPhases
end RustyHand
