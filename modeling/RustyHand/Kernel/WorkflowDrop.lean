import RustyHand.Kernel.WorkflowPhases
import RustyHand.Lib.Runs

/-!
# Workflows whose future is dropped

A future of `run_workflow` of `rusty-hand-kernel/src/kernel.rs` is polled until it is ready, and
whoever owns it may drop it at any await before, as the timeout of `execute_cron_job` does it.
Nothing else writes the status of its run, so that the run stays as the future has left it.

* `System`: the engine, and the futures of any number of runs;
* `Event`: a future is made, polled or dropped, in any order;
* `NoOrphan`: a run that is pending or running has a future;
* `Sound`: what the futures keep in common;
* `noOrphan_iff_dropsFinished`: no run is orphaned just where no future is dropped at an await of
  an active run.
-/

namespace RustyHand
namespace WorkflowDrop

open Workflows (Execution Workflow WorkflowEngine WorkflowRun World)
open Awaits WorkflowAwaits WorkflowPhases

variable {α : Type}

/-- What a future of `run_workflow` does. -/
abbrev Task (α : Type) : Type :=
  Proc AwaitPoint (Execution ℕ α) (Except WorkflowError (ℕ × String))

/-- A future of `run_workflow` that is not ready and not dropped. -/
structure Live (α : Type) where
  runId : ℕ
  /-- What is its own; for its engine the one of the system is put in. -/
  own : Execution ℕ α
  proc : Task α

/-- A future that goes on with `proc`. -/
def Live.goOn (t : Execution ℕ α) (proc : Task α) (f : Live α) : Live α :=
  { f with own := t, proc := proc }

theorem Live.runId_goOn (t : Execution ℕ α) (proc : Task α) (f : Live α) :
    (f.goOn t proc).runId = f.runId := rfl

/-- The engine with the futures of its runs, and the id of the next run. -/
structure System (α : Type) where
  engine : WorkflowEngine ℕ := {}
  next : ℕ := 0
  live : List (Live α) := []

/-- What happens to the futures. -/
inductive Event (α : Type)
  /-- The workflows are others from now on. -/
  | define (workflows : List (Workflow ℕ))
  /-- `run_workflow` is called. -/
  | start (w : World α) (deadline : Option ℕ) (workflowId : ℕ) (input : String)
  /-- A future works up to its next await. -/
  | poll (runId : ℕ)
  /-- The owner of a future drops it. -/
  | drop (runId : ℕ)

/-- A future after a piece of its work, in the engine that the work has left. -/
def System.put (s : System α) (runId : ℕ) : Task α × Execution ℕ α → System α
  | (.ret _, t) => { s with engine := t.engine, live := Table.erase Live.runId runId s.live }
  | (proc, t) => { s with
      engine := t.engine, live := Table.modify Live.runId runId (Live.goOn t proc) s.live }

theorem System.runIds_await (s : System α) (runId : ℕ) (point : AwaitPoint)
    (k : Task α) (t : Execution ℕ α) :
    (s.put runId (.await point k, t)).live.map Live.runId = s.live.map Live.runId :=
  Table.keys_modify (Live.runId_goOn t (.await point k)) runId s.live

/-- One event. -/
def step (s : System α) : Event α → System α
  | .define workflows => { s with engine := { s.engine with workflows := workflows } }
  | .start w deadline workflowId input => { s with
      next := s.next + 1
      live := s.live ++
        [⟨s.next, { engine := s.engine }, runWorkflow w deadline s.next workflowId input⟩] }
  | .poll runId =>
    match Table.lookup Live.runId runId s.live with
    | some f => s.put runId (f.proc.poll { f.own with engine := s.engine })
    | none => s
  | .drop runId => { s with live := Table.erase Live.runId runId s.live }

theorem step_poll (s : System α) (runId : ℕ) : step s (.poll runId) =
    match Table.lookup Live.runId runId s.live with
    | some f => s.put runId (f.proc.poll { f.own with engine := s.engine })
    | none => s := rfl

/-- No run is pending or running without a future that executes it. -/
def NoOrphan (s : System α) : Prop :=
  ∀ runId r, Table.lookup WorkflowRun.id runId s.engine.runs = some r → isOver r = false →
    runId ∈ s.live.map Live.runId

/-- A future that is dropped awaits where its run is not active: before the run is there, or behind
what ended it. -/
def DropsFinished (s : System α) : Event α → Prop
  | .drop runId => ∀ f ∈ s.live, f.runId = runId → ∀ point k, f.proc = .await point k →
      unfinished point = false
  | _ => True

/-! ### What the futures keep -/

/-- A future at an await, in a phase of its run. -/
def Kept (runs : List (WorkflowRun ℕ)) (f : Live α) : Prop :=
  ∃ point k i, f.proc = .await point k ∧ Says i point ∧ Stands f.runId i runs ∧
    Keeps (Holds f.runId) (Others f.runId) Says (fun i _ => i ≠ .active) k i

/-- What the futures keep in common. -/
structure Sound (s : System α) : Prop where
  uniqueRuns : Table.UniqueKeys WorkflowRun.id s.engine.runs
  uniqueLive : Table.UniqueKeys Live.runId s.live
  /-- The runs that are still to come. -/
  fresh : ∀ runId, s.next ≤ runId → Table.lookup WorkflowRun.id runId s.engine.runs = none
  older : ∀ f ∈ s.live, f.runId < s.next
  kept : ∀ f ∈ s.live, Kept s.engine.runs f
  noOrphan : NoOrphan s

theorem isOver_of_stands {i : Phase} {runId : ℕ} {runs : List (WorkflowRun ℕ)} {r : WorkflowRun ℕ}
    (hi : i ≠ .active) (h : Stands runId i runs)
    (hr : Table.lookup WorkflowRun.id runId runs = some r) : isOver r = true := by
  cases i with
  | before => cases h.symm.trans hr
  | active => exact absurd rfl hi
  | ended => exact h r hr

theorem Kept.spared {f : Live α} {other : ℕ} {runs runs' : List (WorkflowRun ℕ)}
    (h : Kept runs f) (hne : f.runId ≠ other) (hspares : Spares other runs runs') :
    Kept runs' f := by
  obtain ⟨point, k, i, hproc, hphase, hstands, hkeeps⟩ := h
  exact ⟨point, k, i, hproc, hphase, hstands.spared hne hspares, hkeeps⟩

theorem kept_runWorkflow {runs : List (WorkflowRun ℕ)} {runId : ℕ}
    (hfresh : Table.lookup WorkflowRun.id runId runs = none) (own : Execution ℕ α) (w : World α)
    (deadline : Option ℕ) (workflowId : ℕ) (input : String) :
    Kept runs ⟨runId, own, runWorkflow w deadline runId workflowId input⟩ := by
  have h : Keeps (Holds runId) (Others runId) Says (fun i _ => i ≠ .active)
      (runWorkflow w deadline runId workflowId input : Future _ (Execution ℕ α) _ _).run
      .before := by
    refine Keeps.mono (keeps_runWorkflow w deadline runId workflowId input) fun i r hr => ?_
    cases r <;> exact hr
  exact ⟨.lookup, _, .before, rfl, h.1, hfresh, h.2⟩

variable {s : System α}

theorem Sound.start (h : Sound s) (w : World α) (deadline : Option ℕ) (workflowId : ℕ)
    (input : String) : Sound (step s (.start w deadline workflowId input)) where
  uniqueRuns := h.uniqueRuns
  uniqueLive := by
    show (List.map Live.runId (s.live ++ [_])).Nodup
    rw [List.map_append, List.nodup_append]
    refine ⟨h.uniqueLive, List.nodup_singleton _, fun id hid id' hid' => ?_⟩
    obtain ⟨f, hf, rfl⟩ := List.mem_map.1 hid
    rw [List.mem_singleton.1 hid']
    exact (h.older f hf).ne
  fresh := fun runId hle => h.fresh runId (Nat.le_of_succ_le hle)
  older := by
    intro f hf
    rcases List.mem_append.1 hf with hf | hf
    · exact (h.older f hf).trans (Nat.lt_succ_self _)
    · rw [List.mem_singleton.1 hf]
      exact Nat.lt_succ_self _
  kept := by
    intro f hf
    rcases List.mem_append.1 hf with hf | hf
    · exact h.kept f hf
    · rw [List.mem_singleton.1 hf]
      exact kept_runWorkflow (h.fresh s.next le_rfl) _ w deadline workflowId input
  noOrphan := by
    intro runId r hr hactive
    show runId ∈ List.map Live.runId (s.live ++ [_])
    rw [List.map_append]
    exact List.mem_append_left _ (h.noOrphan runId r hr hactive)

/-- A future that is dropped where its run is not active. -/
theorem Sound.drop (h : Sound s) {runId : ℕ} (hdrop : DropsFinished s (.drop runId)) :
    Sound (step s (.drop runId)) where
  uniqueRuns := h.uniqueRuns
  uniqueLive := h.uniqueLive.erase
  fresh := h.fresh
  older := fun f hf => h.older f (Table.mem_erase.1 hf).1
  kept := fun f hf => h.kept f (Table.mem_erase.1 hf).1
  noOrphan := by
    intro id r hr hactive
    obtain ⟨f, hf, rfl⟩ := List.mem_map.1 (h.noOrphan id r hr hactive)
    refine List.mem_map.2 ⟨f, Table.mem_erase.2 ⟨hf, fun hid => ?_⟩, rfl⟩
    -- the await of the dropped future says that its run is not active
    obtain ⟨point, k, i, hproc, hphase, hstands, -⟩ := h.kept f hf
    have hi : i ≠ .active := by
      intro hi
      have hpoint := hdrop f hf hid point k hproc
      rw [hphase.2 hi] at hpoint
      cases hpoint
    rw [isOver_of_stands hi hstands hr] at hactive
    cases hactive

/-! ### A piece of work -/

section Work

variable {runId : ℕ} {t : Execution ℕ α} (h : Sound s)
  (hspares : Spares runId s.engine.runs t.engine.runs)
include h hspares

theorem Sound.fresh_after (hold : runId < s.next) (id : ℕ) (hle : s.next ≤ id) :
    Table.lookup WorkflowRun.id id t.engine.runs = none := by
  rcases hspares id (by omega) with heq | ⟨hnone, -⟩
  · exact heq.trans (h.fresh id hle)
  · exact hnone

/-- Another run that is active was active before, and its future is still there. -/
theorem Sound.other_live {id : ℕ} (hne : id ≠ runId) {r : WorkflowRun ℕ}
    (hr : Table.lookup WorkflowRun.id id t.engine.runs = some r) (hactive : isOver r = false) :
    ∃ f ∈ s.live, f.runId = id := by
  rcases hspares id hne with heq | ⟨hnone, -⟩
  · exact List.mem_map.1 (h.noOrphan id r (heq.symm.trans hr) hactive)
  · cases hnone.symm.trans hr

/-- A future that is ready leaves no active run. -/
theorem Sound.ready (hold : runId < s.next) {j : Phase} (hj : Holds runId j t)
    (hover : j ≠ .active) (v : Except WorkflowError (ℕ × String)) :
    Sound (s.put runId (.ret v, t)) where
  uniqueRuns := hj.unique
  uniqueLive := h.uniqueLive.erase
  fresh := h.fresh_after hspares hold
  older := fun f hf => h.older f (Table.mem_erase.1 hf).1
  kept := fun f hf => (h.kept f (Table.mem_erase.1 hf).1).spared (Table.mem_erase.1 hf).2 hspares
  noOrphan := by
    intro id r hr hactive
    by_cases hid : id = runId
    · subst hid
      rw [isOver_of_stands hover hj.stands hr] at hactive
      cases hactive
    · obtain ⟨f, hf, rfl⟩ := h.other_live hspares hid hr hactive
      exact List.mem_map.2 ⟨f, Table.mem_erase.2 ⟨hf, hid⟩, rfl⟩

theorem Sound.awaits (hlive : runId ∈ s.live.map Live.runId) {j : Phase} (hj : Holds runId j t)
    {point : AwaitPoint} {k : Task α}
    (hkeeps : Keeps (Holds runId) (Others runId) Says (fun i _ => i ≠ .active) (.await point k) j) :
    Sound (s.put runId (.await point k, t)) where
  uniqueRuns := hj.unique
  uniqueLive := Table.UniqueKeys.modify (Live.runId_goOn t _) h.uniqueLive
  fresh := by
    obtain ⟨f, hf, rfl⟩ := List.mem_map.1 hlive
    exact h.fresh_after hspares (h.older f hf)
  older := by
    intro f hf
    rcases Table.mem_modify.1 hf with ⟨g, hg, -, rfl⟩ | ⟨hf, -⟩
    · exact h.older g hg
    · exact h.older f hf
  kept := by
    intro f hf
    rcases Table.mem_modify.1 hf with ⟨f, -, rfl, rfl⟩ | ⟨hf, hne⟩
    · exact ⟨point, k, j, rfl, hkeeps.1, hj.stands, hkeeps.2⟩
    · exact (h.kept f hf).spared hne hspares
  noOrphan := by
    intro id r hr hactive
    rw [s.runIds_await]
    by_cases hid : id = runId
    · rwa [hid]
    · exact List.mem_map.2 (h.other_live hspares hid hr hactive)

end Work

theorem Sound.poll (h : Sound s) (runId : ℕ) : Sound (step s (.poll runId)) := by
  rw [step_poll]
  cases hf : Table.lookup Live.runId runId s.live with
  | none => exact h
  | some f =>
    obtain ⟨hmem, rfl⟩ := Table.mem_of_lookup hf
    obtain ⟨point, k, i, hproc, -, hstands, hkeeps⟩ := h.kept f hmem
    have hholds : Holds f.runId i { f.own with engine := s.engine } := ⟨h.uniqueRuns, hstands⟩
    obtain ⟨j, hj, hothers, hrest⟩ := hkeeps.settle (Others.refl _) (Others.trans _) hholds
    show Sound (s.put f.runId (f.proc.poll { f.own with engine := s.engine }))
    rw [hproc]
    show Sound (s.put f.runId (k.settle { f.own with engine := s.engine }))
    rcases k.settle_cases { f.own with engine := s.engine } with ⟨v, t, heq⟩ | ⟨l, k', t, heq⟩
    · rw [heq] at hj hothers hrest ⊢
      exact h.ready hothers (h.older f hmem) hj hrest v
    · rw [heq] at hj hothers hrest ⊢
      exact h.awaits hothers (List.mem_map_of_mem hmem) hj hrest

/-! ### Runs -/

theorem Sound.step (h : Sound s) (e : Event α) (he : DropsFinished s e) : Sound (step s e) := by
  cases e with
  | define workflows => exact ⟨h.uniqueRuns, h.uniqueLive, h.fresh, h.older, h.kept, h.noOrphan⟩
  | start w deadline workflowId input => exact h.start w deadline workflowId input
  | poll runId => exact h.poll runId
  | drop runId => exact h.drop he

/-- A future that is dropped while its run is active orphans it. -/
theorem dropsFinished_of_noOrphan (h : Sound s) (e : Event α) (hnext : NoOrphan (step s e)) :
    DropsFinished s e := by
  cases e with
  | drop runId =>
    rintro f hf rfl point k hproc
    obtain ⟨point', k', i, hproc', hphase, hstands, -⟩ := h.kept f hf
    obtain ⟨rfl, rfl⟩ := Proc.await.inj (hproc.symm.trans hproc')
    by_contra hpoint
    obtain rfl : i = .active := hphase.1 (Bool.eq_true_of_not_eq_false hpoint)
    -- an active run stands in the engine, and its future is gone
    obtain ⟨r, hr, hactive⟩ := hstands
    obtain ⟨g, hg, hid⟩ := List.mem_map.1 (hnext f.runId r hr hactive)
    exact (Table.mem_erase.1 hg).2 hid
  | define workflows => trivial
  | start w deadline workflowId input => trivial
  | poll runId => trivial

/-- A kernel before its first run. -/
def boot (workflows : List (Workflow ℕ)) : System α := { engine := { workflows := workflows } }

theorem sound_boot (workflows : List (Workflow ℕ)) : Sound (boot workflows : System α) where
  uniqueRuns := List.nodup_nil
  uniqueLive := List.nodup_nil
  fresh := fun _ _ => rfl
  older := nofun
  kept := nofun
  noOrphan := nofun

/-- **Dropped workflows.**  From the boot on no run is ever pending or running without a future,
just where every future that is dropped awaits where its run is not active. -/
theorem noOrphan_iff_dropsFinished (workflows : List (Workflow ℕ)) (events : List (Event α)) :
    (∀ k, NoOrphan (Runs.run step (boot workflows) (events.take k))) ↔
      Runs.Along step DropsFinished (boot workflows) events :=
  Runs.forall_take_iff_along (sound_boot workflows) (fun _ h => h.noOrphan)
    (fun _ e h he => h.step e he) fun _ e h hnext => dropsFinished_of_noOrphan h e hnext

/-- A workflow of one step. -/
def report : Workflow ℕ where
  id := 0
  name := "report"
  steps := [{ name := "write", agent := .byName "writer", promptTemplate := "{{input}}"
              mode := .sequential }]

/-- An agent that answers, when it is waited for. -/
def slowWriter : World ℕ where
  toLowercase := id
  showId := toString
  resolve := fun _ => some (0, "writer")
  send := fun _ _ _ => .reply ⟨"done", 0, 0⟩
  now := fun _ => 0

/-- A cron job runs the workflow, and drops it while the agent is to answer. -/
def cronTimeout : List (Event ℕ) :=
  [.start slowWriter none 0 "news", .poll 0, .poll 0, .poll 0, .poll 0, .drop 0]

/-- The run stays running, and no future is left that could end it. -/
theorem cronTimeout_orphans :
    ¬ ∀ k, NoOrphan (Runs.run step (boot [report]) (cronTimeout.take k)) := by
  intro h
  have hrun : (Table.lookup WorkflowRun.id 0
      (Runs.run step (boot [report]) (cronTimeout.take 6)).engine.runs).map isOver =
        some false := by
    decide +kernel
  have hlive : (Runs.run step (boot [report]) (cronTimeout.take 6)).live.map Live.runId = [] := by
    decide +kernel
  obtain ⟨r, hr, hactive⟩ := Option.map_eq_some_iff.1 hrun
  have hmem := h 6 0 r hr hactive
  rw [hlive] at hmem
  cases hmem

end WorkflowDrop
end RustyHand
