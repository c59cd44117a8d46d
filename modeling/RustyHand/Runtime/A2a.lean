import RustyHand.Lib.Runs
import RustyHand.Lib.Table
import RustyHand.Types.Json

/-!
# The A2A task store

`A2aTaskStore` of `rusty-hand-runtime/src/a2a.rs`, a map of tasks with a capacity.  The order in
which the map is gone through when a task has to leave is part of the call.

* `Store`, `apply`: the store, and what each call does to it;
* `Keeps`: what a call should leave as it was;
* `Respects`: the calls that do;
* `store_keeps_iff`: a run keeps finished tasks if and only if its calls respect them.
-/

namespace RustyHand
namespace A2a

open Runs

/-- `A2aPart`. -/
inductive Part
  | text (text : String)
  | file (name mimeType data : String)
  | data (mimeType : String) (data : Json)

/-- `A2aMessage`. -/
structure Message where
  role : String
  parts : List Part

/-- `A2aArtifact`. -/
structure Artifact where
  name : String
  parts : List Part

/-- `A2aTaskStatus`. -/
inductive Status
  | submitted
  | working
  | inputRequired
  | completed
  | cancelled
  | failed
  deriving DecidableEq

/-- `Completed | Failed | Cancelled`. -/
def Status.isTerminal : Status → Bool
  | .completed | .failed | .cancelled => true
  | _ => false

/-- `A2aTask`. -/
structure Task where
  id : String
  sessionId : Option String
  status : Status
  messages : List Message
  artifacts : List Artifact

/-- `A2aTaskStore`. -/
structure Store where
  tasks : List Task := []
  maxTasks : ℕ

/-- `get`. -/
def Store.get (s : Store) (taskId : String) : Option Task := Table.lookup Task.id taskId s.tasks

/-- The key to evict, in an order of the map: that of a finished task, or else the first. -/
def evictKey (s : Store) (order : List String) : Option String :=
  (order.find? fun k => (s.get k).any fun t => t.status.isTerminal).or order.head?

/-- `insert`. -/
def Store.insert (s : Store) (order : List String) (task : Task) : Store :=
  let tasks :=
    if s.maxTasks ≤ s.tasks.length then
      match evictKey s order with
      | some key => Table.erase Task.id key s.tasks
      | none => s.tasks
    else s.tasks
  { s with tasks := Table.upsert Task.id task tasks }

/-- `update_status`; `cancel` is the case of `Cancelled`. -/
def Store.updateStatus (s : Store) (taskId : String) (status : Status) : Store :=
  { s with tasks := Table.modify Task.id taskId (fun t => { t with status := status }) s.tasks }

/-- `complete`. -/
def Store.complete (s : Store) (taskId : String) (response : Message)
    (artifacts : List Artifact) : Store :=
  { s with
    tasks := Table.modify Task.id taskId
      (fun t =>
        { t with
          messages := t.messages ++ [response]
          artifacts := t.artifacts ++ artifacts
          status := .completed }) s.tasks }

/-- `fail`. -/
def Store.fail (s : Store) (taskId : String) (errorMessage : Message) : Store :=
  { s with
    tasks := Table.modify Task.id taskId
      (fun t => { t with messages := t.messages ++ [errorMessage], status := .failed }) s.tasks }

/-- `cancel`. -/
def Store.cancel (s : Store) (taskId : String) : Store := s.updateStatus taskId .cancelled

/-- A call. -/
inductive Call
  | insert (order : List String) (task : Task)
  | updateStatus (taskId : String) (status : Status)
  | complete (taskId : String) (response : Message) (artifacts : List Artifact)
  | fail (taskId : String) (errorMessage : Message)
  | cancel (taskId : String)

def apply (s : Store) : Call → Store
  | .insert order task => s.insert order task
  | .updateStatus taskId status => s.updateStatus taskId status
  | .complete taskId response artifacts => s.complete taskId response artifacts
  | .fail taskId errorMessage => s.fail taskId errorMessage
  | .cancel taskId => s.cancel taskId

/-- The calls that can be made: a map is gone through in some order of its keys. -/
def Possible (s : Store) : Call → Prop
  | .insert order _ => order.Perm (s.tasks.map Task.id)
  | _ => True

/-! ### What a call should keep -/

/-- A finished task keeps its status and its messages, the store its capacity, and a task leaves
only for a new one: an unfinished task only where there is no finished one. -/
structure Keeps (s : Store) (c : Call) : Prop where
  finished : ∀ t ∈ s.tasks, t.status.isTerminal = true → ∀ t' ∈ (apply s c).tasks, t'.id = t.id →
    t'.status = t.status ∧ t'.messages = t.messages
  capacity : (apply s c).tasks.length ≤ s.maxTasks
  evicts : ∀ order task, c = .insert order task → ∀ t ∈ s.tasks, t.id ≠ task.id →
    t.id ∉ (apply s c).tasks.map Task.id →
    (task.id ∉ s.tasks.map Task.id ∧ s.maxTasks ≤ s.tasks.length) ∧
      (t.status.isTerminal = false → ∀ u ∈ s.tasks, u.status.isTerminal = false)

/-- The calls that respect finished tasks, and an insertion over a task only where nothing else is
evicted. -/
def Respects (s : Store) : Call → Prop
  | .insert order task => ∀ t ∈ s.tasks, t.id = task.id →
      (t.status.isTerminal = true → task.status = t.status ∧ task.messages = t.messages) ∧
        (s.maxTasks ≤ s.tasks.length → evictKey s order = some task.id)
  | .updateStatus taskId status => ∀ t ∈ s.tasks, t.id = taskId → t.status.isTerminal = true →
      status = t.status
  | .complete taskId _ _ | .fail taskId _ => ∀ t ∈ s.tasks, t.id = taskId →
      t.status.isTerminal = false
  | .cancel taskId => ∀ t ∈ s.tasks, t.id = taskId → t.status.isTerminal = true →
      .cancelled = t.status

/-- What holds of a store all along. -/
structure Inv (s : Store) : Prop where
  unique : Table.UniqueKeys Task.id s.tasks
  capacity : s.tasks.length ≤ s.maxTasks
  positive : 0 < s.maxTasks

/-! ### Changes of a task -/

section Modify

variable {s : Store} {c : Call}

/-- A call that changes one task keeps what it should if and only if it keeps a finished one. -/
theorem keeps_modify_iff (taskId : String) (f : Task → Task) (hs : Inv s)
    (hf : ∀ t, (f t).id = t.id)
    (hc : ∀ order task, c ≠ .insert order task)
    (happly : apply s c = { s with tasks := Table.modify Task.id taskId f s.tasks }) :
    Keeps s c ↔ ∀ t ∈ s.tasks, t.id = taskId → t.status.isTerminal = true →
      (f t).status = t.status ∧ (f t).messages = t.messages := by
  constructor
  · intro h t ht hid hterminal
    refine h.finished t ht hterminal (f t) ?_ (hf t)
    rw [happly]
    exact Table.mem_modify.2 (.inl ⟨t, ht, hid, rfl⟩)
  · intro h
    refine ⟨fun t ht hterminal t' ht' hid => ?_, ?_,
      fun order task hinsert => absurd hinsert (hc _ _)⟩
    · rw [happly] at ht'
      obtain ⟨u, hu, huid, rfl⟩ | ⟨ht', -⟩ := Table.mem_modify.1 ht'
      · obtain rfl : u = t := hs.unique.eq hu ht ((hf u).symm.trans hid)
        exact h u ht huid hterminal
      · rw [hs.unique.eq ht' ht hid]
        exact ⟨rfl, rfl⟩
    · rw [happly, ← List.length_map (f := Task.id), Table.keys_modify hf, List.length_map]
      exact hs.capacity

theorem Inv.modify {taskId : String} {f : Task → Task} (hs : Inv s) (hf : ∀ t, (f t).id = t.id) :
    Inv { s with tasks := Table.modify Task.id taskId f s.tasks } where
  unique := hs.unique.modify hf
  capacity := by
    rw [← List.length_map (f := Task.id), Table.keys_modify hf, List.length_map]
    exact hs.capacity
  positive := hs.positive

end Modify

/-! ### Insertions -/

section Insert

variable {s : Store} {order : List String} {key : String} {task : Task}

/-- A full store has something to evict, and an unfinished task only where nothing is finished. -/
theorem evictKey_does (hs : Inv s) (horder : order.Perm (s.tasks.map Task.id))
    (hfull : s.maxTasks ≤ s.tasks.length) :
    ∃ t ∈ s.tasks, evictKey s order = some t.id ∧
      (t.status.isTerminal = false → ∀ u ∈ s.tasks, u.status.isTerminal = false) := by
  have hget : ∀ t ∈ s.tasks, s.get t.id = some t := fun t ht =>
    (Table.lookup_eq_some_iff hs.unique).2 ⟨ht, rfl⟩
  have hmem : ∀ k ∈ order, ∃ t ∈ s.tasks, t.id = k := fun k hk => by
    simpa using horder.subset hk
  unfold evictKey
  cases hfind : order.find? fun k => (s.get k).any fun t => t.status.isTerminal with
  | some k =>
    obtain ⟨t, ht, rfl⟩ := hmem k (List.mem_of_find?_eq_some hfind)
    have hterminal := List.find?_some hfind
    rw [hget t ht] at hterminal
    refine ⟨t, ht, rfl, fun hfalse => ?_⟩
    rw [Option.any_some, hfalse] at hterminal
    cases hterminal
  | none =>
    have hunfinished : ∀ u ∈ s.tasks, u.status.isTerminal = false := by
      intro u hu
      have hk := List.find?_eq_none.1 hfind u.id
        (horder.symm.subset (List.mem_map_of_mem hu))
      rw [hget u hu] at hk
      simpa using hk
    obtain ⟨k, hk⟩ : ∃ k, order.head? = some k := by
      rw [← Option.isSome_iff_exists, List.isSome_head?, ← List.length_pos_iff, horder.length_eq,
        List.length_map]
      exact Nat.lt_of_lt_of_le hs.positive hfull
    obtain ⟨t, ht, rfl⟩ := hmem k (List.mem_of_mem_head? hk)
    exact ⟨t, ht, hk, fun _ => hunfinished⟩

/-- What an insertion leaves of the other tasks. -/
theorem mem_insert (hs : Inv s) (horder : order.Perm (s.tasks.map Task.id)) {t : Task} :
    t ∈ (s.insert order task).tasks ↔ t = task ∨ t ∈ s.tasks ∧ t.id ≠ task.id ∧
      (s.maxTasks ≤ s.tasks.length → evictKey s order ≠ some t.id) := by
  unfold Store.insert
  dsimp only
  rw [Table.mem_upsert]
  split_ifs with hfull
  · obtain ⟨u, -, hkey, -⟩ := evictKey_does hs horder hfull
    rw [hkey]
    dsimp only
    rw [Table.mem_erase]
    exact or_congr_right ⟨fun h => ⟨h.1.1, h.2, fun _ hid => h.1.2 (Option.some.inj hid).symm⟩,
      fun h => ⟨⟨h.1, fun hid => h.2.2 hfull (congrArg some hid.symm)⟩, h.2.1⟩⟩
  · exact or_congr_right ⟨fun h => ⟨h.1, h.2, fun hfull' => absurd hfull' hfull⟩,
      fun h => ⟨h.1, h.2.1⟩⟩

/-- There is room for a task after the eviction. -/
theorem length_insert_le (hs : Inv s) (horder : order.Perm (s.tasks.map Task.id)) :
    (s.insert order task).tasks.length ≤ s.maxTasks := by
  have hroom : ∀ tasks : List Task, tasks.length < s.maxTasks →
      (Table.upsert Task.id task tasks).length ≤ s.maxTasks := by
    intro tasks h
    rw [Table.length_upsert]
    split_ifs
    · exact Nat.le_of_lt h
    · exact h
  unfold Store.insert
  refine hroom _ ?_
  split_ifs with hfull
  · obtain ⟨t, ht, hkey, -⟩ := evictKey_does hs horder hfull
    rw [hkey]
    have herase := hs.unique.length_erase (List.mem_map_of_mem ht)
    have hle := hs.capacity
    show (Table.erase Task.id t.id s.tasks).length < s.maxTasks
    omega
  · exact Nat.lt_of_not_le hfull

theorem Inv.insert (hs : Inv s) (horder : order.Perm (s.tasks.map Task.id)) :
    Inv (s.insert order task) where
  unique := by
    unfold Store.insert
    refine Table.UniqueKeys.upsert ?_
    split
    · split
      · exact hs.unique.erase
      · exact hs.unique
    · exact hs.unique
  capacity := length_insert_le hs horder
  positive := hs.positive

/-- An insertion keeps what it should if and only if it respects finished tasks. -/
theorem keeps_insert_iff (hs : Inv s) (horder : order.Perm (s.tasks.map Task.id)) :
    Keeps s (.insert order task) ↔ Respects s (.insert order task) := by
  have hmem : ∀ t, t ∈ (apply s (.insert order task)).tasks ↔ _ := fun t =>
    @mem_insert s order task hs horder t
  constructor
  · intro h t ht hid
    refine ⟨fun hterminal => ?_, fun hfull => ?_⟩
    · exact h.finished t ht hterminal task ((hmem task).2 (.inl rfl)) hid.symm
    · -- another task would leave although the id is there
      obtain ⟨u, hu, hkey, -⟩ := evictKey_does hs horder hfull
      by_cases huid : u.id = task.id
      · rw [hkey, huid]
      · refine absurd (hid ▸ List.mem_map_of_mem ht) (h.evicts order task rfl u hu huid ?_).1.1
        intro hkept
        obtain ⟨v, hv, hvid⟩ := List.mem_map.1 hkept
        obtain rfl | ⟨-, -, hother⟩ := (hmem v).1 hv
        · exact huid hvid.symm
        · exact hother hfull (hkey.trans (congrArg some hvid.symm))
  · intro h
    refine ⟨fun t ht hterminal t' ht' hid => ?_, length_insert_le hs horder, ?_⟩
    · obtain rfl | ⟨ht', -, -⟩ := (hmem t').1 ht'
      · exact (h t ht hid.symm).1 hterminal
      · rw [hs.unique.eq ht' ht hid]
        exact ⟨rfl, rfl⟩
    · rintro _ _ ⟨rfl, rfl⟩ t ht hid hgone
      have hevicted : s.maxTasks ≤ s.tasks.length ∧ evictKey s order = some t.id := by
        by_contra hnot
        refine hgone (List.mem_map_of_mem ((hmem t).2 (.inr ⟨ht, hid, fun hfull hkey => ?_⟩)))
        exact hnot ⟨hfull, hkey⟩
      obtain ⟨hfull, hkey⟩ := hevicted
      obtain ⟨u, hu, hkey', hunfinished⟩ := evictKey_does hs horder hfull
      obtain rfl : t = u := hs.unique.eq ht hu (Option.some.inj (hkey.symm.trans hkey'))
      refine ⟨⟨fun hthere => hid ?_, hfull⟩, hunfinished⟩
      obtain ⟨v, hv, hvid⟩ := List.mem_map.1 hthere
      exact Option.some.inj (hkey.symm.trans ((h v hv hvid).2 hfull))

end Insert

/-! ### Runs -/

theorem Inv.apply {s : Store} {c : Call} (hs : Inv s) (hc : Possible s c) : Inv (apply s c) := by
  cases c with
  | insert order task => exact hs.insert hc
  | updateStatus taskId status => exact hs.modify fun _ => rfl
  | complete taskId response artifacts => exact hs.modify fun _ => rfl
  | fail taskId errorMessage => exact hs.modify fun _ => rfl
  | cancel taskId => exact hs.modify fun _ => rfl

/-- A call keeps what it should if and only if it respects finished tasks. -/
theorem keeps_iff {s : Store} {c : Call} (hs : Inv s) (hc : Possible s c) :
    Keeps s c ↔ Respects s c := by
  have happend : ∀ (t : Task) (m : Message), t.messages ++ [m] ≠ t.messages := by
    intro t m h
    simpa using congrArg List.length h
  cases c with
  | insert order task => exact keeps_insert_iff hs hc
  | updateStatus taskId status =>
    rw [keeps_modify_iff taskId (fun t => { t with status := status }) hs (fun _ => rfl) (by simp)
      rfl]
    simp [Respects]
  | complete taskId response artifacts =>
    rw [keeps_modify_iff taskId
      (fun t =>
        { t with
          messages := t.messages ++ [response]
          artifacts := t.artifacts ++ artifacts
          status := .completed }) hs (fun _ => rfl) (by simp) rfl]
    simp [Respects]
  | fail taskId errorMessage =>
    rw [keeps_modify_iff taskId
      (fun t => { t with messages := t.messages ++ [errorMessage], status := .failed }) hs
      (fun _ => rfl) (by simp) rfl]
    simp [Respects]
  | cancel taskId =>
    rw [keeps_modify_iff taskId (fun t => { t with status := .cancelled }) hs (fun _ => rfl)
      (by simp) rfl]
    simp [Respects]

theorem inv_empty {maxTasks : ℕ} (h : 0 < maxTasks) : Inv { maxTasks := maxTasks } :=
  ⟨List.nodup_nil, Nat.zero_le _, h⟩

/-- In a run over a store of some capacity every call keeps finished tasks, the capacity and the
tasks that need not leave, if and only if every call respects finished tasks. -/
theorem store_keeps_iff {maxTasks : ℕ} (hpositive : 0 < maxTasks) {calls : List Call}
    (h : Along apply Possible { maxTasks := maxTasks } calls) :
    Along apply Keeps { maxTasks := maxTasks } calls ↔
      Along apply Respects { maxTasks := maxTasks } calls :=
  along_congr h (inv_empty hpositive) (fun _ _ => Inv.apply) fun _ _ => keeps_iff

/-- A task that a request has begun. -/
def begun : Task := ⟨"t", none, .working, [⟨"user", [.text "hi"]⟩], []⟩

/-- A cancellation that arrives while the turn of the task is still running. -/
def cancelledMeanwhile : List Call :=
  [.insert [] begun, .cancel "t", .complete "t" ⟨"agent", [.text "done"]⟩ []]

theorem cancelledMeanwhile_possible :
    Along apply Possible { maxTasks := 1000 } cancelledMeanwhile :=
  ⟨List.Perm.refl _, trivial, trivial, trivial⟩

/-- A run in which a task is cancelled and completed keeps it if and only if it respects it. -/
theorem store_keeps_cancelledMeanwhile :
    Along apply Keeps { maxTasks := 1000 } cancelledMeanwhile ↔
      Along apply Respects { maxTasks := 1000 } cancelledMeanwhile :=
  store_keeps_iff (by decide) cancelledMeanwhile_possible

/-- The task is cancelled, and completed afterwards. -/
theorem store_keeps_fails :
    ¬ ∀ maxTasks, 0 < maxTasks → ∀ calls, Along apply Possible { maxTasks := maxTasks } calls →
      Along apply Keeps { maxTasks := maxTasks } calls := by
  intro hall
  obtain ⟨-, -, hkeeps, -⟩ := hall 1000 (by decide) cancelledMeanwhile cancelledMeanwhile_possible
  have hstatus := (hkeeps.finished { begun with status := .cancelled } (.head []) rfl
    ⟨"t", none, .completed, [⟨"user", [.text "hi"]⟩, ⟨"agent", [.text "done"]⟩], []⟩
    (.head []) rfl).1
  cases hstatus

end A2a
end RustyHand
