import RustyHand.Lib.Runs
import RustyHand.Lib.Table
import RustyHand.Lib.WorkItem
import RustyHand.Types.Json

/-!
# The shared task queue

`task_post`, `task_claim` and `task_complete` of `rusty-hand-memory/src/substrate.rs`, called by the
tools of the same names (`rusty-hand-runtime/src/tool_runner.rs`).  Each runs under the lock of the
database.  New ids and times are part of a call, and so is the row that a query with `LIMIT 1`
returns, of those that it may return.

* `Queue`, `Call`, `apply`: the table, and what each call does to it;
* `item`, `acts`: the tasks as work items, and what the calls do to them;
* `life_iff`: the tasks live as work items if and only if they are completed by those who claimed
  them.
-/

namespace RustyHand
namespace TaskQueue

open Runs WorkItem

/-- The values of the column `status`. -/
inductive Status
  | pending
  | inProgress
  | completed
  deriving DecidableEq

/-- A row of `task_queue`. -/
structure Row where
  id : String
  title : String
  description : String
  status : Status := .pending
  priority : ℤ := 0
  createdAt : String
  assignedTo : String
  createdBy : String
  result : String := ""
  completedAt : Option String := none
  deriving DecidableEq

/-- The table. -/
abbrev Queue : Type := List Row

/-! ### The queries -/

/-- The row that `task_post` inserts. -/
def postedRow (title description : String) (assignedTo createdBy : Option String)
    (id now : String) : Row where
  id := id
  title := title
  description := description
  createdAt := now
  assignedTo := assignedTo.getD ""
  createdBy := createdBy.getD ""

/-- `task_post`; an id that is there already is an error. -/
def taskPost (q : Queue) (title description : String) (assignedTo createdBy : Option String)
    (id now : String) : Except String String × Queue :=
  if id ∈ q.map Row.id then (.error "UNIQUE constraint failed: task_queue.id", q)
  else (.ok id, q ++ [postedRow title description assignedTo createdBy id now])

/-- `status = 'pending' AND (assigned_to = ?1 OR assigned_to = '')`. -/
def Row.isFor (agentId : String) (r : Row) : Bool :=
  r.status = .pending && (r.assignedTo = agentId || r.assignedTo = "")

/-- `ORDER BY priority DESC, created_at ASC`. -/
def Row.before (r r' : Row) : Prop :=
  r'.priority < r.priority ∨ r'.priority = r.priority ∧ r.createdAt ≤ r'.createdAt

/-- The query of `task_claim` may return the row, or none. -/
def Selects (q : Queue) (agentId : String) : Option Row → Prop
  | none => ∀ r ∈ q, r.isFor agentId = false
  | some r => r ∈ q ∧ r.isFor agentId = true ∧ ∀ r' ∈ q, r'.isFor agentId = true → r.before r'

/-- `SET status = 'in_progress', assigned_to = ?2`. -/
def Row.claim (agentId : String) (r : Row) : Row :=
  { r with status := .inProgress, assignedTo := agentId }

/-- `SET status = 'completed', result = ?2, completed_at = ?3`. -/
def Row.complete (result now : String) (r : Row) : Row :=
  { r with status := .completed, result := result, completedAt := some now }

/-- `task_claim`, with the row that the query returns. -/
def taskClaim (q : Queue) (agentId : String) (selected : Option Row) : Option Row × Queue :=
  match selected with
  | none => (none, q)
  | some r =>
    (some { r with
        status := .inProgress
        assignedTo := if r.assignedTo = "" then agentId else r.assignedTo },
      Table.modify Row.id r.id (Row.claim agentId) q)

/-- `task_complete`. -/
def taskComplete (q : Queue) (taskId result now : String) : Except String Unit × Queue :=
  if taskId ∈ q.map Row.id then
    (.ok (), Table.modify Row.id taskId (Row.complete result now) q)
  else (.error ("Task not found: " ++ taskId), q)

/-! ### The tools -/

/-- A parameter of a tool. -/
def parameter (input : Json) (name : String) : Except String String :=
  match (input.index name).asStr with
  | some value => .ok value
  | none => .error ("Missing '" ++ name ++ "' parameter")

/-- `tool_task_post`. -/
def toolTaskPost (q : Queue) (callerAgentId : Option String) (input : Json) (id now : String) :
    Except String String × Queue :=
  match parameter input "title" with
  | .error e => (.error e, q)
  | .ok title =>
    match parameter input "description" with
    | .error e => (.error e, q)
    | .ok description =>
      let r := taskPost q title description (input.index "assigned_to").asStr callerAgentId id now
      (r.1.map ("Task created with ID: " ++ ·), r.2)

/-- `tool_task_claim`. -/
def toolTaskClaim (q : Queue) (callerAgentId : Option String) (selected : Option Row) :
    Option Row × Queue :=
  taskClaim q (callerAgentId.getD "") selected

/-- `tool_task_complete`, which does not look at the caller. -/
def toolTaskComplete (q : Queue) (input : Json) (now : String) : Except String String × Queue :=
  match parameter input "task_id" with
  | .error e => (.error e, q)
  | .ok taskId =>
    match parameter input "result" with
    | .error e => (.error e, q)
    | .ok result =>
      let r := taskComplete q taskId result now
      (r.1.map fun _ => "Task " ++ taskId ++ " marked as completed.", r.2)

/-- A call of a tool by an agent. -/
inductive Call
  | post (caller : Option String) (input : Json) (id now : String)
  | claim (caller : Option String) (selected : Option Row)
  | complete (caller : Option String) (input : Json) (now : String)

/-- What a call does to the table. -/
def apply (q : Queue) : Call → Queue
  | .post caller input id now => (toolTaskPost q caller input id now).2
  | .claim caller selected => (toolTaskClaim q caller selected).2
  | .complete _ input now => (toolTaskComplete q input now).2

/-- The calls that can be made: a query returns a row that it may return. -/
def Possible (q : Queue) : Call → Prop
  | .claim caller selected => Selects q (caller.getD "") selected
  | _ => True

/-! ### Tasks as work items -/

/-- The agent that a task is assigned to; the empty text stands for none. -/
def assignee (assignedTo : String) : Option String :=
  if assignedTo = "" then none else some assignedTo

/-- The work item of a row. -/
def Row.item (r : Row) : Item String String :=
  match r.status with
  | .pending => .posted (assignee r.assignedTo)
  | .inProgress => .taken r.assignedTo
  | .completed => .done r.assignedTo r.result

theorem Row.item_claim (agentId : String) (r : Row) : (r.claim agentId).item = .taken agentId := rfl

theorem Row.item_complete (result now : String) (r : Row) :
    (r.complete result now).item = .done r.assignedTo result := rfl

theorem Row.item_of_pending {r : Row} (h : r.status = .pending) :
    r.item = .posted (assignee r.assignedTo) := by
  rw [Row.item, h]

theorem Row.item_of_inProgress {r : Row} (h : r.status = .inProgress) :
    r.item = .taken r.assignedTo := by
  rw [Row.item, h]

/-- The work item of a task. -/
def item (q : Queue) (id : String) : Option (Item String String) :=
  (Table.lookup Row.id id q).map Row.item

/-- What a call does to a task, and who calls. -/
def acts (q : Queue) (c : Call) (id : String) : List (String × Act String String) :=
  match c with
  | .post caller input newId _ =>
    match parameter input "title", parameter input "description" with
    | .ok _, .ok _ =>
      if newId = id ∧ newId ∉ q.map Row.id then
        [(caller.getD "", .post (assignee ((input.index "assigned_to").asStr.getD "")))]
      else []
    | _, _ => []
  | .claim caller selected =>
    match selected with
    | some r => if r.id = id then [(caller.getD "", .take)] else []
    | none => []
  | .complete caller input _ =>
    match parameter input "task_id", parameter input "result" with
    | .ok taskId, .ok result =>
      if taskId = id ∧ taskId ∈ q.map Row.id then [(caller.getD "", .finish result)] else []
    | _, _ => []

/-- What some calls do to a task. -/
def history (q : Queue) : List Call → String → List (String × Act String String)
  | [], _ => []
  | c :: calls, id => acts q c id ++ history (apply q c) calls id

/-- A task is completed only by the agent that claimed it, and only once. -/
def Rightful (q : Queue) : Call → Prop
  | .complete caller input _ => ∀ taskId result, parameter input "task_id" = .ok taskId →
      parameter input "result" = .ok result → ∀ r ∈ q, r.id = taskId →
      r.status = .inProgress ∧ r.assignedTo = caller.getD ""
  | _ => True

/-! ### One call -/

section Step

variable {q : Queue} {c : Call} {r : Row} {id : String} {f : Row → Row}

theorem item_of_mem (hq : Table.UniqueKeys Row.id q) (hr : r ∈ q) : item q r.id = some r.item := by
  rw [item, (Table.lookup_eq_some_iff hq).2 ⟨hr, rfl⟩]
  rfl

theorem item_eq_none (h : id ∉ q.map Row.id) : item q id = none := by
  rw [item, Table.lookup_eq_none_iff.2 h]
  rfl

theorem item_modify (hq : Table.UniqueKeys Row.id q) (hf : ∀ r, (f r).id = r.id) (hr : r ∈ q)
    (id : String) : item (Table.modify Row.id r.id f q) id =
      if r.id = id then some (f r).item else item q id := by
  have hunique := hq.modify hf (k := r.id)
  split_ifs with hid
  · subst hid
    have hitem := item_of_mem hunique (Table.mem_modify.2 (.inl ⟨r, hr, rfl, rfl⟩))
    rwa [hf r] at hitem
  · by_cases hmem : id ∈ q.map Row.id
    · obtain ⟨r', hr', rfl⟩ := List.mem_map.1 hmem
      rw [item_of_mem hq hr']
      exact item_of_mem hunique (Table.mem_modify.2 (.inr ⟨hr', fun h => hid h.symm⟩))
    · rw [item_eq_none hmem]
      refine item_eq_none ?_
      rwa [Table.keys_modify hf]

theorem unique_posted {title description now : String} {assignedTo createdBy : Option String}
    (hq : Table.UniqueKeys Row.id q) (h : id ∉ q.map Row.id) :
    Table.UniqueKeys Row.id (q ++ [postedRow title description assignedTo createdBy id now]) := by
  have hupsert := hq.upsert (x := postedRow title description assignedTo createdBy id now)
  rwa [Table.upsert_of_not_mem h] at hupsert

/-- A new row. -/
theorem item_posted {title description now : String} {assignedTo createdBy : Option String}
    (h : id ∉ q.map Row.id) (id' : String) :
    item (q ++ [postedRow title description assignedTo createdBy id now]) id' =
      if id = id' then some (.posted (assignee (assignedTo.getD ""))) else item q id' := by
  rw [item, ← Table.upsert_of_not_mem h, Table.lookup_upsert]
  have hposted : (postedRow title description assignedTo createdBy id now).id = id := rfl
  rw [hposted]
  by_cases hid : id = id'
  · rw [if_pos hid.symm, if_pos hid]
    rfl
  · rw [if_neg fun h => hid h.symm, if_neg hid]
    rfl

theorem unique_apply (hq : Table.UniqueKeys Row.id q) (c : Call) :
    Table.UniqueKeys Row.id (apply q c) := by
  cases c with
  | post caller input newId now =>
    simp only [apply, toolTaskPost, taskPost]
    split
    · exact hq
    · split
      · exact hq
      · split_ifs with hmem
        · exact hq
        · exact unique_posted hq hmem
  | claim caller selected =>
    cases selected with
    | none => exact hq
    | some r => exact hq.modify fun _ => rfl
  | complete caller input now =>
    simp only [apply, toolTaskComplete, taskComplete]
    split
    · exact hq
    · split
      · exact hq
      · split_ifs
        · exact hq.modify fun _ => rfl
        · exact hq

/-- A call that completes only what its caller has claimed does to every task what it may. -/
theorem life_step (hq : Table.UniqueKeys Row.id q) (hc : Possible q c) (h : Rightful q c)
    (id : String) : Life (item q id) (acts q c id) (item (apply q c) id) := by
  cases c with
  | post caller input newId now =>
    simp only [apply, toolTaskPost, taskPost, acts]
    cases htitle : parameter input "title" with
    | error e => exact .refl _
    | ok title =>
      cases hdescription : parameter input "description" with
      | error e => exact .refl _
      | ok description =>
        dsimp only
        by_cases hmem : newId ∈ q.map Row.id
        · rw [if_pos hmem, if_neg fun h => h.2 hmem]
          exact .refl _
        · rw [if_neg hmem]
          dsimp only
          rw [item_posted hmem]
          by_cases hid : newId = id
          · subst hid
            rw [if_pos rfl, if_pos ⟨rfl, hmem⟩, item_eq_none hmem]
            exact .cons rfl (.refl _)
          · rw [if_neg hid, if_neg fun h => hid h.1]
            exact .refl _
  | claim caller selected =>
    cases selected with
    | none => exact .refl _
    | some r =>
      obtain ⟨hr, hfor, -⟩ := hc
      simp only [apply, toolTaskClaim, taskClaim, acts]
      rw [item_modify (f := Row.claim _) hq (fun _ => rfl) hr]
      split_ifs with hid
      · subst hid
        rw [item_of_mem hq hr]
        refine .cons ?_ (.refl _)
        simp only [Row.isFor, Bool.and_eq_true, Bool.or_eq_true, decide_eq_true_eq] at hfor
        obtain ⟨hpending, hassigned⟩ := hfor
        rw [Row.item_of_pending hpending, Row.item_claim, assignee]
        split_ifs with hnone
        · rfl
        · rw [hassigned.resolve_right hnone]
          exact if_pos rfl
      · exact .refl _
  | complete caller input now =>
    simp only [apply, toolTaskComplete, taskComplete, acts]
    cases htask : parameter input "task_id" with
    | error e => exact .refl _
    | ok taskId =>
      cases hresult : parameter input "result" with
      | error e => exact .refl _
      | ok result =>
        dsimp only
        by_cases hmem : taskId ∈ q.map Row.id
        · rw [if_pos hmem]
          obtain ⟨r, hr, rfl⟩ := List.mem_map.1 hmem
          dsimp only
          rw [item_modify (f := Row.complete _ _) hq (fun _ => rfl) hr]
          obtain ⟨hstatus, hassigned⟩ := h r.id result htask hresult r hr rfl
          by_cases hid : r.id = id
          · subst hid
            rw [if_pos rfl, if_pos ⟨rfl, hmem⟩, item_of_mem hq hr]
            refine .cons ?_ (.refl _)
            rw [Row.item_of_inProgress hstatus, Row.item_complete, hassigned]
            exact if_pos rfl
          · rw [if_neg hid, if_neg fun h => hid h.1]
            exact .refl _
        · rw [if_neg hmem, if_neg fun h => hmem h.2]
          exact .refl _

/-- A call that does to every task what it may completes only what its caller has claimed. -/
theorem rightful_of_life (hq : Table.UniqueKeys Row.id q)
    (h : ∀ id, ∃ y, Life (item q id) (acts q c id) y) : Rightful q c := by
  cases c with
  | post caller input newId now => trivial
  | claim caller selected => trivial
  | complete caller input now =>
    intro taskId result htask hresult r hr hid
    subst hid
    obtain ⟨y, hlife⟩ := h r.id
    rw [item_of_mem hq hr] at hlife
    simp only [acts, htask, hresult] at hlife
    rw [if_pos ⟨trivial, List.mem_map_of_mem hr⟩] at hlife
    cases hlife with
    | cons hstep _ =>
      unfold Row.item at hstep
      cases hstatus : r.status with
      | pending => simp [hstatus, WorkItem.step] at hstep
      | completed => simp [hstatus, WorkItem.step] at hstep
      | inProgress =>
        simp only [hstatus, WorkItem.step] at hstep
        split_ifs at hstep with hagent
        exact ⟨rfl, hagent⟩

end Step

/-! ### Runs -/

theorem unique_nil : Table.UniqueKeys Row.id ([] : Queue) := List.nodup_nil

theorem life_history_iff {q : Queue} {calls : List Call} (hq : Table.UniqueKeys Row.id q)
    (h : Along apply Possible q calls) :
    (∀ id, Life (item q id) (history q calls id) (item (run apply q calls) id)) ↔
      Along apply Rightful q calls := by
  induction calls generalizing q with
  | nil => exact iff_of_true (fun id => .refl _) trivial
  | cons c calls ih =>
    have hrest := ih (unique_apply hq c) h.2
    constructor
    · intro hlife
      have hsplit := fun id => life_append_iff.1 (hlife id)
      have hrightful := rightful_of_life hq fun id => ⟨_, (hsplit id).choose_spec.1⟩
      refine ⟨hrightful, hrest.1 fun id => ?_⟩
      obtain ⟨y, hy, hlife'⟩ := hsplit id
      rwa [hy.unique (life_step hq h.1 hrightful id)] at hlife'
    · rintro ⟨hrightful, hcalls⟩ id
      exact (life_step hq h.1 hrightful id).trans (hrest.2 hcalls id)

/-- At every time of a run each task has been posted, claimed and completed once at most, in this
order, by its assignee and by the agent that claimed it, and its row says so, if and only if every
call completes only what its caller has claimed. -/
theorem life_iff {calls : List Call} (h : Along apply Possible [] calls) :
    (∀ calls', calls' <+: calls → ∀ id,
        Life none (history [] calls' id) (item (run apply [] calls') id)) ↔
      Along apply Rightful [] calls := by
  constructor
  · intro hlife
    exact (life_history_iff unique_nil h).1 (hlife calls (List.prefix_refl _))
  · rintro hrightful calls' ⟨rest, rfl⟩
    exact (life_history_iff unique_nil (along_append.1 h).1).2 (along_append.1 hrightful).1

/-! ### A task -/

/-- The input of `task_post`. -/
def reviewInput : Json := .object [("title", .string "review"), ("description", .string "the code")]

/-- The row that it becomes. -/
def reviewRow : Row := postedRow "review" "the code" none (some "alice") "t" "2026-01-01T00:00:00Z"

/-- The input of `task_complete`. -/
def doneInput : Json := .object [("task_id", .string "t"), ("result", .string "fine")]

/-- A task that is posted, claimed by another agent and completed by that agent. -/
def reviewed : List Call :=
  [.post (some "alice") reviewInput "t" "2026-01-01T00:00:00Z",
    .claim (some "bob") (some reviewRow),
    .complete (some "bob") doneInput "2026-01-01T00:01:00Z"]

theorem reviewed_possible : Along apply Possible [] reviewed := by
  have hposted : apply [] (.post (some "alice") reviewInput "t" "2026-01-01T00:00:00Z") =
      [reviewRow] := by decide
  refine ⟨trivial, ?_, trivial, trivial⟩
  rw [hposted]
  refine ⟨.head _, by decide, fun r hr _ => ?_⟩
  rw [List.mem_singleton.1 hr]
  exact .inr ⟨rfl, String.le_refl _⟩

/-- The task has a life if and only if its result comes from the agent that claimed it. -/
theorem life_reviewed :
    (∀ calls', calls' <+: reviewed → ∀ id,
        Life none (history [] calls' id) (item (run apply [] calls') id)) ↔
      Along apply Rightful [] reviewed := life_iff reviewed_possible

/-- An agent completes a task that nobody has claimed. -/
theorem life_fails :
    ¬ ∀ calls, Along apply Possible [] calls → ∀ id,
      Life none (history [] calls id) (item (run apply [] calls) id) := by
  intro hall
  have hlife := hall
    [.post (some "alice") reviewInput "t" "2026-01-01T00:00:00Z",
      .complete (some "mallory") doneInput "2026-01-01T00:01:00Z"] ⟨trivial, trivial, trivial⟩ "t"
  have hhistory : history []
      [.post (some "alice") reviewInput "t" "2026-01-01T00:00:00Z",
        .complete (some "mallory") doneInput "2026-01-01T00:01:00Z"] "t" =
      [("alice", .post none), ("mallory", .finish "fine")] := by rfl
  rw [hhistory] at hlife
  obtain h | ⟨poster, assignee, h | ⟨agent, -, h | ⟨result, h⟩⟩⟩ := hlife.of_none
  all_goals simp at h

end TaskQueue
end RustyHand
