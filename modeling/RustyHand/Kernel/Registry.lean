import RustyHand.Types.Agent
import RustyHand.Lib.Table

/-!
# The agent registry

`rusty-hand-kernel/src/registry.rs`: the agents the kernel knows, by id and by name, and
`capabilities.rs`, the grants by agent.  The maps are tables: the rows in the order in which they
came in.
-/

namespace RustyHand

/-- `RustyHandError`, as far as the operations of the kernel model return it. -/
inductive RustyHandError
  | agentNotFound (id : AgentId)
  | agentAlreadyExists (name : String)
  | invalidInput (message : String)
  | internal (message : String)

/-- `AgentRegistry`: the entries by id, and the name index. -/
structure AgentRegistry where
  agents : List AgentEntry := []
  nameIndex : List (String × AgentId) := []

namespace AgentRegistry

/-- `AgentRegistry::get`. -/
def get (r : AgentRegistry) (id : AgentId) : Option AgentEntry :=
  Table.lookup AgentEntry.id id r.agents

/-- `AgentRegistry::register`. -/
def register (r : AgentRegistry) (entry : AgentEntry) : Except RustyHandError AgentRegistry :=
  if (Table.lookup Prod.fst entry.name r.nameIndex).isSome then
    .error (.agentAlreadyExists entry.name)
  else
    .ok { agents := Table.upsert AgentEntry.id entry r.agents
          nameIndex := Table.upsert Prod.fst (entry.name, entry.id) r.nameIndex }

/-- The entry of an agent changed: `get_mut` of the source. -/
def update (r : AgentRegistry) (id : AgentId) (f : AgentEntry → AgentEntry) :
    Except RustyHandError AgentRegistry :=
  match r.get id with
  | none => .error (.agentNotFound id)
  | some _ => .ok { r with agents := Table.modify AgentEntry.id id f r.agents }

/-- `AgentRegistry::set_state`. -/
def setState (r : AgentRegistry) (id : AgentId) (state : AgentState) :
    Except RustyHandError AgentRegistry :=
  r.update id fun entry => { entry with state := state }

/-- `AgentRegistry::set_mode`. -/
def setMode (r : AgentRegistry) (id : AgentId) (mode : AgentMode) :
    Except RustyHandError AgentRegistry :=
  r.update id fun entry => { entry with mode := mode }

/-- `AgentRegistry::update_session_id`. -/
def updateSessionId (r : AgentRegistry) (id : AgentId) (newSessionId : SessionId) :
    Except RustyHandError AgentRegistry :=
  r.update id fun entry => { entry with sessionId := newSessionId }

/-- `AgentRegistry::remove`. -/
def remove (r : AgentRegistry) (id : AgentId) :
    Except RustyHandError (AgentEntry × AgentRegistry) :=
  match r.get id with
  | none => .error (.agentNotFound id)
  | some entry =>
    .ok (entry, { agents := Table.erase AgentEntry.id id r.agents
                  nameIndex := Table.erase Prod.fst entry.name r.nameIndex })

/-- `AgentRegistry::add_child`; a parent that is not registered is passed over. -/
def addChild (r : AgentRegistry) (parentId childId : AgentId) : AgentRegistry :=
  let push := fun entry : AgentEntry => { entry with children := entry.children ++ [childId] }
  { r with agents := Table.modify AgentEntry.id parentId push r.agents }

/-- The ids are keys, the names are pairwise distinct, and the index holds exactly the names. -/
structure WellFormed (r : AgentRegistry) : Prop where
  ids : Table.UniqueKeys AgentEntry.id r.agents
  names : Table.UniqueKeys AgentEntry.name r.agents
  index : r.nameIndex = r.agents.map fun entry => (entry.name, entry.id)

variable {r r' : AgentRegistry} {entry : AgentEntry} {id : AgentId}

theorem WellFormed.empty : WellFormed {} := ⟨List.nodup_nil, List.nodup_nil, rfl⟩

theorem WellFormed.get_eq_some_iff (h : r.WellFormed) :
    r.get id = some entry ↔ entry ∈ r.agents ∧ entry.id = id :=
  Table.lookup_eq_some_iff h.ids

theorem WellFormed.names_nameIndex (h : r.WellFormed) :
    r.nameIndex.map Prod.fst = r.agents.map AgentEntry.name := by
  rw [h.index, List.map_map]
  rfl

/-- What `register` does: the name was free, and the entry is the new last one. -/
theorem register_eq_ok_iff (h : r.WellFormed) (hfresh : entry.id ∉ r.agents.map AgentEntry.id) :
    r.register entry = .ok r' ↔ entry.name ∉ r.agents.map AgentEntry.name ∧
      r' = { agents := r.agents ++ [entry]
             nameIndex := r.nameIndex ++ [(entry.name, entry.id)] } := by
  have hname : (Table.lookup Prod.fst entry.name r.nameIndex).isSome = true ↔
      entry.name ∈ r.agents.map AgentEntry.name := by
    rw [← not_iff_not, Bool.not_eq_true, Option.isSome_eq_false_iff, Option.isNone_iff_eq_none,
      Table.lookup_eq_none_iff, h.names_nameIndex]
  unfold register
  by_cases hmem : entry.name ∈ r.agents.map AgentEntry.name
  · simp [if_pos (hname.2 hmem), hmem]
  · have hindex : (entry.name, entry.id).1 ∉ r.nameIndex.map Prod.fst := by
      rw [h.names_nameIndex]
      exact hmem
    rw [if_neg (fun hsome => hmem (hname.1 hsome)), Table.upsert_of_not_mem hfresh,
      Table.upsert_of_not_mem hindex]
    simp only [Except.ok.injEq, hmem, not_false_eq_true, true_and]
    exact eq_comm

theorem WellFormed.register (h : r.WellFormed) (hfresh : entry.id ∉ r.agents.map AgentEntry.id)
    (hok : r.register entry = .ok r') : r'.WellFormed := by
  obtain ⟨hname, rfl⟩ := (register_eq_ok_iff h hfresh).1 hok
  refine ⟨?_, ?_, ?_⟩
  · show Table.UniqueKeys AgentEntry.id (r.agents ++ [entry])
    rw [← Table.upsert_of_not_mem hfresh]
    exact h.ids.upsert
  · show Table.UniqueKeys AgentEntry.name (r.agents ++ [entry])
    rw [← Table.upsert_of_not_mem hname]
    exact h.names.upsert
  · show r.nameIndex ++ _ = _
    rw [h.index, List.map_append]
    rfl

/-- A change that keeps ids and names. -/
theorem WellFormed.modify {f : AgentEntry → AgentEntry} (h : r.WellFormed)
    (hid : ∀ e, (f e).id = e.id) (hname : ∀ e, (f e).name = e.name) :
    WellFormed { r with agents := Table.modify AgentEntry.id id f r.agents } := by
  refine ⟨h.ids.modify hid, ?_, ?_⟩
  · show List.Nodup (List.map AgentEntry.name (Table.modify AgentEntry.id id f r.agents))
    rw [Table.map_modify hname]
    exact h.names
  · show r.nameIndex = _
    rw [h.index, Table.map_modify]
    intro e
    rw [hid, hname]

theorem update_eq_ok_iff {f : AgentEntry → AgentEntry} : r.update id f = .ok r' ↔
    (∃ entry, r.get id = some entry) ∧
      r' = { r with agents := Table.modify AgentEntry.id id f r.agents } := by
  unfold update
  cases hget : r.get id with
  | none => simp
  | some entry =>
    simp only [Except.ok.injEq, Option.some.injEq, exists_eq', true_and]
    exact eq_comm

theorem remove_eq_ok_iff : r.remove id = .ok (entry, r') ↔ r.get id = some entry ∧
    r' = { agents := Table.erase AgentEntry.id id r.agents
           nameIndex := Table.erase Prod.fst entry.name r.nameIndex } := by
  unfold remove
  cases hget : r.get id with
  | none => simp
  | some e =>
    simp only [Except.ok.injEq, Prod.mk.injEq, Option.some.injEq]
    constructor
    · rintro ⟨rfl, rfl⟩
      exact ⟨rfl, rfl⟩
    · rintro ⟨rfl, rfl⟩
      exact ⟨rfl, rfl⟩

theorem WellFormed.remove (h : r.WellFormed) (hok : r.remove id = .ok (entry, r')) :
    r'.WellFormed := by
  obtain ⟨hget, rfl⟩ := remove_eq_ok_iff.1 hok
  obtain ⟨hmem, rfl⟩ := h.get_eq_some_iff.1 hget
  refine ⟨h.ids.erase, h.names.sublist (List.filter_sublist.map _), ?_⟩
  show Table.erase Prod.fst entry.name r.nameIndex = _
  rw [h.index, Table.erase, Table.erase, List.filter_map]
  refine congrArg _ (List.filter_congr fun e he => ?_)
  -- the agent with this name is the one with this id
  have hiff : e.name = entry.name ↔ e.id = entry.id := by
    constructor
    · intro heq
      rw [h.names.eq he hmem heq]
    · intro heq
      rw [h.ids.eq he hmem heq]
  simp [hiff]

end AgentRegistry

/-- `CapabilityManager`: the grants of each agent. -/
structure CapabilityManager where
  grants : List (AgentId × List Capability) := []

namespace CapabilityManager

/-- `CapabilityManager::grant`. -/
def grant (c : CapabilityManager) (id : AgentId) (capabilities : List Capability) :
    CapabilityManager :=
  { grants := Table.upsert Prod.fst (id, capabilities) c.grants }

/-- `CapabilityManager::list`. -/
def list (c : CapabilityManager) (id : AgentId) : List Capability :=
  ((Table.lookup Prod.fst id c.grants).map Prod.snd).getD []

/-- `CapabilityManager::revoke_all`. -/
def revokeAll (c : CapabilityManager) (id : AgentId) : CapabilityManager :=
  { grants := Table.erase Prod.fst id c.grants }

theorem list_grant (c : CapabilityManager) (id other : AgentId) (capabilities : List Capability) :
    (c.grant id capabilities).list other = if other = id then capabilities else c.list other := by
  unfold list grant
  rw [Table.lookup_upsert]
  split
  · rfl
  · rfl

end CapabilityManager

end RustyHand
