import RustyHand.Kernel.Kernel

/-!
# What the operations of the kernel do

One lemma for each operation says all that it can do to the registry and to the table of agents.
From these follows the invariant of the kernel (`WellFormed`): ids are keys in both, and every
registered agent has its row in the store.
-/

namespace RustyHand
namespace Kernel

open AgentRegistry

/-- The invariant of the kernel. -/
structure WellFormed (k : Kernel) : Prop where
  registry : k.registry.WellFormed
  rowIds : Table.UniqueKeys AgentRow.id k.memory.agents
  stored : ∀ entry ∈ k.registry.agents, ∃ row ∈ k.memory.agents,
    row.id = entry.id ∧ row.name = entry.name
  drawn : ∀ row ∈ k.memory.agents, row.id < k.nextId

theorem WellFormed.drawn_agents {k : Kernel} (h : k.WellFormed) :
    ∀ entry ∈ k.registry.agents, entry.id < k.nextId := by
  intro entry hentry
  obtain ⟨row, hrow, hid, -⟩ := h.stored entry hentry
  rw [← hid]
  exact h.drawn row hrow

theorem WellFormed.nextId_agents {k : Kernel} (h : k.WellFormed) :
    k.nextId ∉ k.registry.agents.map AgentEntry.id := by
  intro hmem
  obtain ⟨entry, hentry, heq⟩ := List.mem_map.1 hmem
  exact absurd heq (h.drawn_agents entry hentry).ne

/-- Nor that of a stored one. -/
theorem WellFormed.nextId_rows {k : Kernel} (h : k.WellFormed) :
    k.nextId ∉ k.memory.agents.map AgentRow.id := by
  intro hmem
  obtain ⟨row, hrow, heq⟩ := List.mem_map.1 hmem
  exact absurd heq (h.drawn row hrow).ne

/-- The entry that a spawn makes. -/
def spawnedEntry (k : Kernel) (manifest : AgentManifest) (group : Option String)
    (parent : Option AgentId) : AgentEntry :=
  { id := k.nextId, name := manifest.name, manifest := { manifest with group := group }
    state := .running, mode := AgentMode.default, parent := parent, children := []
    sessionId := k.nextId + 1 }

/-- The registry with a new child for a parent, if there is one. -/
def linked (agents : List AgentEntry) (parent : Option AgentId) (id : AgentId) :
    List AgentEntry :=
  match parent with
  | none => agents
  | some parentId => Table.modify AgentEntry.id parentId
      (fun entry => { entry with children := entry.children ++ [id] }) agents

variable {k k' : Kernel} {manifest : AgentManifest} {parent : Option AgentId}
  {workspace : Except String Unit} {agentId : AgentId}

/-- **What a spawn can do**: nothing to the registered and the stored agents, or a new agent under
a name that was free, with the capabilities of its manifest. -/
theorem spawnAgentWithParent_cases (h : k.WellFormed) {r : Except RustyHandError AgentId}
    (hrun : k.spawnAgentWithParent manifest parent workspace = (r, k')) :
    (k.nextId < k'.nextId ∧ k'.agentRestarts = k.agentRestarts ∧
      ∀ id, id ≠ k.nextId → k'.capabilities.list id = k.capabilities.list id) ∧
    (((∃ e, r = .error e) ∧ k'.registry = k.registry ∧
        k'.memory.agents = k.memory.agents) ∨
      ∃ group, r = .ok k.nextId ∧ manifest.name ∉ k.registry.agents.map AgentEntry.name ∧
        k'.registry.agents =
          linked (k.registry.agents ++ [k.spawnedEntry manifest group parent]) parent k.nextId ∧
        k'.registry.nameIndex = k.registry.nameIndex ++ [(manifest.name, k.nextId)] ∧
        k'.memory.agents = k.memory.agents ++ [(k.spawnedEntry manifest group parent).toRow] ∧
        k'.capabilities.list k.nextId = manifest.toCapabilities) := by
  dsimp only [spawnAgentWithParent] at hrun
  split at hrun
  · obtain ⟨rfl, rfl⟩ := Prod.mk.inj hrun
    exact ⟨⟨by show _ < _ + 2; omega, rfl, fun _ _ => rfl⟩, Or.inl ⟨⟨_, rfl⟩, rfl, rfl⟩⟩
  rename_i group hgroup
  split at hrun
  · obtain ⟨rfl, rfl⟩ := Prod.mk.inj hrun
    exact ⟨⟨by show _ < _ + 2; omega, rfl, fun _ _ => rfl⟩, Or.inl ⟨⟨_, rfl⟩, rfl, rfl⟩⟩
  split at hrun
  · obtain ⟨rfl, rfl⟩ := Prod.mk.inj hrun
    refine ⟨⟨by show _ < _ + 2; omega, rfl, fun id hid => ?_⟩, Or.inl ⟨⟨_, rfl⟩, rfl, rfl⟩⟩
    show (k.capabilities.grant _ _).list id = _
    rw [CapabilityManager.list_grant, if_neg hid]
  · rename_i registry hregister
    obtain ⟨hname, rfl⟩ := (register_eq_ok_iff h.registry h.nextId_agents).1 hregister
    obtain ⟨rfl, rfl⟩ := Prod.mk.inj hrun
    refine ⟨⟨by show _ < _ + 2; omega, rfl, fun id hid => ?_⟩, Or.inr ⟨group, rfl, hname, ?_⟩⟩
    · show (k.capabilities.grant _ _).list id = _
      rw [CapabilityManager.list_grant, if_neg hid]
    · refine ⟨?_, ?_, Table.upsert_of_not_mem h.nextId_rows, ?_⟩
      · cases parent <;> rfl
      · cases parent <;> rfl
      · show (k.capabilities.grant _ _).list k.nextId = _
        rw [CapabilityManager.list_grant, if_pos rfl]
        rfl

theorem linked_map {β : Type*} {g : AgentEntry → β}
    (hg : ∀ entry children, g { entry with children := children } = g entry)
    (agents : List AgentEntry) (parent : Option AgentId) (id : AgentId) :
    (linked agents parent id).map g = agents.map g := by
  cases parent with
  | none => rfl
  | some parentId => exact Table.map_modify (fun entry => hg entry _) parentId agents

/-- Any property that does not look at the children passes through `linked`. -/
theorem mem_linked {agents : List AgentEntry} {id : AgentId} {entry : AgentEntry}
    (h : entry ∈ linked agents parent id) :
    ∃ old ∈ agents, ∃ children, entry = { old with children := children } := by
  cases parent with
  | none => exact ⟨entry, h, entry.children, rfl⟩
  | some parentId =>
    rcases Table.mem_modify.1 h with ⟨old, hold, -, rfl⟩ | ⟨hold, -⟩
    · exact ⟨old, hold, _, rfl⟩
    · exact ⟨entry, hold, entry.children, rfl⟩

/-- The kernel after the first half of a restart: the agent is gone from memory, not from the
store. -/
def dropped (k : Kernel) (entry : AgentEntry) : Kernel :=
  { k with
    registry := { agents := Table.erase AgentEntry.id entry.id k.registry.agents
                  nameIndex := Table.erase Prod.fst entry.name k.registry.nameIndex }
    capabilities := k.capabilities.revokeAll entry.id
    agentRestarts := Table.upsert Prod.fst (entry.id, k.agentRestartCount entry.id + 1)
      k.agentRestarts }

theorem killAgent_cases (h : k.WellFormed) {r : Except RustyHandError Unit}
    (hrun : k.killAgent agentId = (r, k')) :
    (k' = k ∧ r = .error (.agentNotFound agentId)) ∨
      ∃ entry ∈ k.registry.agents, entry.id = agentId ∧ r = .ok () ∧
        k' = { k with registry := (k.dropped entry).registry
                      capabilities := (k.dropped entry).capabilities
                      memory := k.memory.removeAgent agentId } := by
  unfold killAgent at hrun
  cases hremove : k.registry.remove agentId with
  | error e =>
    simp only [hremove] at hrun
    obtain ⟨rfl, rfl⟩ := Prod.mk.inj hrun
    refine Or.inl ⟨rfl, ?_⟩
    unfold AgentRegistry.remove at hremove
    split at hremove
    · cases hremove
      rfl
    · cases hremove
  | ok removed =>
    obtain ⟨entry, registry⟩ := removed
    simp only [hremove] at hrun
    obtain ⟨rfl, rfl⟩ := Prod.mk.inj hrun
    obtain ⟨hget, rfl⟩ := remove_eq_ok_iff.1 hremove
    obtain ⟨hmem, rfl⟩ := h.registry.get_eq_some_iff.1 hget
    exact Or.inr ⟨entry, hmem, rfl, rfl, rfl⟩

/-- What `restart_agent` can do: nothing; drop the agent; or drop it and spawn it anew. -/
theorem restartAgent_cases (h : k.WellFormed) {r : Except RustyHandError (AgentId × AgentId)}
    (hrun : k.restartAgent agentId workspace = (r, k')) :
    k' = k ∨ ∃ entry ∈ k.registry.agents, entry.id = agentId ∧
      (k' = k.dropped entry ∨
        ∃ agentRestarts,
          k' = { (((k.dropped entry).spawnAgentWithParent entry.manifest none workspace).2) with
                 agentRestarts := agentRestarts }) := by
  dsimp only [restartAgent] at hrun
  cases hremove : k.registry.remove agentId with
  | error e =>
    simp only [hremove] at hrun
    exact Or.inl (Prod.mk.inj hrun).2.symm
  | ok removed =>
    obtain ⟨entry, registry⟩ := removed
    simp only [hremove] at hrun
    obtain ⟨hget, rfl⟩ := remove_eq_ok_iff.1 hremove
    obtain ⟨hmem, rfl⟩ := h.registry.get_eq_some_iff.1 hget
    refine Or.inr ⟨entry, hmem, rfl, ?_⟩
    split at hrun
    · exact Or.inl (Prod.mk.inj hrun).2.symm
    · right
      split at hrun
      · rename_i hspawn
        obtain ⟨-, rfl⟩ := Prod.mk.inj hrun
        exact ⟨_, congrArg Prod.snd hspawn.symm⟩
      · rename_i newId k₂ hspawn
        obtain ⟨-, rfl⟩ := Prod.mk.inj hrun
        have hspawn' : ((k.dropped entry).spawnAgentWithParent entry.manifest none workspace).2 =
          k₂ := congrArg Prod.snd hspawn
        rw [hspawn']
        exact ⟨_, rfl⟩

/-- A change of one entry that keeps its id, name and manifest. -/
def entryChanged (k : Kernel) (agentId : AgentId) (f : AgentEntry → AgentEntry) : Kernel :=
  { k with registry :=
      { k.registry with agents := Table.modify AgentEntry.id agentId f k.registry.agents } }

/-- What the operations on the current session can do: nothing to the registered and the stored
agents, or another current session for the agent.  The grants stay. -/
theorem sessionOp_cases (k : Kernel) {op : Op} (hop : op.switches agentId = true) :
    (k.apply op).memory.agents = k.memory.agents ∧ k.nextId ≤ (k.apply op).nextId ∧
      (k.apply op).capabilities = k.capabilities ∧
      ((k.apply op).registry = k.registry ∨ ∃ sessionId, (k.apply op).registry =
        (k.entryChanged agentId fun entry => { entry with sessionId := sessionId }).registry) := by
  cases op with
  | resetSession id =>
    obtain rfl : id = agentId := by simpa [Op.switches] using hop
    dsimp only [apply, resetSession]
    split
    · exact ⟨rfl, le_rfl, rfl, Or.inl rfl⟩
    split
    · exact ⟨rfl, Nat.le_succ _, rfl, Or.inl rfl⟩
    · rename_i hupdate
      obtain ⟨-, rfl⟩ := update_eq_ok_iff.1 hupdate
      exact ⟨rfl, Nat.le_succ _, rfl, Or.inr ⟨_, rfl⟩⟩
  | createAgentSession id label =>
    obtain rfl : id = agentId := by simpa [Op.switches] using hop
    dsimp only [apply, createAgentSession]
    split
    · exact ⟨rfl, le_rfl, rfl, Or.inl rfl⟩
    split
    · exact ⟨rfl, Nat.le_succ _, rfl, Or.inl rfl⟩
    · rename_i hupdate
      obtain ⟨-, rfl⟩ := update_eq_ok_iff.1 hupdate
      exact ⟨rfl, Nat.le_succ _, rfl, Or.inr ⟨_, rfl⟩⟩
  | switchAgentSession id sessionId =>
    obtain rfl : id = agentId := by simpa [Op.switches] using hop
    dsimp only [apply, switchAgentSession]
    split
    · exact ⟨rfl, le_rfl, rfl, Or.inl rfl⟩
    split
    · exact ⟨rfl, le_rfl, rfl, Or.inl rfl⟩
    split
    · exact ⟨rfl, le_rfl, rfl, Or.inl rfl⟩
    split
    · exact ⟨rfl, le_rfl, rfl, Or.inl rfl⟩
    · rename_i hupdate
      obtain ⟨-, rfl⟩ := update_eq_ok_iff.1 hupdate
      exact ⟨rfl, le_rfl, rfl, Or.inr ⟨_, rfl⟩⟩
  | spawnAgentWithParent | killAgent | restartAgent | setMode => simp [Op.switches] at hop

theorem setMode_cases (k : Kernel) (agentId : AgentId) (mode : AgentMode) :
    (k.setMode agentId mode).2 = k ∨
      (k.setMode agentId mode).2 =
        k.entryChanged agentId fun entry => { entry with mode := mode } := by
  unfold setMode
  split
  · exact Or.inl rfl
  · rename_i hupdate
    obtain ⟨-, rfl⟩ := update_eq_ok_iff.1 hupdate
    exact Or.inr rfl

/-! ### The invariant -/

theorem WellFormed.spawnAgentWithParent (h : k.WellFormed) (manifest : AgentManifest)
    (parent : Option AgentId) (workspace : Except String Unit) :
    (k.spawnAgentWithParent manifest parent workspace).2.WellFormed := by
  rcases hrun : k.spawnAgentWithParent manifest parent workspace with ⟨r, k'⟩
  show k'.WellFormed
  obtain ⟨⟨hnext, -, -⟩, hcases⟩ := spawnAgentWithParent_cases h hrun
  rcases hcases with ⟨-, hregistry, hrows⟩ | ⟨group, -, hname, hagents, hindex, hrows, -⟩
  · refine ⟨by rw [hregistry]; exact h.registry, by rw [hrows]; exact h.rowIds, ?_, ?_⟩
    · rw [hregistry, hrows]
      exact h.stored
    · rw [hrows]
      exact fun row hrow => (h.drawn row hrow).trans hnext
  have hfresh : (k.spawnedEntry manifest group parent).id ∉
      k.registry.agents.map AgentEntry.id := h.nextId_agents
  have hfreshRow : (k.spawnedEntry manifest group parent).toRow.id ∉
      k.memory.agents.map AgentRow.id := h.nextId_rows
  have hregistered := h.registry.register hfresh
    ((register_eq_ok_iff h.registry hfresh).2 ⟨hname, rfl⟩)
  refine ⟨⟨?_, ?_, ?_⟩, ?_, ?_, ?_⟩
  · rw [hagents, Table.UniqueKeys, linked_map (fun _ _ => rfl)]
    exact hregistered.ids
  · rw [hagents, Table.UniqueKeys, linked_map (fun _ _ => rfl)]
    exact hregistered.names
  · rw [hagents, hindex, linked_map (fun _ _ => rfl)]
    exact hregistered.index
  · rw [hrows, ← Table.upsert_of_not_mem hfreshRow]
    exact h.rowIds.upsert
  · rw [hagents, hrows]
    intro entry hentry
    obtain ⟨old, hold, children, rfl⟩ := mem_linked hentry
    rcases List.mem_append.1 hold with hold | hold
    · obtain ⟨row, hrow, hid⟩ := h.stored old hold
      exact ⟨row, List.mem_append_left _ hrow, hid⟩
    · rw [List.mem_singleton.1 hold]
      exact ⟨_, List.mem_append_right _ (List.mem_singleton_self _), rfl, rfl⟩
  · rw [hrows]
    intro row hrow
    rcases List.mem_append.1 hrow with hrow | hrow
    · exact (h.drawn row hrow).trans hnext
    · rw [List.mem_singleton.1 hrow]
      exact hnext

theorem WellFormed.dropped_registry (h : k.WellFormed) {entry : AgentEntry}
    (hentry : entry ∈ k.registry.agents) : (k.dropped entry).registry.WellFormed :=
  h.registry.remove (remove_eq_ok_iff.2 ⟨h.registry.get_eq_some_iff.2 ⟨hentry, rfl⟩, rfl⟩)

theorem WellFormed.dropped (h : k.WellFormed) {entry : AgentEntry}
    (hentry : entry ∈ k.registry.agents) : (k.dropped entry).WellFormed :=
  ⟨h.dropped_registry hentry, h.rowIds, fun e he => h.stored e (Table.mem_erase.1 he).1, h.drawn⟩

theorem WellFormed.killAgent (h : k.WellFormed) (agentId : AgentId) :
    (k.killAgent agentId).2.WellFormed := by
  rcases hrun : k.killAgent agentId with ⟨r, k'⟩
  show k'.WellFormed
  rcases killAgent_cases h hrun with ⟨rfl, -⟩ | ⟨entry, hentry, rfl, -, rfl⟩
  · exact h
  refine ⟨h.dropped_registry hentry, h.rowIds.erase, ?_, ?_⟩
  · intro e he
    obtain ⟨he, hne⟩ := Table.mem_erase.1 he
    obtain ⟨row, hrow, hid, hname⟩ := h.stored e he
    exact ⟨row, Table.mem_erase.2 ⟨hrow, by rw [hid]; exact hne⟩, hid, hname⟩
  · exact fun row hrow => h.drawn row (Table.mem_erase.1 hrow).1

theorem WellFormed.restartAgent (h : k.WellFormed) (agentId : AgentId)
    (workspace : Except String Unit) : (k.restartAgent agentId workspace).2.WellFormed := by
  rcases hrun : k.restartAgent agentId workspace with ⟨r, k'⟩
  show k'.WellFormed
  rcases restartAgent_cases h hrun with rfl | ⟨entry, hentry, -, rfl | ⟨agentRestarts, rfl⟩⟩
  · exact h
  · exact h.dropped hentry
  · obtain ⟨hregistry, hids, hstored, hdrawn⟩ :=
      (h.dropped hentry).spawnAgentWithParent entry.manifest none workspace
    exact ⟨hregistry, hids, hstored, hdrawn⟩

theorem WellFormed.of_entryChanged (h : k.WellFormed) {f : AgentEntry → AgentEntry}
    (hregistry : k'.registry = (k.entryChanged agentId f).registry)
    (hid : ∀ e, (f e).id = e.id) (hname : ∀ e, (f e).name = e.name)
    (hrows : k'.memory.agents = k.memory.agents) (hnext : k.nextId ≤ k'.nextId) :
    k'.WellFormed := by
  refine ⟨by rw [hregistry]; exact h.registry.modify hid hname, by rw [hrows]; exact h.rowIds, ?_,
    by rw [hrows]; exact fun row hrow => (h.drawn row hrow).trans_le hnext⟩
  rw [hregistry, hrows]
  intro e he
  rcases Table.mem_modify.1 he with ⟨old, hold, -, rfl⟩ | ⟨hold, -⟩
  · rw [hid, hname]
    exact h.stored old hold
  · exact h.stored e hold

theorem WellFormed.apply (h : k.WellFormed) (op : Op) : (k.apply op).WellFormed := by
  by_cases hop : ∃ id, op.switches id = true
  · obtain ⟨id, hop⟩ := hop
    obtain ⟨hrows, hnext, -, hregistry | ⟨sessionId, hregistry⟩⟩ := sessionOp_cases k hop
    · exact ⟨by rw [hregistry]; exact h.registry, by rw [hrows]; exact h.rowIds,
        by rw [hregistry, hrows]; exact h.stored,
        by rw [hrows]; exact fun row hrow => (h.drawn row hrow).trans_le hnext⟩
    · exact h.of_entryChanged hregistry (fun _ => rfl) (fun _ => rfl) hrows hnext
  cases op with
  | spawnAgentWithParent manifest parent workspace =>
    exact h.spawnAgentWithParent manifest parent workspace
  | killAgent agentId => exact h.killAgent agentId
  | restartAgent agentId workspace => exact h.restartAgent agentId workspace
  | setMode agentId mode =>
    rcases setMode_cases k agentId mode with heq | heq
    · show WellFormed (k.setMode agentId mode).2
      rw [heq]
      exact h
    · exact h.of_entryChanged (congrArg Kernel.registry heq) (fun _ => rfl) (fun _ => rfl)
        (congrArg (fun k => k.memory.agents) heq) (congrArg Kernel.nextId heq).ge
  | resetSession id | createAgentSession id _ | switchAgentSession id _ =>
    exact absurd ⟨id, by simp [Op.switches]⟩ hop

end Kernel
end RustyHand
