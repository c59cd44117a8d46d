import RustyHand.Kernel.Reboot

/-!
# What survives a reboot

Over all runs of the operations, with reboots among them: which of the registered agents the next
reboot restores, and with what.
-/

namespace RustyHand
namespace Kernel

open MemorySubstrate

variable {k : Kernel} {id : AgentId} {lower : String → String}

/-! ### One reboot -/

/-- The kernel when the process ends. -/
def last (clean : Bool) (k : Kernel) : Kernel := if clean then k.shutdown else k

theorem reboot_eq (lower : String → String) (clean : Bool) (k : Kernel) :
    k.reboot lower clean = boot lower (k.last clean).memory (k.last clean).nextId := rfl

theorem last_spec (h : k.WellFormed) (clean : Bool) :
    (k.last clean).WellFormed ∧
      (k.last clean).registry.agents.map unchanging = k.registry.agents.map unchanging ∧
      (k.last clean).storedAgents = k.storedAgents ∧
      ∀ id, (clean = true ∨ k.Saved id) → (k.last clean).Saved id := by
  cases clean with
  | true =>
    obtain ⟨hwf, hagents, hstored, hsaved⟩ := shutdown_spec h
    exact ⟨hwf, hagents, hstored, fun id _ => hsaved id⟩
  | false => exact ⟨h, rfl, rfl, fun id hid => hid.resolve_left Bool.false_ne_true⟩

/-- What is restored is a stored agent. -/
theorem mem_reboot (h : k.WellFormed) {clean : Bool} {entry : AgentEntry}
    (hentry : entry ∈ (k.reboot lower clean).registry.agents) :
    ∃ row ∈ (k.last clean).memory.agents, entry = resumed row.toEntry := by
  rw [reboot_eq, (boot_agents (last_spec h clean).1.rowIds lower _).1] at hentry
  obtain ⟨loaded, hloaded, rfl⟩ := List.mem_map.1 hentry
  obtain ⟨row, hrow, rfl⟩ := List.mem_map.1 ((loadRows_sublist lower [] _).subset hloaded)
  exact ⟨row, hrow, rfl⟩

theorem WellFormed.reboot (h : k.WellFormed) (lower : String → String) (clean : Bool) :
    (k.reboot lower clean).WellFormed := by
  have hlast := (last_spec h clean).1
  obtain ⟨-, hregistry, hmemory, hnext⟩ := boot_agents hlast.rowIds lower (k.last clean).nextId
  rw [← reboot_eq] at hregistry hmemory hnext
  refine ⟨hregistry, by rw [hmemory]; exact hlast.rowIds, fun entry hentry => ?_,
    by rw [hmemory, hnext]; exact hlast.drawn⟩
  obtain ⟨row, hrow, rfl⟩ := mem_reboot h hentry
  rw [hmemory]
  exact ⟨row, hrow, rfl, rfl⟩

theorem storedAgents_reboot (h : k.WellFormed) (lower : String → String) (clean : Bool) :
    (k.reboot lower clean).storedAgents = k.storedAgents := by
  obtain ⟨hlast, -, hstored, -⟩ := last_spec h clean
  rw [← hstored, storedAgents, storedAgents, reboot_eq, (boot_agents hlast.rowIds lower _).2.2.1]

/-- After a boot every current session is the saved one. -/
theorem saved_reboot (h : k.WellFormed) (lower : String → String) (clean : Bool) (id : AgentId) :
    (k.reboot lower clean).Saved id := by
  intro entry hentry hid
  obtain ⟨row, hrow, rfl⟩ := mem_reboot h hentry
  rw [reboot_eq, (boot_agents (last_spec h clean).1.rowIds lower _).2.2.1]
  exact ⟨row, hrow, hid, rfl⟩

/-- An agent that is registered before and after is the same agent. -/
theorem reboot_same (h : k.WellFormed) {clean : Bool} {entry restored : AgentEntry}
    (hentry : entry ∈ k.registry.agents)
    (hrestored : restored ∈ (k.reboot lower clean).registry.agents)
    (hid : restored.id = entry.id) :
    restored.name = entry.name ∧
      ((clean = true ∨ k.Saved entry.id) → restored.sessionId = entry.sessionId) := by
  obtain ⟨hlast, hagents, hstored, hsaved⟩ := last_spec h clean
  obtain ⟨row, hrow, rfl⟩ := mem_reboot h hrestored
  have hmem : unchanging entry ∈ (k.last clean).registry.agents.map unchanging := by
    rw [hagents]
    exact List.mem_map_of_mem hentry
  obtain ⟨old, hold, heq⟩ := List.mem_map.1 hmem
  obtain ⟨holdId, holdName, holdSession⟩ := unchanging_eq heq
  constructor
  · obtain ⟨row', hrow', hid', hname'⟩ := hlast.stored old hold
    have hsame : row = row' := hlast.rowIds.eq hrow hrow' (hid.trans (hid'.trans holdId).symm)
    rw [hsame]
    exact hname'.trans holdName
  · intro hclean
    obtain ⟨row', hrow', hid', hsession⟩ := hsaved entry.id hclean old hold holdId
    have hsame : row = row' := hlast.rowIds.eq hrow hrow' (hid.trans hid'.symm)
    rw [hsame]
    exact hsession.trans holdSession

/-- A registered agent is restored if no other stored agent has its name in lower case. -/
theorem reboot_restores (h : k.WellFormed) {clean : Bool} {entry : AgentEntry}
    (hentry : entry ∈ k.registry.agents)
    (hsole : ∀ stored ∈ k.storedAgents, lower stored.2 = lower entry.name → stored.1 = entry.id) :
    ∃ restored ∈ (k.reboot lower clean).registry.agents, restored.id = entry.id := by
  obtain ⟨hlast, hagents, hstored, -⟩ := last_spec h clean
  obtain ⟨row, hrow, hid, hname⟩ := h.stored entry hentry
  have hpair : (entry.id, entry.name) ∈ (k.last clean).storedAgents := by
    rw [hstored]
    exact List.mem_map.2 ⟨row, hrow, Prod.ext hid hname⟩
  obtain ⟨kept, hkept, heq⟩ := List.mem_map.1 hpair
  have hkeptId : kept.id = entry.id := congrArg Prod.fst heq
  have hkeptName : kept.name = entry.name := congrArg Prod.snd heq
  have hload : kept.toEntry ∈ (k.last clean).memory.loadAllAgents lower := by
    refine mem_loadRows hkept (by simp) fun other hother hlower => ?_
    refine hlast.rowIds.eq hother hkept ?_
    have hpair' : (other.id, other.name) ∈ k.storedAgents := by
      rw [← hstored]
      exact List.mem_map_of_mem (f := fun row : AgentRow => (row.id, row.name)) hother
    rw [hkeptId]
    exact hsole _ hpair' (by rw [hlower, hkeptName])
  refine ⟨resumed kept.toEntry, ?_, hkeptId⟩
  rw [reboot_eq, (boot_agents hlast.rowIds lower _).1]
  exact List.mem_map_of_mem hload

/-- With names that differ in lower case all stored agents are restored. -/
theorem registered_reboot (h : k.WellFormed) {clean : Bool}
    (hnames : (k.storedAgents.map fun stored => lower stored.2).Nodup) :
    (k.reboot lower clean).registered = k.storedAgents := by
  obtain ⟨hlast, -, hstored, -⟩ := last_spec h clean
  rw [← hstored, storedAgents, List.map_map] at hnames
  rw [registered, reboot_eq, (boot_agents hlast.rowIds lower _).1, loadAllAgents,
    loadRows_eq_map hnames (by simp), ← hstored, storedAgents, List.map_map, List.map_map]
  rfl

/-! ### Steps -/

theorem Saved.of_spawn (h : k.WellFormed) (hid : k.Saved id) (manifest : AgentManifest)
    (parent : Option AgentId) (workspace : Except String Unit) :
    (k.spawnAgentWithParent manifest parent workspace).2.Saved id := by
  rcases hrun : k.spawnAgentWithParent manifest parent workspace with ⟨r, k'⟩
  show k'.Saved id
  rcases (spawnAgentWithParent_cases h hrun).2 with ⟨-, hregistry, hrows⟩ |
    ⟨group, -, -, hagents, -, hrows, -⟩
  · rw [Saved, hregistry, hrows]
    exact hid
  · intro entry hentry heq
    rw [hagents] at hentry
    obtain ⟨old, hold, children, rfl⟩ := mem_linked hentry
    rw [hrows]
    rcases List.mem_append.1 hold with hold | hold
    · obtain ⟨row, hrow, hrow'⟩ := hid old hold heq
      exact ⟨row, List.mem_append_left _ hrow, hrow'⟩
    · obtain rfl := List.mem_singleton.1 hold
      exact ⟨_, List.mem_append_right _ (List.mem_singleton_self _), heq, rfl⟩

theorem Saved.dropped (hid : k.Saved id) (entry : AgentEntry) : (k.dropped entry).Saved id :=
  fun e he heq => hid e (Table.mem_erase.1 he).1 heq

/-- A current session stays saved until it is set. -/
theorem Saved.apply (h : k.WellFormed) (hid : k.Saved id) {op : Op}
    (hop : op.switches id = false) : (k.apply op).Saved id := by
  by_cases hset : ∃ other, op.switches other = true
  · obtain ⟨other, hother⟩ := hset
    obtain ⟨hrows, -, -, hregistry⟩ := sessionOp_cases k hother
    have hne : other ≠ id := by
      rintro rfl
      rw [hop] at hother
      cases hother
    intro entry hentry heq
    rw [hrows]
    rcases hregistry with hregistry | ⟨sessionId, hregistry⟩
    · rw [hregistry] at hentry
      exact hid entry hentry heq
    · rw [hregistry] at hentry
      rcases Table.mem_modify.1 hentry with ⟨old, -, hold, rfl⟩ | ⟨hold, -⟩
      · exact absurd (hold.symm.trans heq) hne
      · exact hid entry hold heq
  cases op with
  | spawnAgentWithParent manifest parent workspace => exact hid.of_spawn h manifest parent workspace
  | killAgent agentId =>
    rcases hrun : k.killAgent agentId with ⟨r, k'⟩
    show Saved (k.killAgent agentId).2 id
    rw [hrun]
    rcases killAgent_cases h hrun with ⟨rfl, -⟩ | ⟨entry, -, rfl, -, rfl⟩
    · exact hid
    · intro e he heq
      obtain ⟨he, hne⟩ := Table.mem_erase.1 he
      obtain ⟨row, hrow, hrowId, hsession⟩ := hid e he heq
      refine ⟨row, Table.mem_erase.2 ⟨hrow, ?_⟩, hrowId, hsession⟩
      rw [hrowId, ← heq]
      exact hne
  | restartAgent agentId workspace =>
    rcases hrun : k.restartAgent agentId workspace with ⟨r, k'⟩
    show Saved (k.restartAgent agentId workspace).2 id
    rw [hrun]
    rcases restartAgent_cases h hrun with rfl | ⟨entry, hentry, -, rfl | ⟨agentRestarts, rfl⟩⟩
    · exact hid
    · exact hid.dropped entry
    · exact (hid.dropped entry).of_spawn (h.dropped hentry) entry.manifest none workspace
  | setMode agentId mode =>
    show Saved (k.setMode agentId mode).2 id
    rcases setMode_cases k agentId mode with heq | heq
    · rw [heq]
      exact hid
    · rw [heq]
      intro e he heid
      rcases Table.mem_modify.1 he with ⟨old, hold, -, rfl⟩ | ⟨hold, -⟩
      · exact hid old hold heid
      · exact hid e hold heid
  | resetSession other | createAgentSession other _ | switchAgentSession other _ =>
    exact absurd ⟨other, by simp [Op.switches]⟩ hset

/-- The registered agents are the stored ones. -/
def Mirrored (k : Kernel) : Prop := k.storedAgents = k.registered

/-- Every operation but a restart does the same to the store as to the registry. -/
theorem Mirrored.apply (h : k.WellFormed) (hm : k.Mirrored) {op : Op}
    (hop : op.isRestart = false) : (k.apply op).Mirrored := by
  have hchanged : ∀ {k' : Kernel} {agentId : AgentId} {f : AgentEntry → AgentEntry},
      k'.registry = (k.entryChanged agentId f).registry → k'.memory.agents = k.memory.agents →
      (∀ e, ((f e).id, (f e).name) = (e.id, e.name)) → k'.Mirrored := by
    intro k' agentId f hregistry hrows hf
    rw [Mirrored, storedAgents, registered, hregistry, hrows]
    refine Eq.trans hm (Eq.symm ?_)
    exact Table.map_modify hf agentId k.registry.agents
  by_cases hset : ∃ other, op.switches other = true
  · obtain ⟨other, hother⟩ := hset
    obtain ⟨hrows, -, -, hregistry | ⟨sessionId, hregistry⟩⟩ := sessionOp_cases k hother
    · rw [Mirrored, storedAgents, registered, hregistry, hrows]
      exact hm
    · exact hchanged hregistry hrows fun _ => rfl
  cases op with
  | spawnAgentWithParent manifest parent workspace =>
    rcases hrun : k.spawnAgentWithParent manifest parent workspace with ⟨r, k'⟩
    show Mirrored (k.spawnAgentWithParent manifest parent workspace).2
    rw [hrun]
    show k'.Mirrored
    rcases (spawnAgentWithParent_cases h hrun).2 with ⟨-, hregistry, hrows⟩ |
      ⟨group, -, -, hagents, -, hrows, -⟩
    · rw [Mirrored, storedAgents, registered, hregistry, hrows]
      exact hm
    · rw [Mirrored, storedAgents, registered, hagents, hrows, linked_map fun _ _ => rfl,
        List.map_append, List.map_append]
      exact congrArg (· ++ [(k.nextId, manifest.name)]) hm
  | killAgent agentId =>
    rcases hrun : k.killAgent agentId with ⟨r, k'⟩
    show Mirrored (k.killAgent agentId).2
    rw [hrun]
    rcases killAgent_cases h hrun with ⟨rfl, -⟩ | ⟨entry, -, rfl, -, rfl⟩
    · exact hm
    · have hrows : ((Table.erase AgentRow.id entry.id k.memory.agents).map
          fun row => (row.id, row.name)) = k.storedAgents.filter (·.1 ≠ entry.id) := by
        rw [Table.erase, storedAgents, List.filter_map]
        rfl
      have hagents : ((Table.erase AgentEntry.id entry.id k.registry.agents).map
          fun e => (e.id, e.name)) = k.registered.filter (·.1 ≠ entry.id) := by
        rw [Table.erase, registered, List.filter_map]
        rfl
      exact hrows.trans ((congrArg _ hm).trans hagents.symm)
  | restartAgent => cases hop
  | setMode agentId mode =>
    show Mirrored (k.setMode agentId mode).2
    rcases setMode_cases k agentId mode with heq | heq
    · rw [heq]
      exact hm
    · rw [heq]
      exact hchanged rfl rfl fun _ => rfl
  | resetSession other | createAgentSession other _ | switchAgentSession other _ =>
    exact absurd ⟨other, by simp [Op.switches]⟩ hset

/-! ### Runs -/

/-- The agents whose current session may have been set since they were last saved. -/
def unsavedAfter (ids : List AgentId) : Step → List AgentId
  | .op (.resetSession id) | .op (.createAgentSession id _) | .op (.switchAgentSession id _) =>
    id :: ids
  | .op _ => ids
  | .reboot _ => []

/-- The agents whose current session may not be saved after a run. -/
def unsaved (steps : List Step) : List AgentId := steps.foldl unsavedAfter []

theorem unsavedAfter_op (ids : List AgentId) (op : Op) :
    id ∉ unsavedAfter ids (.op op) ↔ op.switches id = false ∧ id ∉ ids := by
  cases op <;> simp [unsavedAfter, Op.switches, eq_comm]

theorem run_append (lower : String → String) (steps : List Step) (s : Step) :
    run lower (steps ++ [s]) = step lower (run lower steps) s := by
  rw [run, List.foldl_append]
  rfl

theorem run_wellFormed (lower : String → String) (steps : List Step) :
    (run lower steps).WellFormed := by
  induction steps using List.reverseRecOn with
  | nil => exact ⟨AgentRegistry.WellFormed.empty, List.nodup_nil, by simp [run, boot,
      loadAllAgents, loadRows], by simp [run, boot, loadAllAgents, loadRows]⟩
  | append_singleton steps s ih =>
    rw [run_append]
    cases s with
    | op op => exact ih.apply op
    | reboot clean => exact ih.reboot lower clean

theorem run_saved (lower : String → String) (steps : List Step) (hid : id ∉ unsaved steps) :
    (run lower steps).Saved id := by
  induction steps using List.reverseRecOn with
  | nil =>
    intro entry hentry
    cases hentry
  | append_singleton steps s ih =>
    rw [unsaved, List.foldl_append] at hid
    rw [run_append]
    have hwf := run_wellFormed lower steps
    cases s with
    | op op =>
      obtain ⟨hop, hid⟩ := (unsavedAfter_op _ op).1 hid
      exact (ih hid).apply hwf hop
    | reboot clean => exact saved_reboot hwf lower clean id

/-- Is the step a restart? -/
def Step.isRestart : Step → Bool
  | .op o => o.isRestart
  | .reboot _ => false

theorem run_mirrored (lower : String → String) (steps : List Step)
    (hrestart : ∀ s ∈ steps, s.isRestart = false)
    (hnames : ∀ before, before <+: steps → (run lower before).DistinctNames lower) :
    (run lower steps).Mirrored := by
  induction steps using List.reverseRecOn with
  | nil => rfl
  | append_singleton steps s ih =>
    have hwf := run_wellFormed lower steps
    have hm := ih (fun t ht => hrestart t (List.mem_append_left _ ht))
      fun before hbefore => hnames before (hbefore.trans (List.prefix_append ..))
    rw [run_append]
    cases s with
    | op op => exact hm.apply hwf (hrestart _ (List.mem_append_right _ (List.mem_singleton_self _)))
    | reboot clean =>
      have hdistinct := hnames steps (List.prefix_append ..)
      rw [Mirrored,
        show step lower _ (.reboot clean) = (run lower steps).reboot lower clean from rfl,
        storedAgents_reboot hwf, registered_reboot hwf]
      rw [hm, registered, List.map_map]
      exact hdistinct

/-- **What survives.**  After any run, a shutdown or a crash and a boot restore every registered
agent whose name in lower case no other stored agent has: the same agent, with its current session
if that was saved, but in the default mode and without parent and children.  Without restarts, and
with names that differ in lower case, they restore exactly the registered agents. -/
theorem reboot_faithful (lower : String → String) (steps : List Step) (clean : Bool) :
    let k := run lower steps
    let k' := k.reboot lower clean
    (∀ entry ∈ k'.registry.agents,
      entry.mode = AgentMode.default ∧ entry.parent = none ∧ entry.children = []) ∧
    (∀ entry ∈ k.registry.agents, ∀ restored ∈ k'.registry.agents, restored.id = entry.id →
      restored.name = entry.name ∧
        ((clean = true ∨ entry.id ∉ unsaved steps) → restored.sessionId = entry.sessionId)) ∧
    (∀ entry ∈ k.registry.agents,
      (∀ stored ∈ k.storedAgents, lower stored.2 = lower entry.name → stored.1 = entry.id) →
        ∃ restored ∈ k'.registry.agents, restored.id = entry.id) ∧
    ((∀ s ∈ steps, s.isRestart = false) →
      (∀ before, before <+: steps → (run lower before).DistinctNames lower) →
        k'.registered = k.registered) := by
  have hwf := run_wellFormed lower steps
  refine ⟨?_, ?_, ?_, ?_⟩
  · intro entry hentry
    obtain ⟨row, -, rfl⟩ := mem_reboot hwf hentry
    exact ⟨rfl, rfl, rfl⟩
  · intro entry hentry restored hrestored hid
    obtain ⟨hname, hsession⟩ := reboot_same hwf hentry hrestored hid
    exact ⟨hname, fun h => hsession (h.imp_right (run_saved lower steps))⟩
  · intro entry hentry hsole
    exact reboot_restores hwf hentry hsole
  · intro hrestart hnames
    have hm := run_mirrored lower steps hrestart hnames
    rw [← hm]
    refine registered_reboot hwf ?_
    rw [hm, registered, List.map_map]
    exact hnames steps List.prefix_rfl

/-- What a faithful reboot would restore of an entry. -/
def view (entry : AgentEntry) :
    AgentId × String × SessionId × AgentMode × Option AgentId × List AgentId :=
  (entry.id, entry.name, entry.sessionId, entry.mode, entry.parent, entry.children)

/-- An agent under observation runs in full mode after the next boot. -/
theorem reboot_forgets_mode : ¬ ∀ (lower : String → String) (steps : List Step) (clean : Bool),
    (((run lower steps).reboot lower clean).registry.agents.map view).Perm
      ((run lower steps).registry.agents.map view) := by
  intro hall
  have hperm := hall String.toLower
    [.op (.spawnAgentWithParent { name := "watch" } none (.ok ())), .op (.setMode 0 .observe)] true
  have hmode := (hperm.map fun v => v.2.2.2.1).eq_singleton
  revert hmode
  decide

end Kernel
end RustyHand
