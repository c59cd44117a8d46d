import RustyHand.Kernel.Invariant

/-!
# Shutdown, crash and boot

What of the registered agents is found again when the kernel boots on the same data directory: the
table of agents has columns for the id, the name and the current session only, `save_agent` writes
it when an agent is spawned and at shutdown, and `load_all_agents` takes rows whose names agree in
lower case for duplicates.
-/

namespace RustyHand
namespace Kernel

open AgentRegistry MemorySubstrate

variable {k : Kernel} {agentId id : AgentId} {lower : String → String}

/-- The current session of the agent is the one in its row. -/
def Saved (k : Kernel) (id : AgentId) : Prop :=
  ∀ entry ∈ k.registry.agents, entry.id = id →
    ∃ row ∈ k.memory.agents, row.id = id ∧ row.sessionId = entry.sessionId

/-- The ids and names of the registered agents. -/
def registered (k : Kernel) : List (AgentId × String) :=
  k.registry.agents.map fun entry => (entry.id, entry.name)

/-- The ids and names of the stored agents. -/
def storedAgents (k : Kernel) : List (AgentId × String) :=
  k.memory.agents.map fun row => (row.id, row.name)

/-- The names of the registered agents differ in lower case. -/
def DistinctNames (lower : String → String) (k : Kernel) : Prop :=
  (k.registry.agents.map fun entry => lower entry.name).Nodup

/-! ### Boot -/

/-- The entry that boot registers. -/
def resumed (entry : AgentEntry) : AgentEntry := { entry with state := .running }

/-- The kernel with one more agent restored. -/
def restored (k : Kernel) (entry : AgentEntry) : Kernel :=
  { k with
    capabilities := k.capabilities.grant entry.id entry.manifest.toCapabilities
    registry := { agents := k.registry.agents ++ [resumed entry]
                  nameIndex := k.registry.nameIndex ++ [(entry.name, entry.id)] } }

theorem foldl_restoreAgent (entries : List AgentEntry) (k : Kernel) (h : k.registry.WellFormed)
    (hids : Table.UniqueKeys AgentEntry.id entries)
    (hnames : Table.UniqueKeys AgentEntry.name entries)
    (hnewIds : ∀ entry ∈ entries, entry.id ∉ k.registry.agents.map AgentEntry.id)
    (hnewNames : ∀ entry ∈ entries, entry.name ∉ k.registry.agents.map AgentEntry.name) :
    (entries.foldl restoreAgent k).registry.agents =
        k.registry.agents ++ entries.map resumed ∧
      (entries.foldl restoreAgent k).registry.WellFormed ∧
      (entries.foldl restoreAgent k).memory = k.memory ∧
      (entries.foldl restoreAgent k).nextId = k.nextId := by
  induction entries generalizing k with
  | nil => exact ⟨(List.append_nil _).symm, h, rfl, rfl⟩
  | cons entry entries ih =>
    obtain ⟨hid, hids⟩ := List.nodup_cons.1 hids
    obtain ⟨hname, hnames⟩ := List.nodup_cons.1 hnames
    have hfresh : (resumed entry).id ∉ k.registry.agents.map AgentEntry.id :=
      hnewIds entry List.mem_cons_self
    have hok := (register_eq_ok_iff h hfresh).2
      ⟨hnewNames entry List.mem_cons_self, rfl⟩
    have hstep : restoreAgent k entry = k.restored entry := by
      dsimp only [restoreAgent]
      rw [show register k.registry { entry with state := .running } = _ from hok]
      rfl
    have hids' : ∀ e ∈ entries, e.id ∉ (k.restored entry).registry.agents.map AgentEntry.id := by
      intro e he hmem
      rw [restored, List.map_append, List.mem_append] at hmem
      rcases hmem with hmem | hmem
      · exact hnewIds e (List.mem_cons_of_mem _ he) hmem
      · apply hid
        rw [← show e.id = entry.id from List.mem_singleton.1 hmem]
        exact List.mem_map_of_mem he
    have hnames' : ∀ e ∈ entries,
        e.name ∉ (k.restored entry).registry.agents.map AgentEntry.name := by
      intro e he hmem
      rw [restored, List.map_append, List.mem_append] at hmem
      rcases hmem with hmem | hmem
      · exact hnewNames e (List.mem_cons_of_mem _ he) hmem
      · apply hname
        rw [← show e.name = entry.name from List.mem_singleton.1 hmem]
        exact List.mem_map_of_mem he
    obtain ⟨hagents, hrest⟩ :=
      ih (k.restored entry) (h.register hfresh hok) hids hnames hids' hnames'
    rw [List.foldl_cons, hstep]
    refine ⟨?_, hrest⟩
    rw [hagents, List.map_cons]
    exact List.append_assoc ..

/-- **What boot restores**: the rows that `load_all_agents` reads, all of them. -/
theorem boot_agents {m : MemorySubstrate} (hids : Table.UniqueKeys AgentRow.id m.agents)
    (lower : String → String) (nextId : ℕ) :
    (boot lower m nextId).registry.agents = (m.loadAllAgents lower).map resumed ∧
      (boot lower m nextId).registry.WellFormed ∧ (boot lower m nextId).memory = m ∧
      (boot lower m nextId).nextId = nextId := by
  have hsub := loadRows_sublist lower [] m.agents
  have hentries : Table.UniqueKeys AgentEntry.id (m.agents.map AgentRow.toEntry) := by
    rw [Table.UniqueKeys, List.map_map]
    exact hids
  have hnames := (loadRows_names lower [] m.agents).1
  refine foldl_restoreAgent _ _ WellFormed.empty (hentries.sublist (hsub.map _)) ?_ ?_ ?_
  · apply List.Nodup.of_map lower
    rw [List.map_map]
    exact hnames
  · simp
  · simp

/-! ### Shutdown -/

/-- What of an entry a change of state does not touch. -/
def unchanging (entry : AgentEntry) : AgentEntry := { entry with state := .running }

theorem unchanging_eq {a b : AgentEntry} (h : unchanging a = unchanging b) :
    a.id = b.id ∧ a.name = b.name ∧ a.sessionId = b.sessionId := by
  simp only [unchanging, AgentEntry.mk.injEq] at h
  exact ⟨h.1, h.2.1, h.2.2.2.2.2.2.2⟩

/-- The kernel with the state of one agent changed and its row written. -/
def suspended (k : Kernel) (entry : AgentEntry) : Kernel :=
  { k.entryChanged entry.id fun e => { e with state := .suspended } with
    memory := k.memory.saveAgent { entry with state := .suspended } }

theorem suspendAgent_eq (h : k.WellFormed) {entry current : AgentEntry}
    (hcurrent : current ∈ k.registry.agents) (hid : current.id = entry.id) :
    suspendAgent k entry = k.suspended current := by
  have hset : k.registry.setState entry.id .suspended = .ok (k.suspended current).registry := by
    refine update_eq_ok_iff.2 ⟨⟨current, h.registry.get_eq_some_iff.2 ⟨hcurrent, hid⟩⟩, ?_⟩
    rw [← hid]
    rfl
  have hchanged : (k.suspended current).registry.WellFormed :=
    h.registry.modify (fun _ => rfl) (fun _ => rfl)
  have hget : (k.suspended current).registry.get entry.id =
      some { current with state := .suspended } :=
    hchanged.get_eq_some_iff.2 ⟨Table.mem_modify.2 (Or.inl ⟨current, hcurrent, rfl, rfl⟩), hid⟩
  dsimp only [suspendAgent]
  rw [hset]
  dsimp only
  rw [hget]
  rfl

/-- One round of shutdown. -/
theorem suspended_spec (h : k.WellFormed) {entry : AgentEntry}
    (hentry : entry ∈ k.registry.agents) :
    (k.suspended entry).WellFormed ∧
      (k.suspended entry).registry.agents.map unchanging = k.registry.agents.map unchanging ∧
      (k.suspended entry).storedAgents = k.storedAgents ∧
      (k.suspended entry).Saved entry.id ∧
      ∀ id, k.Saved id → (k.suspended entry).Saved id := by
  obtain ⟨row, hrow, hrowId, hrowName⟩ := h.stored entry hentry
  have hstored : (k.suspended entry).storedAgents = k.storedAgents := by
    refine Table.map_upsert ?_ fun other hother hid => ?_
    · exact List.mem_map.2 ⟨row, hrow, hrowId⟩
    · -- the row of the agent has its name
      rw [h.rowIds.eq hother hrow (hid.trans hrowId.symm)]
      exact Prod.ext hrowId.symm hrowName.symm
  have hregistry : (k.suspended entry).registry.WellFormed :=
    h.registry.modify (fun _ => rfl) (fun _ => rfl)
  have hmem : { entry with state := .suspended } ∈ (k.suspended entry).registry.agents :=
    Table.mem_modify.2 (Or.inl ⟨entry, hentry, rfl, rfl⟩)
  have hsaved : (k.suspended entry).Saved entry.id := by
    intro e he hid
    obtain rfl := hregistry.ids.eq he hmem hid
    exact ⟨_, Table.mem_upsert.2 (Or.inl rfl), rfl, rfl⟩
  refine ⟨⟨hregistry, h.rowIds.upsert, ?_, ?_⟩, ?_, hstored, hsaved, ?_⟩
  · intro e he
    have hpair : (e.id, e.name) ∈ k.storedAgents := by
      rcases Table.mem_modify.1 he with ⟨old, hold, -, rfl⟩ | ⟨hold, -⟩
      · obtain ⟨row, hrow, hid, hname⟩ := h.stored old hold
        exact List.mem_map.2 ⟨row, hrow, Prod.ext hid hname⟩
      · obtain ⟨row, hrow, hid, hname⟩ := h.stored e hold
        exact List.mem_map.2 ⟨row, hrow, Prod.ext hid hname⟩
    rw [← hstored] at hpair
    obtain ⟨row, hrow, heq⟩ := List.mem_map.1 hpair
    exact ⟨row, hrow, congrArg Prod.fst heq, congrArg Prod.snd heq⟩
  · intro other hother
    rcases Table.mem_upsert.1 hother with rfl | ⟨hother, -⟩
    · exact h.drawn_agents entry hentry
    · exact h.drawn other hother
  · show List.map unchanging (Table.modify AgentEntry.id entry.id _ k.registry.agents) = _
    apply Table.map_modify
    intro e
    rfl
  · intro id hid e he heid
    by_cases hsame : id = entry.id
    · subst hsame
      exact hsaved e he heid
    · have hold : e ∈ k.registry.agents := by
        rcases Table.mem_modify.1 he with ⟨old, -, hold, rfl⟩ | ⟨hold, -⟩
        · exact absurd (heid.symm.trans hold) hsame
        · exact hold
      obtain ⟨row, hrow, hrowId, hsession⟩ := hid e hold heid
      exact ⟨row, Table.mem_upsert.2 (Or.inr ⟨hrow, by rw [hrowId]; exact hsame⟩), hrowId, hsession⟩

/-- Shutdown saves the agents of a list, one after the other. -/
theorem foldl_suspendAgent (entries : List AgentEntry) (k : Kernel) (h : k.WellFormed)
    (hentries : ∀ entry ∈ entries, entry.id ∈ k.registry.agents.map AgentEntry.id) :
    (entries.foldl suspendAgent k).WellFormed ∧
      (entries.foldl suspendAgent k).registry.agents.map unchanging =
        k.registry.agents.map unchanging ∧
      (entries.foldl suspendAgent k).storedAgents = k.storedAgents ∧
      ∀ id, (k.Saved id ∨ ∃ entry ∈ entries, entry.id = id) →
        (entries.foldl suspendAgent k).Saved id := by
  induction entries generalizing k with
  | nil => exact ⟨h, rfl, rfl, fun id hid => hid.resolve_right (by simp)⟩
  | cons entry entries ih =>
    obtain ⟨current, hcurrent, hid⟩ := List.mem_map.1 (hentries entry List.mem_cons_self)
    obtain ⟨hwf, hagents, hstored, hnow, hkeeps⟩ := suspended_spec h hcurrent
    have hids : (k.suspended current).registry.agents.map AgentEntry.id =
        k.registry.agents.map AgentEntry.id := by
      have := congrArg (List.map AgentEntry.id) hagents
      rw [List.map_map, List.map_map] at this
      exact this
    obtain ⟨hwf', hagents', hstored', hsaved⟩ := ih (k.suspended current) hwf fun e he => by
      rw [hids]
      exact hentries e (List.mem_cons_of_mem _ he)
    rw [List.foldl_cons, suspendAgent_eq h hcurrent hid]
    refine ⟨hwf', hagents'.trans hagents, hstored'.trans hstored, fun id hid' => hsaved id ?_⟩
    rcases hid' with hid' | ⟨e, he, rfl⟩
    · exact Or.inl (hkeeps id hid')
    · rcases List.mem_cons.1 he with rfl | he
      · rw [← hid]
        exact Or.inl hnow
      · exact Or.inr ⟨e, he, rfl⟩

/-- **What shutdown does**: the registered agents keep all but their state, the stored agents keep
their ids and names, and the current sessions are saved. -/
theorem shutdown_spec (h : k.WellFormed) :
    k.shutdown.WellFormed ∧
      k.shutdown.registry.agents.map unchanging = k.registry.agents.map unchanging ∧
      k.shutdown.storedAgents = k.storedAgents ∧ ∀ id, k.shutdown.Saved id := by
  obtain ⟨hwf, hagents, hstored, hsaved⟩ := foldl_suspendAgent k.registry.agents k h
    fun entry hentry => List.mem_map_of_mem hentry
  refine ⟨hwf, hagents, hstored, fun id entry hentry hid => hsaved id (Or.inr ?_) entry hentry hid⟩
  have hmem : unchanging entry ∈ k.registry.agents.map unchanging := by
    rw [← hagents]
    exact List.mem_map_of_mem hentry
  obtain ⟨old, hold, heq⟩ := List.mem_map.1 hmem
  exact ⟨old, hold, (unchanging_eq heq).1.trans hid⟩

end Kernel
end RustyHand
