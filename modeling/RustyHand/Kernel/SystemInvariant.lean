import RustyHand.Kernel.Reboot
import RustyHand.Kernel.Subsystems

/-!
# The invariant of the kernel with its subsystems

Ids are drawn once.  So the registry stays well formed, a session belongs to one agent for good
(`owner`, which no operation looks at), and an id that has not been drawn is in none of the tables.

* `KernelSound owner`, `Sound owner`: the invariant, with the agents that own the sessions;
* one lemma for each step of an operation;
* `run_wellFormed`: it holds in every state that a run reaches.
-/

namespace RustyHand
namespace System

open AgentRegistry

/-- The manifest of an agent has its name, and a group that has been normalized. -/
def Settled (name : String) (manifest : AgentManifest) : Prop :=
  manifest.name = name ∧ normalizeAgentGroup manifest.group = .ok manifest.group

/-- The part of the invariant that is about the registry and the store. -/
structure KernelSound (owner : SessionId → AgentId) (k : Kernel) : Prop where
  registry : k.registry.WellFormed
  rowIds : Table.UniqueKeys AgentRow.id k.memory.agents
  agents : ∀ e ∈ k.registry.agents,
    e.id < k.nextId ∧ e.sessionId < k.nextId ∧ owner e.sessionId = e.id
  rows : ∀ row ∈ k.memory.agents,
    row.id < k.nextId ∧ row.sessionId < k.nextId ∧ owner row.sessionId = row.id
  sessions : ∀ x ∈ k.memory.sessions, x.id < k.nextId ∧ owner x.id = x.agentId
  settled : ∀ e ∈ k.registry.agents, Settled e.name e.manifest
  rowsSettled : ∀ row ∈ k.memory.agents, Settled row.name row.manifest

/-- The invariant. -/
structure Sound (owner : SessionId → AgentId) (s : System) : Prop where
  kernel : KernelSound owner s.kernel
  inFlight : ∀ t ∈ s.inFlight,
    t.1 < s.kernel.nextId ∧ t.2 < s.kernel.nextId ∧ owner t.2 = t.1
  triggers : s.triggers.WellFormed
  triggersDrawn : ∀ t ∈ s.triggers.triggers, t.agentId < s.kernel.nextId
  jobs : ∀ job ∈ s.jobs, job.agentId < s.kernel.nextId
  background : ∀ id ∈ s.background, id < s.kernel.nextId

/-- The invariant, for some owners of the sessions. -/
def WellFormed (s : System) : Prop := ∃ owner, Sound owner s

variable {owner owner' : SessionId → AgentId} {k : Kernel} {s : System} {agentId : AgentId}
  {cfg : KernelConfig}

theorem Sound.empty : Sound (fun _ => 0) {} :=
  { kernel :=
      { registry := AgentRegistry.WellFormed.empty
        rowIds := List.nodup_nil
        agents := fun _ h => by cases h
        rows := fun _ h => by cases h
        sessions := fun _ h => by cases h
        settled := fun _ h => by cases h
        rowsSettled := fun _ h => by cases h }
    inFlight := fun _ h => by cases h
    triggers := TriggerEngine.WellFormed.empty
    triggersDrawn := fun _ h => by cases h
    jobs := fun _ h => by cases h
    background := fun _ h => by cases h }

/-! ### Steps on the kernel -/

/-- More ids are drawn, and the owners of the new ones are set. -/
theorem KernelSound.extend (h : KernelSound owner k) (howner : ∀ i < k.nextId, owner' i = owner i)
    {n : ℕ} (hn : k.nextId ≤ n) : KernelSound owner' { k with nextId := n } where
  registry := h.registry
  rowIds := h.rowIds
  agents e he := by
    obtain ⟨hid, hsession, hown⟩ := h.agents e he
    exact ⟨hid.trans_le hn, hsession.trans_le hn, (howner _ hsession).trans hown⟩
  rows row hrow := by
    obtain ⟨hid, hsession, hown⟩ := h.rows row hrow
    exact ⟨hid.trans_le hn, hsession.trans_le hn, (howner _ hsession).trans hown⟩
  sessions x hx := by
    obtain ⟨hid, hown⟩ := h.sessions x hx
    exact ⟨hid.trans_le hn, (howner _ hid).trans hown⟩
  settled := h.settled
  rowsSettled := h.rowsSettled

theorem KernelSound.saveSession (h : KernelSound owner k) {session : Session}
    (hid : session.id < k.nextId) (hown : owner session.id = session.agentId) :
    KernelSound owner { k with memory := k.memory.saveSession session } where
  registry := h.registry
  rowIds := h.rowIds
  agents := h.agents
  rows := h.rows
  sessions x hx := by
    rcases Table.mem_upsert.1 hx with rfl | ⟨hx, -⟩
    · refine ⟨hid, ?_⟩
      show owner session.id = ((k.memory.getSession session.id).map Session.agentId).getD _
      cases hget : k.memory.getSession session.id with
      | none => exact hown
      -- a session that is there keeps its agent
      | some old =>
        obtain ⟨hold, hkey⟩ := Table.mem_of_lookup hget
        rw [Option.map_some, Option.getD_some, ← hkey]
        exact (h.sessions old hold).2
    · exact h.sessions x hx
  settled := h.settled
  rowsSettled := h.rowsSettled

theorem KernelSound.deleteSessions (h : KernelSound owner k) (p : Session → Bool) :
    KernelSound owner { k with memory :=
      { k.memory with sessions := k.memory.sessions.filter p } } where
  registry := h.registry
  rowIds := h.rowIds
  agents := h.agents
  rows := h.rows
  sessions x hx := h.sessions x (List.mem_filter.1 hx).1
  settled := h.settled
  rowsSettled := h.rowsSettled

theorem KernelSound.setRegistry (h : KernelSound owner k) {r : AgentRegistry} (hr : r.WellFormed)
    (hagents : ∀ e ∈ r.agents, e.id < k.nextId ∧ e.sessionId < k.nextId ∧ owner e.sessionId = e.id)
    (hsettled : ∀ e ∈ r.agents, Settled e.name e.manifest) :
    KernelSound owner { k with registry := r } where
  registry := hr
  rowIds := h.rowIds
  agents := hagents
  rows := h.rows
  sessions := h.sessions
  settled := hsettled
  rowsSettled := h.rowsSettled

theorem KernelSound.remove (h : KernelSound owner k) {entry : AgentEntry} {r : AgentRegistry}
    (hremove : k.registry.remove agentId = .ok (entry, r)) :
    KernelSound owner { k with registry := r } := by
  have hr := h.registry.remove hremove
  obtain ⟨-, rfl⟩ := remove_eq_ok_iff.1 hremove
  exact h.setRegistry hr (fun e he => h.agents e (Table.mem_erase.1 he).1)
    fun e he => h.settled e (Table.mem_erase.1 he).1

/-- A change of an entry that keeps its id, name and manifest, and the owner of its session. -/
theorem KernelSound.update (h : KernelSound owner k) {f : AgentEntry → AgentEntry}
    {r : AgentRegistry} (hupdate : k.registry.update agentId f = .ok r)
    (hid : ∀ e, (f e).id = e.id)
    (hname : ∀ e, (f e).name = e.name ∧ (f e).manifest = e.manifest)
    (hsession : ∀ e ∈ k.registry.agents, e.id = agentId →
      (f e).sessionId < k.nextId ∧ owner (f e).sessionId = e.id) :
    KernelSound owner { k with registry := r } := by
  obtain ⟨-, rfl⟩ := update_eq_ok_iff.1 hupdate
  refine h.setRegistry (h.registry.modify hid fun e => (hname e).1) (fun e he => ?_)
    fun e he => ?_
  · rcases Table.mem_modify.1 he with ⟨old, hold, hkey, rfl⟩ | ⟨he, -⟩
    · obtain ⟨hlt, hown⟩ := hsession old hold hkey
      rw [hid]
      exact ⟨(h.agents old hold).1, hlt, hown⟩
    · exact h.agents e he
  · rcases Table.mem_modify.1 he with ⟨old, hold, -, rfl⟩ | ⟨he, -⟩
    · rw [(hname old).1, (hname old).2]
      exact h.settled old hold
    · exact h.settled e he

theorem KernelSound.register (h : KernelSound owner k) {entry : AgentEntry} {r : AgentRegistry}
    (hfresh : entry.id ∉ k.registry.agents.map AgentEntry.id)
    (hentry : entry.id < k.nextId ∧ entry.sessionId < k.nextId ∧ owner entry.sessionId = entry.id)
    (hsettled : Settled entry.name entry.manifest)
    (hregister : k.registry.register entry = .ok r) (parent : Option AgentId) :
    KernelSound owner { k with registry := match (parent : Option AgentId) with
      | none => r
      | some parentId => r.addChild parentId entry.id } := by
  have hr := h.registry.register hfresh hregister
  have hagents : ∀ e ∈ r.agents, (e.id < k.nextId ∧ e.sessionId < k.nextId ∧
      owner e.sessionId = e.id) ∧ Settled e.name e.manifest := by
    obtain ⟨-, rfl⟩ := (register_eq_ok_iff h.registry hfresh).1 hregister
    intro e he
    rcases List.mem_append.1 he with he | he
    · exact ⟨h.agents e he, h.settled e he⟩
    · rw [List.mem_singleton.1 he]
      exact ⟨hentry, hsettled⟩
  cases parent with
  | none => exact h.setRegistry hr (fun e he => (hagents e he).1) fun e he => (hagents e he).2
  | some parentId =>
    have hlinked : ∀ e ∈ (r.addChild parentId entry.id).agents, (e.id < k.nextId ∧
        e.sessionId < k.nextId ∧ owner e.sessionId = e.id) ∧ Settled e.name e.manifest := by
      intro e he
      rcases Table.mem_modify.1 he with ⟨old, hold, -, rfl⟩ | ⟨he, -⟩
      · exact hagents old hold
      · exact hagents e he
    exact h.setRegistry (hr.modify (fun _ => rfl) fun _ => rfl) (fun e he => (hlinked e he).1)
      fun e he => (hlinked e he).2

theorem KernelSound.saveAgent (h : KernelSound owner k) {entry : AgentEntry}
    (hentry : entry.id < k.nextId ∧ entry.sessionId < k.nextId ∧ owner entry.sessionId = entry.id)
    (hsettled : Settled entry.name entry.manifest) :
    KernelSound owner { k with memory := k.memory.saveAgent entry } where
  registry := h.registry
  rowIds := h.rowIds.upsert
  agents := h.agents
  rows row hrow := by
    rcases Table.mem_upsert.1 hrow with rfl | ⟨hrow, -⟩
    · exact hentry
    · exact h.rows row hrow
  sessions := h.sessions
  settled := h.settled
  rowsSettled row hrow := by
    rcases Table.mem_upsert.1 hrow with rfl | ⟨hrow, -⟩
    · exact hsettled
    · exact h.rowsSettled row hrow

/-- A step that changes the kernel, but neither its agents nor its sessions nor its ids. -/
theorem KernelSound.congr (h : KernelSound owner k) {k' : Kernel}
    (hregistry : k'.registry = k.registry) (hmemory : k'.memory = k.memory)
    (hnext : k'.nextId = k.nextId) : KernelSound owner k' where
  registry := by rw [hregistry]; exact h.registry
  rowIds := by rw [hmemory]; exact h.rowIds
  agents := by rw [hregistry, hnext]; exact h.agents
  rows := by rw [hmemory, hnext]; exact h.rows
  sessions := by rw [hmemory, hnext]; exact h.sessions
  settled := by rw [hregistry]; exact h.settled
  rowsSettled := by rw [hmemory]; exact h.rowsSettled

theorem KernelSound.agent_lt (h : KernelSound owner k) {entry : AgentEntry}
    (hget : k.registry.get agentId = some entry) :
    agentId < k.nextId ∧ entry.sessionId < k.nextId ∧ owner entry.sessionId = agentId := by
  obtain ⟨hentry, rfl⟩ := h.registry.get_eq_some_iff.1 hget
  exact h.agents entry hentry

/-- The next session, for an agent. -/
def nextOwner (owner : SessionId → AgentId) (sessionId : SessionId) (agentId : AgentId) :
    SessionId → AgentId := Function.update owner sessionId agentId

theorem nextOwner_of_lt {n sessionId : SessionId} (hn : n ≤ sessionId) :
    ∀ i < n, nextOwner owner sessionId agentId i = owner i := by
  intro i hi
  exact Function.update_of_ne (hi.trans_le hn).ne _ _

theorem nextOwner_self (sessionId : SessionId) :
    nextOwner owner sessionId agentId sessionId = agentId := Function.update_self _ _ _

/-! ### Steps on the system -/

/-- A step on the kernel, which may draw ids. -/
theorem Sound.setKernel {s' : System} (h : Sound owner s) (hkernel : KernelSound owner' s'.kernel)
    (howner : ∀ i < s.kernel.nextId, owner' i = owner i)
    (hnext : s.kernel.nextId ≤ s'.kernel.nextId)
    (hrest : s'.inFlight = s.inFlight ∧ s'.triggers = s.triggers ∧ s'.jobs = s.jobs ∧
      s'.background = s.background) : Sound owner' s' where
  kernel := hkernel
  inFlight t ht := by
    rw [hrest.1] at ht
    obtain ⟨hid, hsession, hown⟩ := h.inFlight t ht
    exact ⟨hid.trans_le hnext, hsession.trans_le hnext, (howner _ hsession).trans hown⟩
  triggers := by rw [hrest.2.1]; exact h.triggers
  triggersDrawn := by rw [hrest.2.1]; exact fun t ht => (h.triggersDrawn t ht).trans_le hnext
  jobs := by rw [hrest.2.2.1]; exact fun job hjob => (h.jobs job hjob).trans_le hnext
  background := by rw [hrest.2.2.2]; exact fun id hid => (h.background id hid).trans_le hnext

theorem Sound.opened (h : Sound owner s) :
    Sound (nextOwner owner (s.kernel.nextId + 1) s.kernel.nextId) s.opened := by
  have howner : ∀ i < s.kernel.nextId,
      nextOwner owner (s.kernel.nextId + 1) s.kernel.nextId i = owner i :=
    nextOwner_of_lt (Nat.le_succ _)
  refine h.setKernel ?_ howner (Nat.le_add_right _ 2) ⟨rfl, rfl, rfl, rfl⟩
  refine KernelSound.saveSession (h.kernel.extend howner (Nat.le_add_right _ 2)) ?_ ?_
  · exact Nat.lt_succ_self _
  · exact nextOwner_self _

theorem Sound.registerProactive (h : Sound owner s) (cfg : KernelConfig) (name : String)
    (hid : agentId < s.kernel.nextId) (schedule : ScheduleMode) :
    (registerProactive cfg name agentId schedule s.triggers).WellFormed ∧
      ∀ t ∈ (System.registerProactive cfg name agentId schedule s.triggers).triggers,
        t.agentId < s.kernel.nextId := by
  obtain ⟨hwf, new, htriggers, hnew, -⟩ :=
    h.triggers.foldl_register agentId (proactive cfg name schedule)
  refine ⟨hwf, fun t ht => ?_⟩
  rw [System.registerProactive, htriggers] at ht
  rcases List.mem_append.1 ht with ht | ht
  · exact h.triggersDrawn t ht
  · rw [(hnew t ht).1]
    exact hid

theorem Sound.announced (h : Sound owner s) (name : String) (hid : agentId < s.kernel.nextId)
    (schedule : ScheduleMode) : Sound owner (s.announced cfg name agentId schedule) := by
  obtain ⟨hwf, hdrawn⟩ := h.registerProactive cfg name hid schedule
  refine { h with triggers := hwf.evaluateSpawned _ _ _, triggersDrawn := fun t ht => ?_ }
  obtain ⟨t', ht', rfl⟩ := List.mem_map.1 ht
  rw [(TriggerEngine.fireSpawned_id _ _ _ t').2]
  exact hdrawn t' ht'

/-- A spawn, whether it succeeds or fails. -/
theorem Sound.spawnAgentWithParent (h : Sound owner s) {manifest : AgentManifest}
    {settings : Settings} {parent : Option AgentId} {io : SpawnIo}
    {r : Except RustyHandError AgentId} {s' : System}
    (hrun : s.spawnAgentWithParent cfg manifest settings parent io = (r, s')) :
    s'.WellFormed ∧ s.kernel.nextId < s'.kernel.nextId ∧
      ∀ id, r = .ok id → id = s.kernel.nextId := by
  have hopened := h.opened
  have hnext : s.kernel.nextId < s.kernel.nextId + 2 := by omega
  rcases spawnAgentWithParent_cases hrun with ⟨e, -, rfl, rfl⟩ | ⟨-, ⟨e, rfl⟩, rfl, -⟩ |
    ⟨group, -, hgroup, -, ⟨e, -, rfl, rfl⟩ | ⟨registry, hregister, hcases⟩⟩
  · refine ⟨⟨owner, ?_⟩, hnext, fun id hr => by cases hr⟩
    exact h.setKernel (h.kernel.extend (fun _ _ => rfl) (Nat.le_add_right _ 2)) (fun _ _ => rfl)
      (Nat.le_add_right _ 2) ⟨rfl, rfl, rfl, rfl⟩
  · exact ⟨⟨_, hopened⟩, hnext, fun id hr => by cases hr⟩
  · refine ⟨⟨nextOwner owner (s.kernel.nextId + 1) s.kernel.nextId, ?_⟩, hnext,
      fun id hr => by cases hr⟩
    exact hopened.setKernel (hopened.kernel.congr rfl rfl rfl) (fun _ _ => rfl) le_rfl
      ⟨rfl, rfl, rfl, rfl⟩
  · have hfresh : s.kernel.nextId ∉ s.kernel.registry.agents.map AgentEntry.id := by
      intro hmem
      obtain ⟨e, he, heq⟩ := List.mem_map.1 hmem
      exact absurd heq (h.kernel.agents e he).1.ne
    have hentry : s.kernel.nextId < s.kernel.nextId + 2 ∧
        s.kernel.nextId + 1 < s.kernel.nextId + 2 ∧
        nextOwner owner (s.kernel.nextId + 1) s.kernel.nextId (s.kernel.nextId + 1) =
          s.kernel.nextId := ⟨hnext, by omega, nextOwner_self _⟩
    have hsettled : Settled manifest.name { manifest with group := group } :=
      ⟨rfl, normalizeAgentGroup_idem hgroup⟩
    have hentered : Sound (nextOwner owner (s.kernel.nextId + 1) s.kernel.nextId)
        (s.entered cfg { manifest with group := group } settings registry parent) := by
      refine hopened.setKernel ?_ (fun _ _ => rfl) le_rfl ⟨rfl, rfl, rfl, rfl⟩
      have hkernel := hopened.kernel.register hfresh hentry hsettled hregister parent
      exact hkernel.congr rfl rfl rfl
    rcases hcases with ⟨e, -, rfl, rfl⟩ | ⟨-, rfl, rfl⟩
    · exact ⟨⟨_, hentered⟩, hnext, fun id hr => by cases hr⟩
    · have hsaved : Sound (nextOwner owner (s.kernel.nextId + 1) s.kernel.nextId)
          ((s.entered cfg { manifest with group := group } settings registry parent).withRow
            (spawnedEntry s.kernel.nextId (s.kernel.nextId + 1) { manifest with group := group }
              parent) (cfg.prepare manifest.name s.kernel.nextId settings)) :=
        hentered.setKernel (hentered.kernel.saveAgent hentry hsettled) (fun _ _ => rfl) le_rfl
          ⟨rfl, rfl, rfl, rfl⟩
      exact ⟨⟨_, hsaved.announced _ hnext _⟩, hnext, fun id hr => by cases hr; rfl⟩

theorem Sound.killStep (h : Sound owner s) (agentId : AgentId) (step : KillStep) :
    Sound owner (step.apply agentId s) ∧
      (step.apply agentId s).kernel.nextId = s.kernel.nextId := by
  cases step with
  | removeEntry =>
    unfold KillStep.apply
    cases hremove : s.kernel.registry.remove agentId with
    | error e => exact ⟨h, rfl⟩
    | ok removed =>
      refine ⟨?_, rfl⟩
      exact h.setKernel (h.kernel.remove hremove) (fun _ _ => rfl) le_rfl ⟨rfl, rfl, rfl, rfl⟩
  | stopBackground =>
    exact ⟨{ h with background := fun id hid => h.background id (List.mem_filter.1 hid).1 }, rfl⟩
  | unregister => exact ⟨{ h with }, rfl⟩
  | revokeAll =>
    refine ⟨?_, rfl⟩
    exact h.setKernel (h.kernel.congr rfl rfl rfl) (fun _ _ => rfl) le_rfl ⟨rfl, rfl, rfl, rfl⟩
  | removeTriggers =>
    refine ⟨{ h with triggers := h.triggers.removeAgentTriggers agentId
                     triggersDrawn := fun t ht => ?_ }, rfl⟩
    exact h.triggersDrawn t (List.mem_filter.1 ht).1
  | abortTask => exact ⟨{ h with }, rfl⟩
  | deleteSessions =>
    refine ⟨?_, rfl⟩
    exact h.setKernel (h.kernel.deleteSessions _) (fun _ _ => rfl) le_rfl ⟨rfl, rfl, rfl, rfl⟩
  | deleteKv => exact ⟨{ h with }, rfl⟩
  | deleteMemories => exact ⟨{ h with }, rfl⟩
  | deleteRow =>
    refine ⟨?_, rfl⟩
    refine h.setKernel ?_ (fun _ _ => rfl) le_rfl ⟨rfl, rfl, rfl, rfl⟩
    exact { h.kernel with
      rowIds := h.kernel.rowIds.erase
      rows := fun row hrow => h.kernel.rows row (Table.mem_erase.1 hrow).1
      rowsSettled := fun row hrow => h.kernel.rowsSettled row (Table.mem_erase.1 hrow).1 }

theorem Sound.killSteps (h : Sound owner s) (agentId : AgentId) (steps : List KillStep) :
    Sound owner (steps.foldl (KillStep.apply agentId) s) ∧
      (steps.foldl (KillStep.apply agentId) s).kernel.nextId = s.kernel.nextId := by
  induction steps generalizing s with
  | nil => exact ⟨h, rfl⟩
  | cons step steps ih =>
    obtain ⟨hstep, hnext⟩ := h.killStep agentId step
    obtain ⟨hrest, hnextRest⟩ := ih hstep
    exact ⟨hrest, hnextRest.trans hnext⟩

theorem Sound.killAgent (h : Sound owner s) (agentId : AgentId) :
    Sound owner (s.killAgent agentId).2 := by
  unfold System.killAgent
  split
  · exact h
  · exact (h.killSteps agentId _).1

theorem Sound.recordRestart (h : Sound owner s) (agentId : AgentId) (count : ℕ) :
    Sound owner ((stopSteps.foldl (KillStep.apply agentId) s).recordRestart agentId count) := by
  obtain ⟨hstopped, -⟩ := h.killSteps agentId stopSteps
  exact hstopped.setKernel (hstopped.kernel.congr rfl rfl rfl) (fun _ _ => rfl) le_rfl
    ⟨rfl, rfl, rfl, rfl⟩

theorem Sound.restartAgent (h : Sound owner s) (cfg : KernelConfig) (agentId : AgentId)
    (io : SpawnIo) : (s.restartAgent cfg agentId io).2.WellFormed := by
  unfold System.restartAgent
  cases hremove : s.kernel.registry.remove agentId with
  | error e => exact ⟨owner, h⟩
  | ok removed =>
    obtain ⟨entry, registry⟩ := removed
    dsimp only
    have hcounted := h.recordRestart agentId (s.kernel.agentRestartCount agentId + 1)
    split_ifs with hmax
    · exact ⟨owner, hcounted⟩
    · rcases hspawn : System.spawnAgentWithParent cfg _ entry.manifest (s.settingsOf agentId) none
        io with ⟨r, s'⟩
      obtain ⟨⟨owner', hs'⟩, hnext, hid⟩ := hcounted.spawnAgentWithParent hspawn
      cases r with
      | error e => exact ⟨owner', hs'⟩
      | ok newId =>
        refine ⟨owner', { hs' with kernel := hs'.kernel.congr rfl rfl rfl, jobs := ?_ }⟩
        -- a job that is handed on gets the id that the spawn has just drawn
        intro job hjob
        obtain ⟨old, hold, rfl⟩ := List.mem_map.1 hjob
        unfold reassign
        split
        · show newId < s'.kernel.nextId
          rw [hid newId rfl]
          exact hnext
        · exact hs'.jobs old hold

/-- A new session of an agent becomes its current one. -/
theorem Sound.switchNew (h : Sound owner s) {m : MemorySubstrate}
    (hm : KernelSound owner { s.kernel with memory := m }) (label : Option String)
    {registry : AgentRegistry}
    (hupdate : s.kernel.registry.updateSessionId agentId s.kernel.nextId = .ok registry) :
    WellFormed { s with kernel := { s.kernel with
      memory := m.createSession s.kernel.nextId agentId label
      nextId := s.kernel.nextId + 1
      registry := registry } } := by
  have howner : ∀ i < s.kernel.nextId, nextOwner owner s.kernel.nextId agentId i = owner i :=
    nextOwner_of_lt le_rfl
  refine ⟨_, h.setKernel ?_ howner (Nat.le_succ _) ⟨rfl, rfl, rfl, rfl⟩⟩
  have hsaved : KernelSound (nextOwner owner s.kernel.nextId agentId) { s.kernel with
      memory := m.createSession s.kernel.nextId agentId label
      nextId := s.kernel.nextId + 1 } := by
    apply KernelSound.saveSession (hm.extend howner (Nat.le_succ _))
    · exact Nat.lt_succ_self _
    · exact nextOwner_self _
  refine hsaved.update hupdate (fun _ => rfl) (fun _ => ⟨rfl, rfl⟩) fun e _ he =>
    ⟨Nat.lt_succ_self _, ?_⟩
  rw [he]
  exact nextOwner_self _

/-- The update of the current session of a registered agent does not fail. -/
theorem updateSessionId_ok {r : AgentRegistry} {entry : AgentEntry}
    (hget : r.get agentId = some entry) (sessionId : SessionId) :
    ∃ registry, r.updateSessionId agentId sessionId = .ok registry :=
  ⟨_, update_eq_ok_iff.2 ⟨⟨entry, hget⟩, rfl⟩⟩

theorem Sound.resetSession (h : Sound owner s) (agentId : AgentId) :
    WellFormed { s with kernel := (s.kernel.resetSession agentId).2 } := by
  unfold Kernel.resetSession
  cases hget : s.kernel.registry.get agentId with
  | none => exact ⟨owner, h⟩
  | some entry =>
    obtain ⟨registry, hupdate⟩ := updateSessionId_ok hget s.kernel.nextId
    dsimp only
    rw [hupdate]
    exact h.switchNew (h.kernel.deleteSessions _) none hupdate

theorem Sound.createAgentSession (h : Sound owner s) (agentId : AgentId) (label : Option String) :
    WellFormed { s with kernel := (s.kernel.createAgentSession agentId label).2 } := by
  unfold Kernel.createAgentSession
  cases hget : s.kernel.registry.get agentId with
  | none => exact ⟨owner, h⟩
  | some entry =>
    obtain ⟨registry, hupdate⟩ := updateSessionId_ok hget s.kernel.nextId
    dsimp only
    rw [hupdate]
    exact h.switchNew h.kernel label hupdate

theorem Sound.switchAgentSession (h : Sound owner s) (agentId : AgentId) (sessionId : SessionId) :
    WellFormed { s with kernel := (s.kernel.switchAgentSession agentId sessionId).2 } := by
  unfold Kernel.switchAgentSession
  cases hget : s.kernel.registry.get agentId with
  | none => exact ⟨owner, h⟩
  | some entry =>
    dsimp only
    cases hsession : s.kernel.memory.getSession sessionId with
    | none => exact ⟨owner, h⟩
    | some session =>
      dsimp only
      obtain ⟨hmem, hkey⟩ := Table.mem_of_lookup hsession
      obtain ⟨hlt, hown⟩ := h.kernel.sessions session hmem
      obtain ⟨registry, hupdate⟩ := updateSessionId_ok hget sessionId
      split_ifs with hagent
      · exact ⟨owner, h⟩
      · rw [hupdate]
        refine ⟨owner, h.setKernel ?_ (fun _ _ => rfl) le_rfl ⟨rfl, rfl, rfl, rfl⟩⟩
        refine h.kernel.update hupdate (fun _ => rfl) (fun _ => ⟨rfl, rfl⟩) fun e _ he => ?_
        rw [he, ← hkey, ← not_not.1 hagent]
        exact ⟨hlt, hown⟩

theorem Sound.setMode (h : Sound owner s) (agentId : AgentId) (mode : AgentMode) :
    Sound owner { s with kernel := (s.kernel.setMode agentId mode).2 } := by
  unfold Kernel.setMode
  cases hupdate : s.kernel.registry.setMode agentId mode with
  | error e => exact h
  | ok registry =>
    refine h.setKernel ?_ (fun _ _ => rfl) le_rfl ⟨rfl, rfl, rfl, rfl⟩
    refine h.kernel.update hupdate (fun _ => rfl) (fun _ => ⟨rfl, rfl⟩) fun e he _ => ?_
    exact (h.kernel.agents e he).2

theorem Sound.addJob (h : Sound owner s) (hagent : agentId < s.kernel.nextId) (name : String) :
    Sound owner ((TurnWrite.addJob name).apply agentId 0 s) := by
  have hnext : s.kernel.nextId ≤ s.kernel.nextId + 1 := Nat.le_succ _
  have hdrawn : Sound owner { s with kernel := { s.kernel with nextId := s.kernel.nextId + 1 } } :=
    h.setKernel (h.kernel.extend (fun _ _ => rfl) hnext) (fun _ _ => rfl) hnext
      ⟨rfl, rfl, rfl, rfl⟩
  refine { hdrawn with jobs := fun job hjob => ?_ }
  rcases List.mem_append.1 hjob with hjob | hjob
  · exact hdrawn.jobs job hjob
  · rw [List.mem_singleton.1 hjob]
    exact hagent.trans_le hnext

theorem Sound.turnWrite (h : Sound owner s) {sessionId : SessionId}
    (hagent : agentId < s.kernel.nextId) (hsession : sessionId < s.kernel.nextId)
    (hown : owner sessionId = agentId) (w : TurnWrite) :
    Sound owner (w.apply agentId sessionId s) := by
  cases w with
  | saveSession messages =>
    exact h.setKernel (h.kernel.saveSession hsession hown) (fun _ _ => rfl) le_rfl
      ⟨rfl, rfl, rfl, rfl⟩
  | saveCanonical c => exact { h with }
  | remember content => exact { h with }
  | setKv key value => exact { h with }
  | addJob name => exact h.addJob hagent name
  | recordUsage tokens toolCalls => exact { h with }
  | setState state =>
    simp only [TurnWrite.apply]
    cases hupdate : s.kernel.registry.setState agentId state with
    | error e => exact h
    | ok registry =>
      refine h.setKernel ?_ (fun _ _ => rfl) le_rfl ⟨rfl, rfl, rfl, rfl⟩
      refine h.kernel.update hupdate (fun _ => rfl) (fun _ => ⟨rfl, rfl⟩) fun e he _ => ?_
      exact (h.kernel.agents e he).2

theorem Sound.startBackground (h : Sound owner s) (cfg : KernelConfig) {entry : AgentEntry}
    (hid : entry.id < s.kernel.nextId) : Sound owner (startBackground cfg s entry) := by
  obtain ⟨hwf, hdrawn⟩ := h.registerProactive cfg entry.name hid (s.settingsOf entry.id).schedule
  have hbackground : ∀ id ∈ s.background ++ [entry.id], id < s.kernel.nextId := by
    intro id hmem
    rcases List.mem_append.1 hmem with hmem | hmem
    · exact h.background id hmem
    · rw [List.mem_singleton.1 hmem]
      exact hid
  refine { h with triggers := hwf, triggersDrawn := hdrawn, background := ?_ }
  unfold System.startBackground
  dsimp only
  split
  · exact hbackground
  · exact hbackground
  · exact h.background

theorem Sound.startBackgroundAgents (h : Sound owner s) (cfg : KernelConfig)
    (entries : List AgentEntry) (hentries : ∀ e ∈ entries, e.id < s.kernel.nextId) :
    Sound owner (entries.foldl (System.startBackground cfg) s) := by
  induction entries generalizing s with
  | nil => exact h
  | cons entry entries ih =>
    refine ih (h.startBackground cfg (hentries entry List.mem_cons_self)) fun e he => ?_
    exact hentries e (List.mem_cons_of_mem _ he)

/-! ### Shutdown and boot -/

theorem KernelSound.suspendAgent (h : KernelSound owner k) (entry : AgentEntry) :
    KernelSound owner (k.suspendAgent entry) ∧ (k.suspendAgent entry).nextId = k.nextId := by
  have hsave : ∀ (k' : Kernel) (updated : AgentEntry), KernelSound owner k' →
      k'.registry.get entry.id = some updated →
      KernelSound owner { k' with memory := k'.memory.saveAgent updated } := by
    intro k' updated hk' hget
    obtain ⟨hmem, -⟩ := hk'.registry.get_eq_some_iff.1 hget
    exact hk'.saveAgent (hk'.agents updated hmem) (hk'.settled updated hmem)
  unfold Kernel.suspendAgent
  cases hupdate : k.registry.setState entry.id .suspended with
  | error e =>
    dsimp only
    cases hget : k.registry.get entry.id with
    | none => exact ⟨h, rfl⟩
    | some updated => exact ⟨hsave k updated h hget, rfl⟩
  | ok registry =>
    have hset : KernelSound owner { k with registry := registry } :=
      h.update hupdate (fun _ => rfl) (fun _ => ⟨rfl, rfl⟩) fun e he _ => (h.agents e he).2
    dsimp only
    cases hget : registry.get entry.id with
    | none => exact ⟨hset, rfl⟩
    | some updated => exact ⟨hsave _ updated hset hget, rfl⟩

theorem KernelSound.shutdown (h : KernelSound owner k) (entries : List AgentEntry) :
    KernelSound owner (entries.foldl Kernel.suspendAgent k) ∧
      (entries.foldl Kernel.suspendAgent k).nextId = k.nextId := by
  induction entries generalizing k with
  | nil => exact ⟨h, rfl⟩
  | cons entry entries ih =>
    obtain ⟨hstep, hnext⟩ := h.suspendAgent entry
    obtain ⟨hrest, hnextRest⟩ := ih hstep
    exact ⟨hrest, hnextRest.trans hnext⟩

theorem KernelSound.boot (h : KernelSound owner k) (lower : String → String) :
    KernelSound owner (Kernel.boot lower k.memory k.nextId) ∧
      (Kernel.boot lower k.memory k.nextId).nextId = k.nextId := by
  obtain ⟨hagents, hregistry, hmemory, hnext⟩ := Kernel.boot_agents h.rowIds lower k.nextId
  refine ⟨⟨hregistry, ?_, ?_, ?_, ?_, ?_, ?_⟩, hnext⟩
  · rw [hmemory]
    exact h.rowIds
  · rw [hagents, hnext]
    intro e he
    obtain ⟨loaded, hloaded, rfl⟩ := List.mem_map.1 he
    obtain ⟨row, hrow, rfl⟩ :=
      List.mem_map.1 ((MemorySubstrate.loadRows_sublist lower [] k.memory.agents).subset hloaded)
    exact h.rows row hrow
  · rw [hmemory, hnext]
    exact h.rows
  · rw [hmemory, hnext]
    exact h.sessions
  · rw [hagents]
    intro e he
    obtain ⟨loaded, hloaded, rfl⟩ := List.mem_map.1 he
    obtain ⟨row, hrow, rfl⟩ :=
      List.mem_map.1 ((MemorySubstrate.loadRows_sublist lower [] k.memory.agents).subset hloaded)
    exact h.rowsSettled row hrow
  · rw [hmemory]
    exact h.rowsSettled

theorem Sound.reboot (h : Sound owner s) (cfg : KernelConfig) (clean : Bool) {jobs : List CronJob}
    (hjobs : ∀ job ∈ jobs, job.agentId < s.kernel.nextId) :
    Sound owner (s.reboot cfg clean jobs) := by
  have hlast : KernelSound owner (s.kernel.reboot cfg.toLowercase clean) ∧
      (s.kernel.reboot cfg.toLowercase clean).nextId = s.kernel.nextId := by
    unfold Kernel.reboot
    cases clean with
    | false => exact h.kernel.boot _
    | true =>
      obtain ⟨hdown, hnext⟩ := h.kernel.shutdown s.kernel.registry.agents
      obtain ⟨hboot, hnextBoot⟩ := hdown.boot cfg.toLowercase
      exact ⟨hboot, hnextBoot.trans hnext⟩
  obtain ⟨hkernel, hnext⟩ := hlast
  refine ⟨hkernel, fun t ht => absurd ht List.not_mem_nil, h.triggers, ?_, ?_,
    fun id hid => absurd hid List.not_mem_nil⟩
  · show ∀ t ∈ s.triggers.triggers, t.agentId < (s.kernel.reboot cfg.toLowercase clean).nextId
    rw [hnext]
    exact h.triggersDrawn
  · show ∀ job ∈ jobs, job.agentId < (s.kernel.reboot cfg.toLowercase clean).nextId
    rw [hnext]
    exact hjobs

/-! ### Runs -/

theorem WellFormed.apply (h : s.WellFormed) (cfg : KernelConfig) (op : Op) :
    (s.apply cfg op).WellFormed := by
  obtain ⟨owner, h⟩ := h
  have hregistered : ∀ id, (s.kernel.registry.get id).isSome = true → id < s.kernel.nextId := by
    intro id hsome
    obtain ⟨entry, hget⟩ := Option.isSome_iff_exists.1 hsome
    exact (h.kernel.agent_lt hget).1
  cases op with
  | spawnAgentWithParent manifest settings parent io => exact (h.spawnAgentWithParent rfl).1
  | killAgent id => exact ⟨owner, h.killAgent id⟩
  | restartAgent id io => exact h.restartAgent cfg id io
  | resetSession id => exact h.resetSession id
  | createAgentSession id label => exact h.createAgentSession id label
  | switchAgentSession id sessionId => exact h.switchAgentSession id sessionId
  | setMode id mode => exact ⟨owner, h.setMode id mode⟩
  | setModel id provider model => exact ⟨owner, { h with }⟩
  | registerTrigger id pattern prompt maxFires =>
    unfold System.apply
    dsimp only
    split_ifs with hget
    · refine ⟨owner, { h with triggers := h.triggers.register id pattern prompt maxFires
                              triggersDrawn := fun t ht => ?_ }⟩
      rcases List.mem_append.1 ht with ht | ht
      · exact h.triggersDrawn t ht
      · rw [List.mem_singleton.1 ht]
        exact hregistered id hget
    · exact ⟨owner, h⟩
  | removeTrigger id =>
    refine ⟨owner, { h with triggers := h.triggers.remove id, triggersDrawn := fun t ht => ?_ }⟩
    exact h.triggersDrawn t (Table.mem_erase.1 ht).1
  | addJob id name =>
    unfold System.apply
    dsimp only
    split_ifs with hget
    · exact ⟨owner, h.addJob (hregistered id hget) name⟩
    · exact ⟨owner, h⟩
  | removeJob id =>
    exact ⟨owner, { h with jobs := fun job hjob => h.jobs job (List.mem_filter.1 hjob).1 }⟩
  | startBackgroundAgents =>
    refine ⟨owner, h.startBackgroundAgents cfg _ fun e he => (h.kernel.agents e he).1⟩
  | beginTurn id =>
    unfold System.apply
    dsimp only
    cases hget : s.kernel.registry.get id with
    | none => exact ⟨owner, h⟩
    | some entry =>
      refine ⟨owner, { h with inFlight := fun t ht => ?_ }⟩
      rcases List.mem_append.1 ht with ht | ht
      · exact h.inFlight t ht
      · rw [List.mem_singleton.1 ht]
        exact h.kernel.agent_lt hget
  | turnWrite id sessionId w =>
    unfold System.apply
    dsimp only
    split_ifs with hturn
    · obtain ⟨hid, hsession, hown⟩ := h.inFlight _ hturn
      exact ⟨owner, h.turnWrite hid hsession hown w⟩
    · exact ⟨owner, h⟩
  | endTurn id sessionId =>
    exact ⟨owner, { h with inFlight := fun t ht => h.inFlight t (List.mem_of_mem_erase ht) }⟩
  | reboot clean jobs =>
    refine ⟨owner, h.reboot cfg clean fun job hjob => ?_⟩
    simpa using (List.mem_filter.1 hjob).2

/-- The invariant holds in every state that a run reaches. -/
theorem run_wellFormed (cfg : KernelConfig) (ops : List Op) : (run cfg ops).WellFormed := by
  have hrest : ∀ s : System, s.WellFormed → (ops.foldl (System.apply cfg) s).WellFormed := by
    -- the owners may change at every step, so the induction carries `WellFormed`, not `Sound`
    induction ops with
    | nil => exact fun s h => h
    | cons op ops ih => exact fun s h => ih _ (h.apply cfg op)
  exact hrest {} ⟨_, Sound.empty⟩

end System
end RustyHand
