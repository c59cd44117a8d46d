import RustyHand.Kernel.RestartKeeps
import RustyHand.Kernel.TriggerEvaluate
import RustyHand.Lib.Runs

/-!
# The triggers of proactive agents

`spawn_agent_with_parent` and `start_background_for_agent` of `rusty-hand-kernel/src/kernel.rs` both
register a trigger for each condition of a proactive agent, the one when it is spawned and the other
whenever the daemon starts, and the triggers that were there before a start are loaded from their
file.

* `LifeOp`, `live`: spawns, restarts, kills, and the daemon stopped and started;
* `marks`: what the triggers of an agent watch for;
* `Unique`, `ToldOnce`: each proactive agent has one trigger for each of its conditions, so that a
  matching event sends it one message for each;
* `NoneLeft`: the operations that keep it so;
* `unique_iff`: it holds in every state of a run if and only if all operations are such.
-/

namespace RustyHand
namespace TriggerEngine

/-- The patterns of an agent's triggers, with their prompts. -/
def marks (e : TriggerEngine) (id : AgentId) : List (TriggerPattern × String) :=
  (e.triggersOf id).map fun t => (t.pattern, t.promptTemplate)

variable {e : TriggerEngine} {id agentId : AgentId}

theorem marks_register (agentId : AgentId) (pattern : TriggerPattern) (prompt : String)
    (maxFires : ℕ) (id : AgentId) : (e.register agentId pattern prompt maxFires).marks id =
      e.marks id ++ if agentId = id then [(pattern, prompt)] else [] := by
  unfold marks triggersOf register
  rw [List.filter_append, List.map_append]
  by_cases h : agentId = id
  · simp [h]
  · simp [h]

theorem marks_registerProactive (cfg : KernelConfig) (name : String) (agentId : AgentId)
    (schedule : ScheduleMode) (e : TriggerEngine) (id : AgentId) :
    (System.registerProactive cfg name agentId schedule e).marks id =
      e.marks id ++ if agentId = id then System.proactive cfg name schedule else [] := by
  unfold System.registerProactive
  induction System.proactive cfg name schedule generalizing e with
  | nil => simp
  | cons p l ih =>
    rw [List.foldl_cons, ih, marks_register]
    by_cases h : agentId = id
    · simp [h]
    · simp [h]

theorem marks_evaluateSpawned (toLowercase : String → String) (name description : String)
    (id : AgentId) : (e.evaluateSpawned toLowercase name description).marks id = e.marks id := by
  have hkeep (t : Trigger) :
      (fireSpawned toLowercase name description t).agentId = t.agentId ∧
        (fireSpawned toLowercase name description t).pattern = t.pattern ∧
        (fireSpawned toLowercase name description t).promptTemplate = t.promptTemplate := by
    unfold fireSpawned
    split_ifs <;> exact ⟨rfl, rfl, rfl⟩
  unfold marks triggersOf evaluateSpawned
  rw [List.filter_map, List.map_map]
  have hagent : ((fun t : Trigger => decide (t.agentId = id)) ∘
      fireSpawned toLowercase name description) = fun t => decide (t.agentId = id) := by
    funext t
    rw [Function.comp_apply, (hkeep t).1]
  rw [hagent]
  refine List.map_congr_left fun t _ => ?_
  rw [Function.comp_apply, (hkeep t).2.1, (hkeep t).2.2]

theorem marks_removeAgentTriggers (h : e.WellFormed) (hne : id ≠ agentId) :
    (e.removeAgentTriggers agentId).marks id = e.marks id := by
  unfold marks triggersOf
  rw [h.triggers_removeAgentTriggers, List.filter_filter]
  refine congrArg _ (List.filter_congr fun t _ => ?_)
  by_cases hid : t.agentId = id
  · simp [hid, hne]
  · simp [hid]

theorem marks_eq_nil (h : ∀ t ∈ e.triggers, t.agentId ≠ id) : e.marks id = [] := by
  unfold marks triggersOf
  rw [List.map_eq_nil_iff, List.filter_eq_nil_iff]
  intro t ht
  simpa using h t ht

/-- What the agent of some triggers is told at an event, if all of them fire that match. -/
def told (text : EventText) (payload : EventPayload) (id : AgentId)
    (marks : List (TriggerPattern × String)) : List (AgentId × String) :=
  (marks.filter fun p => p.1.matchesEvent text payload (text.describe payload)).map fun p =>
    (id, Text.replace p.2 "\x7b\x7bevent\x7d\x7d" (text.describe payload))

/-- The triggers are enabled, and none has a limit. -/
def Unlimited (e : TriggerEngine) : Prop :=
  ∀ t ∈ e.triggers, t.enabled = true ∧ t.maxFires = 0

/-- What an agent is told at an event goes by its marks. -/
theorem Unlimited.notices (h : e.Unlimited) (text : EventText) (payload : EventPayload)
    (id : AgentId) : (e.evaluate text payload).1.filter (fun notice => notice.1 = id) =
      told text payload id (e.marks id) := by
  have hfires (t : Trigger) (ht : t ∈ e.triggers) : (decide (t.visit text payload = .fired)) =
      t.pattern.matchesEvent text payload (text.describe payload) := by
    obtain ⟨henabled, hmax⟩ := h t ht
    unfold Trigger.visit
    cases t.pattern.matchesEvent text payload (text.describe payload) with
    | false => simp [henabled, hmax]
    | true => simp [henabled, hmax]
  unfold evaluate told marks triggersOf firedBy
  rw [List.filter_congr hfires, List.filter_map, List.filter_map, List.map_map, List.filter_filter,
    List.filter_filter]
  refine (List.map_congr_left fun t ht => ?_).trans (congrArg _ (List.filter_congr fun t _ => ?_))
  · have hid : t.agentId = id := by
      have hboth := (List.mem_filter.1 ht).2
      rw [Bool.and_eq_true] at hboth
      exact of_decide_eq_true hboth.1
    show (t.agentId, _) = (id, _)
    rw [hid]
  · exact Bool.and_comm _ _

theorem Unlimited.registerProactive (h : e.Unlimited) (cfg : KernelConfig) (name : String)
    (agentId : AgentId) (schedule : ScheduleMode) :
    (System.registerProactive cfg name agentId schedule e).Unlimited := by
  unfold System.registerProactive
  induction System.proactive cfg name schedule generalizing e with
  | nil => exact h
  | cons p l ih =>
    refine ih fun t ht => ?_
    rcases List.mem_append.1 ht with ht | ht
    · exact h t ht
    · rw [List.mem_singleton.1 ht]
      exact ⟨rfl, rfl⟩

theorem Unlimited.evaluateSpawned (h : e.Unlimited) (toLowercase : String → String)
    (name description : String) : (e.evaluateSpawned toLowercase name description).Unlimited := by
  intro t ht
  obtain ⟨t', ht', rfl⟩ := List.mem_map.1 ht
  obtain ⟨henabled, hmax⟩ := h t' ht'
  unfold fireSpawned
  rw [if_pos henabled, if_neg (by omega)]
  split
  · exact ⟨henabled, hmax⟩
  · exact ⟨henabled, hmax⟩

theorem Unlimited.removeAgentTriggers (h : e.Unlimited) (agentId : AgentId) :
    (e.removeAgentTriggers agentId).Unlimited :=
  fun t ht => h t (List.mem_filter.1 ht).1

end TriggerEngine

namespace System

/-- A spawn, a restart or a kill of an agent, or the daemon stopped, in an orderly way or not, and
started again.  Of what these write, nothing fails but the making of a workspace. -/
inductive LifeOp
  | spawn (manifest : AgentManifest) (settings : Settings) (parent : Option AgentId)
      (workspace : Except String Unit)
  | restart (agentId : AgentId) (workspace : Except String Unit)
  | kill (agentId : AgentId)
  | reboot (clean : Bool)

/-- What the operation does; a start of the daemon ends with `start_background_agents`. -/
def live (cfg : KernelConfig) (s : System) : LifeOp → System
  | .spawn manifest settings parent workspace =>
    s.apply cfg (.spawnAgentWithParent manifest settings parent { workspace := workspace })
  | .restart agentId workspace => s.apply cfg (.restartAgent agentId { workspace := workspace })
  | .kill agentId => s.apply cfg (.killAgent agentId)
  | .reboot clean => (s.apply cfg (.reboot clean s.jobs)).apply cfg .startBackgroundAgents

/-- The conditions of an agent that `parse_condition` knows, as the triggers for them. -/
def conditionsOf (cfg : KernelConfig) (s : System) (entry : AgentEntry) :
    List (TriggerPattern × String) :=
  proactive cfg entry.name (s.settingsOf entry.id).schedule

/-- Each registered agent that has conditions has one trigger for each of them. -/
def Unique (cfg : KernelConfig) (s : System) : Prop :=
  ∀ entry ∈ s.kernel.registry.agents, s.conditionsOf cfg entry ≠ [] →
    (s.triggers.marks entry.id).Perm (s.conditionsOf cfg entry)

/-- At every event each of these agents is told once for each condition that matches. -/
def ToldOnce (cfg : KernelConfig) (s : System) : Prop :=
  ∀ entry ∈ s.kernel.registry.agents, s.conditionsOf cfg entry ≠ [] → ∀ text payload,
    ((s.triggers.evaluate text payload).1.filter fun notice => notice.1 = entry.id).Perm
      (TriggerEngine.told text payload entry.id (s.conditionsOf cfg entry))

/-- What keeps an operation from registering a trigger twice: no agent with conditions that a boot
restores has triggers in their file. -/
def NoneLeft (cfg : KernelConfig) (s : System) : LifeOp → Prop
  | .reboot clean =>
    let booted := s.apply cfg (.reboot clean s.jobs)
    ∀ entry ∈ booted.kernel.registry.agents, booted.conditionsOf cfg entry ≠ [] →
      s.triggers.triggersOf entry.id = []
  | _ => True

variable {cfg : KernelConfig} {owner : SessionId → AgentId} {s s' : System} {agentId : AgentId}

/-- A system in which every agent was there before, with the same conditions and triggers. -/
theorem Unique.of_same (h : Unique cfg s)
    (hsame : ∀ entry ∈ s'.kernel.registry.agents, ∃ old ∈ s.kernel.registry.agents,
      old.id = entry.id ∧ s'.conditionsOf cfg entry = s.conditionsOf cfg old ∧
        s'.triggers.marks entry.id = s.triggers.marks entry.id) : Unique cfg s' := by
  intro entry hentry hconditions
  obtain ⟨old, hold, hid, heq, hmarks⟩ := hsame entry hentry
  rw [heq] at hconditions ⊢
  rw [hmarks, ← hid]
  exact h old hold hconditions

/-! ### Kill -/

/-- The agents after one has been stopped, with their conditions and triggers. -/
theorem unique_stopSteps (h : Sound owner s) (hunique : Unique cfg s) :
    Unique cfg (stopSteps.foldl (KillStep.apply agentId) s) := by
  cases hremove : s.kernel.registry.remove agentId with
  | error e =>
    -- no agent is removed: it was not registered
    refine hunique.of_same fun entry hentry => ?_
    have hagents : (stopSteps.foldl (KillStep.apply agentId) s).kernel.registry =
        s.kernel.registry := by simp [stopSteps, KillStep.apply, hremove]
    have hsettings : (stopSteps.foldl (KillStep.apply agentId) s).settings = s.settings := by
      simp [stopSteps, KillStep.apply, hremove]
    have htriggers : (stopSteps.foldl (KillStep.apply agentId) s).triggers =
        s.triggers.removeAgentTriggers agentId := by
      simp [stopSteps, KillStep.apply, hremove]
    rw [hagents] at hentry
    refine ⟨entry, hentry, rfl, ?_, ?_⟩
    · unfold conditionsOf settingsOf
      rw [hsettings]
    · rw [htriggers, TriggerEngine.marks_removeAgentTriggers h.triggers]
      rintro rfl
      have hget := h.kernel.registry.get_eq_some_iff.2 ⟨hentry, rfl⟩
      simp [AgentRegistry.remove, hget] at hremove
  | ok removed =>
    obtain ⟨removedEntry, registry⟩ := removed
    obtain ⟨-, hregistry⟩ := AgentRegistry.remove_eq_ok_iff.1 hremove
    rw [stopSteps_eq hremove]
    refine hunique.of_same fun entry hentry => ?_
    have hentry : entry ∈ registry.agents := hentry
    rw [hregistry] at hentry
    obtain ⟨hold, hne⟩ := Table.mem_erase.1 hentry
    refine ⟨entry, hold, rfl, ?_, ?_⟩
    · unfold conditionsOf settingsOf
      rw [Table.lookup_erase_of_ne hne]
    · exact TriggerEngine.marks_removeAgentTriggers h.triggers hne

/-- The steps of the store leave the agents, the conditions and the triggers alone. -/
theorem unique_deleteSteps (hunique : Unique cfg s) :
    Unique cfg (deleteSteps.foldl (KillStep.apply agentId) s) :=
  hunique.of_same fun entry hentry => ⟨entry, hentry, rfl, rfl, rfl⟩

theorem unique_killAgent (h : Sound owner s) (hunique : Unique cfg s) :
    Unique cfg (s.killAgent agentId).2 := by
  unfold killAgent
  split
  · exact hunique
  · rw [killSteps, List.foldl_append]
    exact unique_deleteSteps (unique_stopSteps h hunique)

/-! ### Spawn and restart -/

/-- The new agent has a trigger for each of its conditions, and the others have what they had. -/
theorem unique_spawned (h : Sound owner s) (hunique : Unique cfg s) {manifest : AgentManifest}
    {settings : Settings} {parent : Option AgentId} {registry : AgentRegistry}
    (hregistry : registry.agents = s.kernel.registry.agents ++
      [spawnedEntry s.kernel.nextId (s.kernel.nextId + 1) manifest parent]) :
    Unique cfg (s.spawned cfg manifest settings registry parent) := by
  have hagents (entry : AgentEntry) (hentry : entry ∈
      (s.spawned cfg manifest settings registry parent).kernel.registry.agents) :
      ∃ old ∈ registry.agents, old.id = entry.id ∧ old.name = entry.name := by
    cases parent with
    | none => exact ⟨entry, hentry, rfl, rfl⟩
    | some parentId =>
      rcases Table.mem_modify.1 hentry with ⟨old, hold, -, rfl⟩ | ⟨hold, -⟩
      · exact ⟨old, hold, rfl, rfl⟩
      · exact ⟨entry, hold, rfl, rfl⟩
  have hmarks (id : AgentId) : (s.spawned cfg manifest settings registry parent).triggers.marks id =
      s.triggers.marks id ++ if s.kernel.nextId = id then
        proactive cfg manifest.name (cfg.prepare manifest.name s.kernel.nextId settings).schedule
      else [] := by
    show (TriggerEngine.evaluateSpawned _ _ _ (registerProactive _ _ _ _ _)).marks id = _
    rw [TriggerEngine.marks_evaluateSpawned, TriggerEngine.marks_registerProactive]
    rfl
  have hsettings (id : AgentId) : (s.spawned cfg manifest settings registry parent).settingsOf id =
      if id = s.kernel.nextId then cfg.prepare manifest.name s.kernel.nextId settings
      else s.settingsOf id := by
    show ((Table.lookup Prod.fst id (Table.upsert Prod.fst _ s.settings)).map _).getD _ = _
    rw [Table.lookup_upsert]
    split
    · rfl
    · rfl
  intro entry hentry hconditions
  obtain ⟨old, hold, hid, hname⟩ := hagents entry hentry
  rw [hregistry] at hold
  rcases List.mem_append.1 hold with hold | hold
  · -- an agent that was there has the triggers and the settings that it had
    have hlt : entry.id < s.kernel.nextId := hid ▸ (h.kernel.agents old hold).1
    have heq : (s.spawned cfg manifest settings registry parent).conditionsOf cfg entry =
        s.conditionsOf cfg old := by
      rw [conditionsOf, hsettings, if_neg hlt.ne, conditionsOf, hname, hid]
    rw [heq] at hconditions ⊢
    rw [hmarks, if_neg hlt.ne', List.append_nil, ← hid]
    exact hunique old hold hconditions
  · -- the new agent had none
    rw [List.mem_singleton.1 hold] at hid hname
    have hid : s.kernel.nextId = entry.id := hid
    have hname : manifest.name = entry.name := hname
    have hnone : s.triggers.marks entry.id = [] :=
      TriggerEngine.marks_eq_nil fun t ht heq =>
        (h.triggersDrawn t ht).ne (heq.trans hid.symm)
    rw [hmarks, hnone, if_pos hid, conditionsOf, hsettings, if_pos hid.symm, hname,
      List.nil_append]

/-- A spawn in which nothing fails that `SpawnIo` says does not. -/
theorem unique_spawnAgentWithParent (h : Sound owner s) (hunique : Unique cfg s)
    (manifest : AgentManifest) (settings : Settings) (parent : Option AgentId)
    (workspace : Except String Unit) :
    Unique cfg (s.spawnAgentWithParent cfg manifest settings parent
      { workspace := workspace }).2 := by
  have hkept {s' : System} (hregistry : s'.kernel.registry = s.kernel.registry)
      (hsettings : s'.settings = s.settings) (htriggers : s'.triggers = s.triggers) :
      Unique cfg s' := by
    refine hunique.of_same fun entry hentry => ?_
    rw [hregistry] at hentry
    refine ⟨entry, hentry, rfl, ?_, by rw [htriggers]⟩
    unfold conditionsOf settingsOf
    rw [hsettings]
  rcases hspawn : s.spawnAgentWithParent cfg manifest settings parent { workspace := workspace }
    with ⟨r, s'⟩
  rcases spawnAgentWithParent_cases hspawn with ⟨e, -, -, rfl⟩ | ⟨-, -, rfl, -⟩ |
    ⟨group, -, -, -, ⟨e, -, -, rfl⟩ | ⟨registry, hregister, ⟨e, hsave, -, -⟩ | ⟨-, -, rfl⟩⟩⟩
  · exact hkept rfl rfl rfl
  · exact hkept rfl rfl rfl
  · exact hkept rfl rfl rfl
  · cases hsave
  · have hfresh : s.kernel.nextId ∉ s.kernel.registry.agents.map AgentEntry.id := by
      intro hmem
      obtain ⟨e, he, heq⟩ := List.mem_map.1 hmem
      exact absurd heq (h.kernel.agents e he).1.ne
    obtain ⟨-, hregistry⟩ :=
      (AgentRegistry.register_eq_ok_iff h.kernel.registry hfresh).1 hregister
    exact unique_spawned h hunique (congrArg AgentRegistry.agents hregistry)

theorem unique_restartAgent (h : Sound owner s) (hunique : Unique cfg s)
    {workspace : Except String Unit} :
    Unique cfg (s.restartAgent cfg agentId { workspace := workspace }).2 := by
  unfold System.restartAgent
  cases hremove : s.kernel.registry.remove agentId with
  | error e => exact hunique
  | ok removed =>
    obtain ⟨entry, registry⟩ := removed
    dsimp only
    have hcounted := h.recordRestart agentId (s.kernel.agentRestartCount agentId + 1)
    have hrest : Unique cfg ((stopSteps.foldl (KillStep.apply agentId) s).recordRestart agentId
        (s.kernel.agentRestartCount agentId + 1)) := unique_stopSteps h hunique
    split_ifs with hmax
    · exact hrest
    · have hnew := unique_spawnAgentWithParent hcounted hrest entry.manifest
        (s.settingsOf agentId) none workspace
      rcases hspawn : System.spawnAgentWithParent cfg _ entry.manifest (s.settingsOf agentId) none
        { workspace := workspace } with ⟨r, s'⟩
      rw [hspawn] at hnew
      cases r with
      | error e => exact hnew
      | ok newId => exact hnew

/-! ### Stop and start -/

theorem startBackground_keeps (cfg : KernelConfig) (entries : List AgentEntry) (s : System) :
    (entries.foldl (startBackground cfg) s).kernel = s.kernel ∧
      ∀ id, (entries.foldl (startBackground cfg) s).settingsOf id = s.settingsOf id := by
  induction entries generalizing s with
  | nil => exact ⟨rfl, fun _ => rfl⟩
  | cons entry entries ih => exact ih (startBackground cfg s entry)

/-- What the start of the daemon adds to the triggers of an agent. -/
theorem marks_startBackground (entries : List AgentEntry) (s : System) (id : AgentId) :
    (entries.foldl (startBackground cfg) s).triggers.marks id = s.triggers.marks id ++
      entries.flatMap fun entry => if entry.id = id then s.conditionsOf cfg entry else [] := by
  induction entries generalizing s with
  | nil => simp
  | cons entry entries ih =>
    rw [List.foldl_cons, ih, List.flatMap_cons, ← List.append_assoc]
    refine congrArg (· ++ _) ?_
    exact TriggerEngine.marks_registerProactive cfg entry.name entry.id _ s.triggers id

theorem flatMap_eq_of_unique {entries : List AgentEntry} {entry : AgentEntry}
    {f : AgentEntry → List (TriggerPattern × String)}
    (hids : Table.UniqueKeys AgentEntry.id entries) (hentry : entry ∈ entries) :
    (entries.flatMap fun e => if e.id = entry.id then f e else []) = f entry := by
  induction entries with
  | nil => cases hentry
  | cons e entries ih =>
    obtain ⟨hnew, hids⟩ := List.nodup_cons.1 hids
    rw [List.flatMap_cons]
    rcases List.mem_cons.1 hentry with rfl | hentry
    · have hnil : (entries.flatMap fun e => if e.id = entry.id then f e else []) = [] := by
        rw [List.flatMap_eq_nil_iff]
        intro e he
        rw [if_neg]
        rintro heq
        exact hnew (heq ▸ List.mem_map_of_mem he)
      rw [if_pos rfl, hnil, List.append_nil]
    · have hne : e.id ≠ entry.id := by
        rintro heq
        exact hnew (heq ▸ List.mem_map_of_mem hentry)
      rw [if_neg hne, List.nil_append, ih hids hentry]

/-- After a start each agent has, besides the triggers of the file, one for each condition. -/
theorem unique_reboot_iff (h : Sound owner s) (clean : Bool) :
    Unique cfg (s.live cfg (.reboot clean)) ↔ NoneLeft cfg s (.reboot clean) := by
  have hbooted : Sound owner (s.apply cfg (.reboot clean s.jobs)) :=
    h.reboot cfg clean fun job hjob => by simpa using (List.mem_filter.1 hjob).2
  have htriggers : (s.apply cfg (.reboot clean s.jobs)).triggers = s.triggers := rfl
  show Unique cfg (System.apply cfg (s.apply cfg (.reboot clean s.jobs)) .startBackgroundAgents) ↔
    ∀ entry ∈ (s.apply cfg (.reboot clean s.jobs)).kernel.registry.agents, _
  generalize s.apply cfg (.reboot clean s.jobs) = booted at hbooted htriggers ⊢
  obtain ⟨hkernel, hsettings⟩ := startBackground_keeps cfg booted.kernel.registry.agents
    booted
  have hconditions (entry : AgentEntry) : (booted.apply cfg .startBackgroundAgents).conditionsOf cfg
      entry = booted.conditionsOf cfg entry := by
    have hsame : (booted.apply cfg .startBackgroundAgents).settingsOf entry.id =
        booted.settingsOf entry.id := hsettings entry.id
    rw [conditionsOf, hsame, conditionsOf]
  unfold Unique
  show (∀ entry ∈ (List.foldl _ booted _).kernel.registry.agents, _) ↔ _
  rw [hkernel]
  refine forall₂_congr fun entry hentry => ?_
  rw [hconditions]
  refine forall_congr' fun _ => ?_
  have hmarks : (booted.apply cfg .startBackgroundAgents).triggers.marks entry.id =
      s.triggers.marks entry.id ++ booted.conditionsOf cfg entry := by
    refine (marks_startBackground booted.kernel.registry.agents booted entry.id).trans ?_
    rw [flatMap_eq_of_unique hbooted.kernel.registry.ids hentry, htriggers]
  rw [hmarks, ← List.map_eq_nil_iff (f := fun t : Trigger => (t.pattern, t.promptTemplate))]
  show (s.triggers.marks entry.id ++ _).Perm _ ↔ s.triggers.marks entry.id = []
  constructor
  · intro hperm
    have hlength := hperm.length_eq
    rw [List.length_append] at hlength
    exact List.eq_nil_of_length_eq_zero (by omega)
  · intro hnil
    rw [hnil, List.nil_append]

/-! ### Runs -/

theorem toldOnce_of_unique (h : s.triggers.Unlimited) (hunique : Unique cfg s) :
    ToldOnce cfg s := by
  intro entry hentry hconditions text payload
  rw [h.notices]
  exact ((hunique entry hentry hconditions).filter _).map _

theorem unlimited_spawnAgentWithParent (cfg : KernelConfig) (h : s.triggers.Unlimited)
    (manifest : AgentManifest) (settings : Settings) (parent : Option AgentId) (io : SpawnIo) :
    (s.spawnAgentWithParent cfg manifest settings parent io).2.triggers.Unlimited := by
  rcases hspawn : s.spawnAgentWithParent cfg manifest settings parent io with ⟨r, s'⟩
  rcases spawnAgentWithParent_cases hspawn with ⟨e, -, -, rfl⟩ | ⟨-, -, rfl, -⟩ |
    ⟨group, -, -, -, ⟨e, -, -, rfl⟩ | ⟨registry, -, ⟨e, -, -, rfl⟩ | ⟨-, -, rfl⟩⟩⟩
  · exact h
  · exact h
  · exact h
  · exact h
  · exact (h.registerProactive cfg _ _ _).evaluateSpawned _ _ _

theorem unlimited_killSteps (h : s.triggers.Unlimited) (agentId : AgentId) (steps : List KillStep) :
    (steps.foldl (KillStep.apply agentId) s).triggers.Unlimited := by
  induction steps generalizing s with
  | nil => exact h
  | cons step steps ih =>
    refine ih ?_
    cases step with
    | removeEntry =>
      unfold KillStep.apply
      dsimp only
      split
      · exact h
      · exact h
    | removeTriggers => exact h.removeAgentTriggers agentId
    | _ => exact h

theorem unlimited_startBackground (h : s.triggers.Unlimited) (entries : List AgentEntry) :
    (entries.foldl (startBackground cfg) s).triggers.Unlimited := by
  induction entries generalizing s with
  | nil => exact h
  | cons entry entries ih => exact ih (h.registerProactive cfg entry.name entry.id _)

theorem unlimited_live (h : s.triggers.Unlimited) (op : LifeOp) :
    (s.live cfg op).triggers.Unlimited := by
  cases op with
  | spawn manifest settings parent workspace => exact unlimited_spawnAgentWithParent cfg h _ _ _ _
  | restart agentId workspace =>
    show (s.restartAgent cfg agentId _).2.triggers.Unlimited
    unfold restartAgent
    cases s.kernel.registry.remove agentId with
    | error e => exact h
    | ok removed =>
      obtain ⟨entry, registry⟩ := removed
      have hstopped := unlimited_killSteps h agentId stopSteps
      dsimp only
      split_ifs
      · exact hstopped
      · rcases hspawn : System.spawnAgentWithParent cfg _ entry.manifest (s.settingsOf agentId)
          none { workspace := workspace } with ⟨r, s'⟩
        have hspawned : s'.triggers.Unlimited := by
          have hcounted : ((stopSteps.foldl (KillStep.apply agentId) s).recordRestart agentId
              (s.kernel.agentRestartCount agentId + 1)).triggers.Unlimited := hstopped
          have hall := unlimited_spawnAgentWithParent cfg hcounted entry.manifest
            (s.settingsOf agentId) none { workspace := workspace }
          rwa [hspawn] at hall
        cases r with
        | error e => exact hspawned
        | ok newId => exact hspawned
  | kill agentId =>
    show (s.killAgent agentId).2.triggers.Unlimited
    unfold killAgent
    split
    · exact h
    · exact unlimited_killSteps h agentId killSteps
  | reboot clean =>
    exact unlimited_startBackground (s := s.apply cfg (.reboot clean s.jobs)) h _

theorem wellFormed_live (h : s.WellFormed) (op : LifeOp) : (s.live cfg op).WellFormed := by
  cases op with
  | spawn manifest settings parent workspace =>
    exact h.apply cfg (.spawnAgentWithParent manifest settings parent { workspace := workspace })
  | restart agentId workspace =>
    exact h.apply cfg (.restartAgent agentId { workspace := workspace })
  | kill agentId => exact h.apply cfg (.killAgent agentId)
  | reboot clean =>
    exact (h.apply cfg (.reboot clean s.jobs)).apply cfg .startBackgroundAgents

/-- An operation keeps the triggers unique if and only if it finds none left. -/
theorem unique_live_iff (h : s.WellFormed) (hunique : Unique cfg s) (op : LifeOp) :
    Unique cfg (s.live cfg op) ↔ NoneLeft cfg s op := by
  obtain ⟨owner, h⟩ := h
  cases op with
  | spawn manifest settings parent workspace =>
    exact iff_of_true (unique_spawnAgentWithParent h hunique _ _ _ _) trivial
  | restart agentId workspace => exact iff_of_true (unique_restartAgent h hunique) trivial
  | kill agentId => exact iff_of_true (unique_killAgent h hunique) trivial
  | reboot clean => exact unique_reboot_iff h clean

/-- In every state of a run each registered agent has one trigger for each of its conditions, and is
told once for each condition that an event matches, if and only if no boot of the run restores an
agent with conditions whose triggers the file has. -/
theorem unique_iff (cfg : KernelConfig) (ops : List LifeOp) :
    (∀ k, Unique cfg (Runs.run (live cfg) {} (ops.take k)) ∧
      ToldOnce cfg (Runs.run (live cfg) {} (ops.take k))) ↔
      Runs.Along (live cfg) (NoneLeft cfg) {} ops := by
  refine Runs.forall_take_iff_along
    (I := fun s => s.WellFormed ∧ s.triggers.Unlimited ∧ Unique cfg s)
    (G := fun s => Unique cfg s ∧ ToldOnce cfg s) ?_ ?_ ?_ ?_
  · refine ⟨⟨_, Sound.empty⟩, fun t ht => absurd ht List.not_mem_nil, fun entry hentry => ?_⟩
    exact absurd hentry List.not_mem_nil
  · rintro s ⟨-, hunlimited, hunique⟩
    exact ⟨hunique, toldOnce_of_unique hunlimited hunique⟩
  · rintro s op ⟨hwf, hunlimited, hunique⟩ hnone
    exact ⟨wellFormed_live hwf op, unlimited_live hunlimited op,
      (unique_live_iff hwf hunique op).2 hnone⟩
  · rintro s op ⟨hwf, -, hunique⟩ hnext
    exact (unique_live_iff hwf hunique op).1 hnext.1

/-- An agent that watches for everything is spawned, and the daemon is started once more. -/
def restarted : List LifeOp :=
  [.spawn { name := "a" } { schedule := .proactive ["all"] } none (.ok ()), .reboot false]

/-- After that it has two triggers for its one condition. -/
theorem restarted_not_unique :
    ¬∀ k, Unique plainConfig (Runs.run (live plainConfig) {} (restarted.take k)) ∧
      ToldOnce plainConfig (Runs.run (live plainConfig) {} (restarted.take k)) := by
  intro h
  have hperm := (h 2).1 (spawnedEntry 0 1 { name := "a" } none) (by decide) (by decide)
  exact absurd hperm.length_eq (by decide)

end System
end RustyHand
