import RustyHand.Kernel.RestartKeeps
import RustyHand.Kernel.TriggerEvaluate
import RustyHand.Lib.Runs

/-!
# From a fire to a message

`publish_event` of `rusty-hand-kernel/src/kernel.rs` evaluates the triggers and sends each prompt to
its agent; `spawn_agent_with_parent` evaluates them on the event of the spawn and drops the result.
In both, `evaluate` has counted the fires.

* `spawnNotices`, `restartNotices`: what `evaluate` returns within a spawn and a restart;
* `TriggerPost`: the system, with the fires counted and the prompts dispatched so far;
* `Delivers`: the operations that dispatch what they count;
* `delivered_iff`: every counted fire is dispatched if and only if all operations of the run do.
-/

namespace RustyHand

/-- The configuration with these texts. -/
def KernelConfig.withText (cfg : KernelConfig) (text : EventText) : KernelConfig :=
  { cfg with toLowercase := text.toLowercase, showId := text.showId }

/-- A trigger that is enabled and below its limit, with a pattern that an event matches. -/
def Trigger.FiresAt (text : EventText) (payload : EventPayload) (t : Trigger) : Prop :=
  t.enabled = true ∧ (t.maxFires = 0 ∨ t.fireCount < t.maxFires) ∧
    t.pattern.matchesEvent text payload (text.describe payload) = true

theorem Trigger.visit_eq_fired_iff {text : EventText} {payload : EventPayload} {t : Trigger} :
    t.visit text payload = .fired ↔ t.FiresAt text payload := by
  unfold visit FiresAt
  by_cases henabled : t.enabled = true
  · by_cases hlimit : 0 < t.maxFires ∧ t.maxFires ≤ t.fireCount
    · have hnot : ¬(t.maxFires = 0 ∨ t.fireCount < t.maxFires) := by omega
      simp [henabled, hlimit, hnot]
    · have hbelow : t.maxFires = 0 ∨ t.fireCount < t.maxFires := by omega
      simp [henabled, hlimit, hbelow]
  · simp [henabled]

variable {text : EventText} {payload : EventPayload}

theorem firedBy_eq_nil_iff {triggers : List Trigger} :
    firedBy text payload triggers = [] ↔ ∀ t ∈ triggers, ¬t.FiresAt text payload := by
  unfold firedBy
  rw [List.filter_eq_nil_iff]
  simp only [decide_eq_true_eq, Trigger.visit_eq_fired_iff]

/-- Which triggers fire after some have been registered without a limit. -/
theorem firedBy_foldl_register (agentId : AgentId) (l : List (TriggerPattern × String))
    (e : TriggerEngine) :
    firedBy text payload (l.foldl (fun e p => e.register agentId p.1 p.2 0) e).triggers = [] ↔
      (∀ t ∈ e.triggers, ¬t.FiresAt text payload) ∧
        ∀ p ∈ l, p.1.matchesEvent text payload (text.describe payload) = false := by
  induction l generalizing e with
  | nil => simp [firedBy_eq_nil_iff]
  | cons p l ih =>
    have hnew : ¬Trigger.FiresAt text payload ⟨e.nextTrigger, agentId, p.1, p.2, true, 0, 0⟩ ↔
        p.1.matchesEvent text payload (text.describe payload) = false := by
      simp [Trigger.FiresAt]
    rw [List.foldl_cons, ih]
    show (∀ t ∈ e.triggers ++ [_], _) ∧ _ ↔ _
    rw [List.forall_mem_append, List.forall_mem_singleton, List.forall_mem_cons, hnew, and_assoc]

namespace System

/-! ### What a spawn evaluates -/

/-- What `evaluate` returns within a spawn, which drops it. -/
def spawnNotices (cfg : KernelConfig) (text : EventText) (s : System) (manifest : AgentManifest)
    (settings : Settings) (parent : Option AgentId) (io : SpawnIo) : List (AgentId × String) :=
  match (s.spawnAgentWithParent (cfg.withText text) manifest settings parent io).1 with
  | .error _ => []
  | .ok id =>
    ((registerProactive (cfg.withText text) manifest.name id settings.schedule
      s.triggers).evaluate text (.lifecycle (.spawned id manifest.name))).1

/-- The system in which a restart spawns the agent again, with its manifest and its settings; none
if there is no such agent or it has been restarted too often. -/
def restarting (s : System) (agentId : AgentId) : Option (System × AgentManifest × Settings) :=
  match s.kernel.registry.remove agentId with
  | .error _ => none
  | .ok (entry, _) =>
    let maxRestarts := entry.manifest.maxRestarts.getD 0
    let count := s.kernel.agentRestartCount agentId + 1
    if 0 < maxRestarts ∧ maxRestarts < count then none
    else
      some ((stopSteps.foldl (KillStep.apply agentId) s).recordRestart agentId count,
        entry.manifest, s.settingsOf agentId)

/-- What `evaluate` returns within a restart, which drops it. -/
def restartNotices (cfg : KernelConfig) (text : EventText) (s : System) (agentId : AgentId)
    (io : SpawnIo) : List (AgentId × String) :=
  match s.restarting agentId with
  | none => []
  | some (s, manifest, settings) => s.spawnNotices cfg text manifest settings none io

/-- What `evaluate` returns within an operation of the system, which drops it. -/
def droppedNotices (cfg : KernelConfig) (text : EventText) (s : System) :
    Op → List (AgentId × String)
  | .spawnAgentWithParent manifest settings parent io =>
    s.spawnNotices cfg text manifest settings parent io
  | .restartAgent agentId io => s.restartNotices cfg text agentId io
  | _ => []

variable {cfg : KernelConfig} {s : System} {manifest : AgentManifest} {settings : Settings}
  {parent : Option AgentId} {io : SpawnIo}

/-- No step of a spawn fails, and the name is free. -/
def Spawns (s : System) (manifest : AgentManifest) (io : SpawnIo) : Prop :=
  io.createSession = .ok () ∧ (∃ group, normalizeAgentGroup manifest.group = .ok group) ∧
    io.workspace = .ok () ∧
    Table.lookup Prod.fst manifest.name s.kernel.registry.nameIndex = none ∧
    io.saveAgent = .ok ()

theorem spawnAgentWithParent_of_spawns (cfg : KernelConfig) (settings : Settings)
    (parent : Option AgentId) (h : s.Spawns manifest io) :
    (s.spawnAgentWithParent cfg manifest settings parent io).1 = .ok s.kernel.nextId := by
  obtain ⟨hcreate, ⟨group, hgroup⟩, hworkspace, hname, hsave⟩ := h
  simp only [spawnAgentWithParent, hcreate, hgroup, hworkspace, hsave, withGrants, withSession,
    drew, spawnedEntry, AgentRegistry.register, hname, Option.isSome_none,
    if_neg Bool.false_ne_true]

theorem exists_error_of_not_spawns (cfg : KernelConfig) (settings : Settings)
    (parent : Option AgentId) (h : ¬s.Spawns manifest io) :
    ∃ e, (s.spawnAgentWithParent cfg manifest settings parent io).1 = .error e := by
  rcases hspawn : s.spawnAgentWithParent cfg manifest settings parent io with ⟨r, s'⟩
  rcases spawnAgentWithParent_cases hspawn with ⟨e, -, hr, -⟩ | ⟨-, hr, -, -⟩ |
    ⟨group, hcreate, hgroup, hworkspace, ⟨e, -, hr, -⟩ | ⟨registry, hregister, ⟨e, -, hr, -⟩ |
      ⟨hsave, -, -⟩⟩⟩
  · exact ⟨e, hr⟩
  · exact hr
  · exact ⟨e, hr⟩
  · exact ⟨e, hr⟩
  -- the name was free, so nothing was missing
  · refine absurd ⟨hcreate, ⟨group, hgroup⟩, hworkspace, ?_, hsave⟩ h
    unfold AgentRegistry.register at hregister
    split_ifs at hregister with htaken
    simpa [spawnedEntry] using htaken

/-- No trigger fires at the event of a spawn: none that is there, and none of those that the spawn
registers for the agent. -/
def QuietSpawn (cfg : KernelConfig) (text : EventText) (s : System) (manifest : AgentManifest)
    (settings : Settings) (io : SpawnIo) : Prop :=
  let event := EventPayload.lifecycle (.spawned s.kernel.nextId manifest.name)
  s.Spawns manifest io → (∀ t ∈ s.triggers.triggers, ¬t.FiresAt text event) ∧
    ∀ p ∈ proactive (cfg.withText text) manifest.name settings.schedule,
      p.1.matchesEvent text event (text.describe event) = false

theorem spawnNotices_eq_nil_iff :
    s.spawnNotices cfg text manifest settings parent io = [] ↔
      s.QuietSpawn cfg text manifest settings io := by
  unfold spawnNotices QuietSpawn
  by_cases hspawns : s.Spawns manifest io
  · rw [spawnAgentWithParent_of_spawns _ _ _ hspawns]
    show List.map _ (firedBy text _ (TriggerEngine.triggers (List.foldl _ _ _))) = [] ↔ _
    rw [List.map_eq_nil_iff, firedBy_foldl_register]
    exact ⟨fun h _ => h, fun h => h hspawns⟩
  · obtain ⟨e, herror⟩ :=
      exists_error_of_not_spawns (cfg.withText text) settings parent hspawns
    rw [herror]
    exact iff_of_true rfl fun h => absurd h hspawns

end System

/-! ### Counted and dispatched -/

/-- What `publish_event` depends on besides the triggers: is the kernel's handle to itself set, and
does the call get past the wait for the history of the bus? -/
structure PublishIo where
  selfHandle : Bool := true
  completed : Bool := true

/-- An operation of the system, or an event published. -/
inductive PostOp
  | system (op : System.Op)
  | publish (payload : EventPayload) (io : PublishIo)

/-- The system, and the notices of the fires counted and of the prompts dispatched so far. -/
structure TriggerPost where
  system : System := {}
  counted : List (AgentId × String) := []
  dispatched : List (AgentId × String) := []

namespace TriggerPost

/-- `publish_event`. -/
def publishEvent (text : EventText) (p : TriggerPost) (payload : EventPayload) (io : PublishIo) :
    TriggerPost :=
  let (notices, triggers) := p.system.triggers.evaluate text payload
  { system := { p.system with triggers := triggers }
    counted := p.counted ++ notices
    dispatched := p.dispatched ++ if io.selfHandle && io.completed then notices else [] }

/-- The system after an operation, with what it has counted and dispatched. -/
def apply (cfg : KernelConfig) (text : EventText) (p : TriggerPost) : PostOp → TriggerPost
  | .system op =>
    { p with system := p.system.apply (cfg.withText text) op
             counted := p.counted ++ p.system.droppedNotices cfg text op }
  | .publish payload io => p.publishEvent text payload io

/-- Every counted fire has been dispatched. -/
def Delivered (p : TriggerPost) : Prop :=
  ∀ notice, p.counted.count notice ≤ p.dispatched.count notice

/-- What keeps an operation from counting a fire that it does not dispatch: at the event of a spawn
or of a restart no trigger fires, and where one fires at an event that is published, the kernel has
its handle and gets to use it. -/
def Delivers (cfg : KernelConfig) (text : EventText) (p : TriggerPost) : PostOp → Prop
  | .system (.spawnAgentWithParent manifest settings _ io) =>
    p.system.QuietSpawn cfg text manifest settings io
  | .system (.restartAgent agentId io) =>
    ∀ s manifest settings, p.system.restarting agentId = some (s, manifest, settings) →
      s.QuietSpawn cfg text manifest settings io
  | .system _ => True
  | .publish payload io =>
    (io.selfHandle = true ∧ io.completed = true) ∨
      ∀ t ∈ p.system.triggers.triggers, ¬t.FiresAt text payload

variable {cfg : KernelConfig} {p : TriggerPost}

theorem droppedNotices_eq_nil_iff {op : System.Op} :
    p.system.droppedNotices cfg text op = [] ↔ p.Delivers cfg text (.system op) := by
  cases op with
  | spawnAgentWithParent manifest settings parent io => exact System.spawnNotices_eq_nil_iff
  | restartAgent agentId io =>
    show System.restartNotices cfg text p.system agentId io = [] ↔ _
    show _ ↔ ∀ s manifest settings, p.system.restarting agentId = some (s, manifest, settings) →
      s.QuietSpawn cfg text manifest settings io
    unfold System.restartNotices
    cases p.system.restarting agentId with
    | none => simp
    | some restarting =>
      obtain ⟨s, manifest, settings⟩ := restarting
      rw [System.spawnNotices_eq_nil_iff]
      simp
  | _ => exact iff_of_true rfl trivial

theorem delivered_iff_length (h : p.dispatched.Sublist p.counted) :
    p.Delivered ↔ p.counted.length = p.dispatched.length := by
  constructor
  · intro hdelivered
    have hperm : p.counted.Perm p.dispatched :=
      List.perm_iff_count.2 fun notice => (hdelivered notice).antisymm (h.count_le notice)
    exact hperm.length_eq
  · intro hlength notice
    rw [h.eq_of_length hlength.symm]

theorem sublist_apply (h : p.dispatched.Sublist p.counted) (op : PostOp) :
    (p.apply cfg text op).dispatched.Sublist (p.apply cfg text op).counted := by
  cases op with
  | system op => exact h.trans (List.sublist_append_left _ _)
  | publish payload io =>
    refine h.append ?_
    split
    · exact List.Sublist.refl _
    · exact List.nil_sublist _

/-- An operation keeps all fires delivered if and only if it dispatches what it counts. -/
theorem delivered_apply_iff (h : p.dispatched.Sublist p.counted) (op : PostOp) :
    (p.apply cfg text op).Delivered ↔ p.Delivered ∧ p.Delivers cfg text op := by
  have hle : p.dispatched.length ≤ p.counted.length := h.length_le
  rw [delivered_iff_length (sublist_apply h op), delivered_iff_length h]
  cases op with
  | system op =>
    rw [← droppedNotices_eq_nil_iff, ← List.length_eq_zero_iff]
    show (p.counted ++ p.system.droppedNotices cfg text op).length = p.dispatched.length ↔ _
    rw [List.length_append]
    omega
  | publish payload io =>
    have hquiet : (∀ t ∈ p.system.triggers.triggers, ¬t.FiresAt text payload) ↔
        (p.system.triggers.evaluate text payload).1.length = 0 := by
      rw [← firedBy_eq_nil_iff, List.length_eq_zero_iff]
      exact List.map_eq_nil_iff.symm
    show (p.publishEvent text payload io).counted.length =
      (p.publishEvent text payload io).dispatched.length ↔ _ ∧ (_ ∨ _)
    rw [hquiet, ← Bool.and_eq_true]
    simp only [publishEvent, List.length_append]
    generalize (p.system.triggers.evaluate text payload).1 = notices
    cases io.selfHandle && io.completed with
    | true => simp
    | false =>
      simp only [Bool.false_eq_true, if_false, false_or, List.length_nil]
      omega

/-- After a run, every fire that a trigger has counted has been dispatched to its agent, if and only
if at the event of no spawn and no restart of the run a trigger fired, and the kernel had its handle
and used it at every published event at which one fired. -/
theorem delivered_iff (cfg : KernelConfig) (text : EventText) (ops : List PostOp) :
    (Runs.run (apply cfg text) {} ops).Delivered ↔
      Runs.Along (apply cfg text) (Delivers cfg text) {} ops := by
  have hall : Runs.Along (apply cfg text) (fun _ _ => True) {} ops :=
    Runs.along_of_forall fun _ _ => trivial
  have hempty : Delivered {} := fun _ => Nat.le_refl _
  refine (Runs.along_accumulates (I := fun p => p.dispatched.Sublist p.counted) hall
    (List.Sublist.refl _) (fun p op h _ => sublist_apply h op)
    fun p op h _ => delivered_apply_iff h op).trans ?_
  exact and_iff_right hempty

/-- Texts of the least kind. -/
def plainText : EventText :=
  { toLowercase := fun s => s, showId := fun _ => "", showTenths := fun _ => ""
    showTenThousandths := fun _ => "", debugNetwork := fun _ => "", debugSystem := fun _ => "" }

/-- An agent waits for the first spawn, and another is spawned. -/
def greeting : List PostOp :=
  [.system System.spawnOne, .system (.registerTrigger 0 (.agentSpawned "*") "greet" 1),
    .system (.spawnAgentWithParent { name := "b" } {} none {})]

/-- The trigger has spent its only fire, and its agent has not been told. -/
theorem greeting_not_delivered :
    ¬(Runs.run (apply System.plainConfig plainText) {} greeting).Delivered := by
  intro h
  exact absurd (h (0, "greet")) (by decide)

end TriggerPost
end RustyHand
