import RustyHand.Kernel.Kernel
import RustyHand.Kernel.Triggers
import RustyHand.Memory.Canonical
import RustyHand.Runtime.SubprocessSandbox

/-!
# The kernel with its subsystems

`rusty-hand-kernel/src/kernel.rs`: `spawn_agent_with_parent`, `kill_agent` and `restart_agent` with
all that they do to the scheduler (`scheduler.rs`), the triggers, the cron jobs (`cron.rs`), the
background loops (`background.rs`) and the tables of the store, and with the steps that can fail.
`Kernel` is the part of it that is the registry, the grants, and the agents and sessions of the
store.

* `Settings`: what the subsystems read of a manifest;
* `System`, `spawnAgentWithParent`, `killAgent`, `restartAgent`;
* `TurnWrite`: what a turn writes while it is in flight;
* `run`: the operations, one after the other;
* `kernel_spawnAgentWithParent`, `kernel_killAgent`, `kernel_restartAgent`: what they do to
  `Kernel`.
-/

namespace RustyHand

/-- `ScheduleMode`. -/
inductive ScheduleMode
  | reactive
  | periodic (cron : String)
  | proactive (conditions : List String)
  | continuous (checkIntervalSecs : ℕ)

/-- What the subsystems read of an `AgentManifest`, beside what the registry and the grants do. -/
structure Settings where
  schedule : ScheduleMode := .reactive
  provider : String := ""
  model : String := ""
  apiKeyEnv : Option String := none
  baseUrl : Option String := none
  maxLlmTokensPerHour : ℕ := 1000000
  workspace : Option String := none
  execPolicy : Option SubprocessSandbox.ExecPolicy := none

/-- What a spawn reads of `KernelConfig`, with `str::to_lowercase` and the display of ids. -/
structure KernelConfig where
  execPolicy : SubprocessSandbox.ExecPolicy
  defaultProvider : String
  defaultModel : String
  workspaceDir : String → AgentId → String
  toLowercase : String → String
  showId : AgentId → String

/-- The default model overlaid on settings without a key and a URL of their own. -/
def KernelConfig.overlay (cfg : KernelConfig) (settings : Settings) : Settings :=
  if settings.apiKeyEnv.isNone && settings.baseUrl.isNone then
    { settings with
      provider := if cfg.defaultProvider = "" then settings.provider else cfg.defaultProvider
      model := if cfg.defaultModel = "" then settings.model else cfg.defaultModel }
  else settings

/-- The settings that an agent is spawned with. -/
def KernelConfig.prepare (cfg : KernelConfig) (name : String) (id : AgentId)
    (settings : Settings) : Settings :=
  { cfg.overlay settings with
    execPolicy := some (settings.execPolicy.getD cfg.execPolicy)
    workspace := some (settings.workspace.getD (cfg.workspaceDir name id)) }

/-- `UsageTracker`, without the start of its window. -/
structure UsageTracker where
  totalTokens : ℕ := 0
  toolCalls : ℕ := 0

/-- `CronJob`. -/
structure CronJob where
  id : ℕ
  agentId : AgentId
  name : String
  enabled : Bool := true

/-- A row of `kv_store`. -/
structure KvRow where
  agentId : AgentId
  key : String
  value : String

/-- A row of `memories`. -/
structure MemoryRow where
  agentId : AgentId
  content : String

/-- The kernel and its subsystems.  `settings` and `savedSettings` belong to the entries of the
registry and to the rows of the store; `inFlight` are the turns that have loaded their session. -/
structure System where
  kernel : Kernel := {}
  settings : List (AgentId × Settings) := []
  savedSettings : List (AgentId × Settings) := []
  quotas : List (AgentId × ℕ) := []
  usage : List (AgentId × UsageTracker) := []
  triggers : TriggerEngine := {}
  jobs : List CronJob := []
  background : List AgentId := []
  runningTasks : List AgentId := []
  canonical : List (AgentId × CanonicalSession) := []
  kv : List KvRow := []
  memories : List MemoryRow := []
  inFlight : List (AgentId × SessionId) := []

namespace System

/-- The settings of a registered agent. -/
def settingsOf (s : System) (id : AgentId) : Settings :=
  ((Table.lookup Prod.fst id s.settings).map Prod.snd).getD {}

/-! ### Spawn -/

/-- What the steps of a spawn that can fail return: `create_session`, `ensure_workspace`,
`save_agent`. -/
structure SpawnIo where
  createSession : Except RustyHandError Unit := .ok ()
  workspace : Except String Unit := .ok ()
  saveAgent : Except RustyHandError Unit := .ok ()

/-- The prompt of a trigger for a condition of a proactive agent. -/
def alertPrompt (condition name : String) : String :=
  "[PROACTIVE ALERT] Condition '" ++ condition ++ "' matched: \x7b\x7bevent\x7d\x7d. " ++
    "Review and take appropriate action. Agent: " ++ name

/-- The patterns and prompts that a schedule asks for. -/
def proactive (cfg : KernelConfig) (name : String) : ScheduleMode → List (TriggerPattern × String)
  | .proactive conditions => conditions.filterMap fun condition =>
      (parseCondition cfg.toLowercase condition).map fun pattern =>
        (pattern, alertPrompt condition name)
  | _ => []

/-- The triggers of a proactive agent registered. -/
def registerProactive (cfg : KernelConfig) (name : String) (id : AgentId)
    (schedule : ScheduleMode) (e : TriggerEngine) : TriggerEngine :=
  (proactive cfg name schedule).foldl (fun e p => e.register id p.1 p.2 0) e

/-- `describe_event`, for a spawn. -/
def describeSpawned (cfg : KernelConfig) (name : String) (id : AgentId) : String :=
  "Agent '" ++ name ++ "' (id: " ++ cfg.showId id ++ ") was spawned"

/-- The system after the ids of an agent and of a session have been drawn. -/
def drew (s : System) : System :=
  { s with kernel := { s.kernel with nextId := s.kernel.nextId + 2 } }

/-- After `create_session`. -/
def withSession (s : System) (sessionId : SessionId) (id : AgentId) : System :=
  { s with kernel := { s.kernel with memory := s.kernel.memory.createSession sessionId id none } }

/-- After the capabilities are granted and the scheduler knows the agent. -/
def withGrants (s : System) (id : AgentId) (manifest : AgentManifest) (settings : Settings) :
    System :=
  { s with
    kernel := { s.kernel with
      capabilities := s.kernel.capabilities.grant id manifest.toCapabilities }
    quotas := Table.upsert Prod.fst (id, settings.maxLlmTokensPerHour) s.quotas
    usage := Table.upsert Prod.fst (id, {}) s.usage }

/-- After the agent is in the registry, and among the children of its parent. -/
def withEntry (s : System) (registry : AgentRegistry) (parent : Option AgentId) (id : AgentId)
    (settings : Settings) : System :=
  { s with
    kernel := { s.kernel with
      registry := match parent with
        | none => registry
        | some parentId => registry.addChild parentId id }
    settings := Table.upsert Prod.fst (id, settings) s.settings }

/-- After `save_agent`. -/
def withRow (s : System) (entry : AgentEntry) (settings : Settings) : System :=
  { s with
    kernel := { s.kernel with memory := s.kernel.memory.saveAgent entry }
    savedSettings := Table.upsert Prod.fst (entry.id, settings) s.savedSettings }

/-- After the triggers of a proactive agent are registered and the event is evaluated. -/
def announced (cfg : KernelConfig) (s : System) (name : String) (id : AgentId)
    (schedule : ScheduleMode) : System :=
  { s with
    triggers := (registerProactive cfg name id schedule s.triggers).evaluateSpawned
      cfg.toLowercase name (describeSpawned cfg name id) }

/-- The entry that a spawn makes. -/
def spawnedEntry (id : AgentId) (sessionId : SessionId) (manifest : AgentManifest)
    (parent : Option AgentId) : AgentEntry :=
  { id := id, name := manifest.name, manifest := manifest, state := .running
    mode := AgentMode.default, parent := parent, children := [], sessionId := sessionId }

/-- `spawn_agent_with_parent`. -/
def spawnAgentWithParent (cfg : KernelConfig) (s : System) (manifest : AgentManifest)
    (settings : Settings) (parent : Option AgentId) (io : SpawnIo) :
    Except RustyHandError AgentId × System :=
  let agentId := s.kernel.nextId
  let sessionId := s.kernel.nextId + 1
  let s := s.drew
  match io.createSession with
  | .error e => (.error e, s)
  | .ok () =>
    let s := s.withSession sessionId agentId
    -- no error from here on takes back what the steps before it have done
    match normalizeAgentGroup manifest.group with
    | .error message => (.error (.invalidInput message), s)
    | .ok group =>
      let manifest := { manifest with group := group }
      let settings := cfg.prepare manifest.name agentId settings
      match io.workspace with
      | .error message => (.error (.internal message), s)
      | .ok () =>
        let s := s.withGrants agentId manifest settings
        let entry := spawnedEntry agentId sessionId manifest parent
        match s.kernel.registry.register entry with
        | .error e => (.error e, s)
        | .ok registry =>
          let s := s.withEntry registry parent agentId settings
          match io.saveAgent with
          | .error e => (.error e, s)
          | .ok () =>
            let s := s.withRow entry settings
            (.ok agentId, s.announced cfg manifest.name agentId settings.schedule)

/-! ### Kill and restart -/

/-- The steps of `kill_agent`, in the order of the calls. -/
inductive KillStep
  | removeEntry
  | stopBackground
  | unregister
  | revokeAll
  | removeTriggers
  | abortTask
  | deleteSessions
  | deleteKv
  | deleteMemories
  | deleteRow
  deriving DecidableEq

/-- What a step does. -/
def KillStep.apply (agentId : AgentId) (s : System) : KillStep → System
  | removeEntry =>
    match s.kernel.registry.remove agentId with
    | .error _ => s
    | .ok (_, registry) =>
      { s with kernel := { s.kernel with registry := registry }
               settings := Table.erase Prod.fst agentId s.settings }
  | stopBackground => { s with background := s.background.filter (· ≠ agentId) }
  | unregister =>
    { s with quotas := Table.erase Prod.fst agentId s.quotas
             usage := Table.erase Prod.fst agentId s.usage }
  | revokeAll =>
    { s with kernel := { s.kernel with capabilities := s.kernel.capabilities.revokeAll agentId } }
  | removeTriggers => { s with triggers := s.triggers.removeAgentTriggers agentId }
  | abortTask => { s with runningTasks := s.runningTasks.filter (· ≠ agentId) }
  | deleteSessions =>
    { s with kernel := { s.kernel with memory := s.kernel.memory.deleteAgentSessions agentId } }
  | deleteKv => { s with kv := s.kv.filter fun row => row.agentId ≠ agentId }
  | deleteMemories => { s with memories := s.memories.filter fun row => row.agentId ≠ agentId }
  | deleteRow =>
    { s with
      kernel := { s.kernel with memory :=
        { s.kernel.memory with agents := Table.erase AgentRow.id agentId s.kernel.memory.agents } }
      savedSettings := Table.erase Prod.fst agentId s.savedSettings }

/-- The steps that stop what runs. -/
def stopSteps : List KillStep :=
  [.removeEntry, .stopBackground, .unregister, .revokeAll, .removeTriggers, .abortTask]

/-- The steps of `remove_agent` of the store. -/
def deleteSteps : List KillStep := [.deleteSessions, .deleteKv, .deleteMemories, .deleteRow]

/-- All steps of `kill_agent`. -/
def killSteps : List KillStep := stopSteps ++ deleteSteps

/-- `kill_agent`. -/
def killAgent (s : System) (agentId : AgentId) : Except RustyHandError Unit × System :=
  match s.kernel.registry.remove agentId with
  | .error e => (.error e, s)
  | .ok _ => (.ok (), killSteps.foldl (KillStep.apply agentId) s)

/-- `reassign_agent`, for one job. -/
def reassign (oldId newId : AgentId) (job : CronJob) : CronJob :=
  if job.agentId = oldId then { job with agentId := newId } else job

/-- The restart counts with one more for an agent (`record_agent_restart`). -/
def recordRestart (s : System) (agentId : AgentId) (count : ℕ) : System :=
  { s with
    kernel := { s.kernel with
      agentRestarts := Table.upsert Prod.fst (agentId, count) s.kernel.agentRestarts } }

/-- The count and the jobs of an agent handed on (`carry_agent_restarts`, `reassign_agent`). -/
def handedOn (s : System) (oldId newId : AgentId) (count : ℕ) : System :=
  { s with
    kernel := { s.kernel with
      agentRestarts := Table.upsert Prod.fst (newId, count)
        (Table.erase Prod.fst oldId s.kernel.agentRestarts) }
    jobs := s.jobs.map (reassign oldId newId) }

/-- `restart_agent`. -/
def restartAgent (cfg : KernelConfig) (s : System) (agentId : AgentId) (io : SpawnIo) :
    Except RustyHandError (AgentId × AgentId) × System :=
  match s.kernel.registry.remove agentId with
  | .error e => (.error e, s)
  | .ok (entry, _) =>
    let settings := s.settingsOf agentId
    let maxRestarts := entry.manifest.maxRestarts.getD 0
    let count := s.kernel.agentRestartCount agentId + 1
    let s := (stopSteps.foldl (KillStep.apply agentId) s).recordRestart agentId count
    if 0 < maxRestarts ∧ maxRestarts < count then
      (.error (.internal ("Agent '" ++ entry.name ++ "' exceeded its max restart limit (" ++
        toString count ++ " > " ++ toString maxRestarts ++ ") and was permanently stopped")), s)
    else
      -- the parent is not passed on, and a spawn that fails leaves the agent stopped
      match s.spawnAgentWithParent cfg entry.manifest settings none io with
      | (.error e, s) => (.error e, s)
      | (.ok newId, s) => (.ok (agentId, newId), s.handedOn agentId newId count)

/-! ### Turns and the rest -/

/-- What a turn writes while it is in flight: its session, the canonical session of its agent (what
it appended, or a summary), a memory, a delivery record, a job, the tokens it used, the state of its
agent. -/
inductive TurnWrite
  | saveSession (messages : List Message)
  | saveCanonical (c : CanonicalSession)
  | remember (content : String)
  | setKv (key value : String)
  | addJob (name : String)
  | recordUsage (tokens toolCalls : ℕ)
  | setState (state : AgentState)

/-- A write of a turn of the agent on the session. -/
def TurnWrite.apply (agentId : AgentId) (sessionId : SessionId) (s : System) : TurnWrite → System
  | saveSession messages =>
    let session : Session := { id := sessionId, agentId := agentId, messages := messages }
    { s with kernel := { s.kernel with memory := s.kernel.memory.saveSession session } }
  | saveCanonical c => { s with canonical := Table.upsert Prod.fst (agentId, c) s.canonical }
  | remember content => { s with memories := s.memories ++ [⟨agentId, content⟩] }
  | setKv key value =>
    let row : KvRow := ⟨agentId, key, value⟩
    { s with kv := Table.upsert (fun row : KvRow => (row.agentId, row.key)) row s.kv }
  | addJob name =>
    { s with
      jobs := s.jobs ++ [{ id := s.kernel.nextId, agentId := agentId, name := name }]
      kernel := { s.kernel with nextId := s.kernel.nextId + 1 } }
  | recordUsage tokens toolCalls =>
    let record := fun row : AgentId × UsageTracker =>
      (row.1, (⟨row.2.totalTokens + tokens, row.2.toolCalls + toolCalls⟩ : UsageTracker))
    { s with usage := Table.modify Prod.fst agentId record s.usage }
  | setState state =>
    match s.kernel.registry.setState agentId state with
    | .error _ => s
    | .ok registry => { s with kernel := { s.kernel with registry := registry } }

/-- `start_background_for_agent`. -/
def startBackground (cfg : KernelConfig) (s : System) (entry : AgentEntry) : System :=
  let schedule := (s.settingsOf entry.id).schedule
  { s with
    triggers := registerProactive cfg entry.name entry.id schedule s.triggers
    background := match schedule with
      | .continuous _ => s.background ++ [entry.id]
      | .periodic _ => s.background ++ [entry.id]
      | _ => s.background }

/-- The end of the process and a boot on the same data directory; `jobs` is what the file of the
cron jobs holds. -/
def reboot (cfg : KernelConfig) (clean : Bool) (jobs : List CronJob) (s : System) : System :=
  let kernel := s.kernel.reboot cfg.toLowercase clean
  -- `shutdown` saves every agent; after a crash the last saved rows count
  let saved := if clean then
      s.kernel.registry.agents.foldl (fun rows entry =>
        Table.upsert Prod.fst (entry.id, s.settingsOf entry.id) rows) s.savedSettings
    else s.savedSettings
  let restored := kernel.registry.agents.map fun entry =>
    let settings := ((Table.lookup Prod.fst entry.id saved).map Prod.snd).getD {}
    (entry.id, { settings with execPolicy := some (settings.execPolicy.getD cfg.execPolicy) })
  { kernel := kernel
    settings := restored
    savedSettings := saved
    quotas := restored.map fun row => (row.1, row.2.maxLlmTokensPerHour)
    usage := restored.map fun row => (row.1, {})
    triggers := s.triggers
    jobs := jobs
    canonical := s.canonical
    kv := s.kv
    memories := s.memories }

/-- An operation of the system. -/
inductive Op
  | spawnAgentWithParent (manifest : AgentManifest) (settings : Settings)
      (parent : Option AgentId) (io : SpawnIo)
  | killAgent (agentId : AgentId)
  | restartAgent (agentId : AgentId) (io : SpawnIo)
  | resetSession (agentId : AgentId)
  | createAgentSession (agentId : AgentId) (label : Option String)
  | switchAgentSession (agentId : AgentId) (sessionId : SessionId)
  | setMode (agentId : AgentId) (mode : AgentMode)
  | setModel (agentId : AgentId) (provider model : String)
  | registerTrigger (agentId : AgentId) (pattern : TriggerPattern) (prompt : String)
      (maxFires : ℕ)
  | removeTrigger (id : TriggerId)
  | addJob (agentId : AgentId) (name : String)
  | removeJob (id : ℕ)
  | startBackgroundAgents
  | beginTurn (agentId : AgentId)
  | turnWrite (agentId : AgentId) (sessionId : SessionId) (w : TurnWrite)
  | endTurn (agentId : AgentId) (sessionId : SessionId)
  | reboot (clean : Bool) (jobs : List CronJob)

/-- The system after an operation.  A trigger or a job is made for a registered agent, a turn writes
only while it is in flight, and the file of the jobs names agents that have been drawn. -/
def apply (cfg : KernelConfig) (s : System) : Op → System
  | .spawnAgentWithParent manifest settings parent io =>
    (s.spawnAgentWithParent cfg manifest settings parent io).2
  | .killAgent agentId => (s.killAgent agentId).2
  | .restartAgent agentId io => (s.restartAgent cfg agentId io).2
  | .resetSession agentId => { s with kernel := (s.kernel.resetSession agentId).2 }
  | .createAgentSession agentId label =>
    { s with kernel := (s.kernel.createAgentSession agentId label).2 }
  | .switchAgentSession agentId sessionId =>
    { s with kernel := (s.kernel.switchAgentSession agentId sessionId).2 }
  | .setMode agentId mode => { s with kernel := (s.kernel.setMode agentId mode).2 }
  | .setModel agentId provider model =>
    let change := fun row : AgentId × Settings =>
      (row.1, { row.2 with provider := provider, model := model })
    { s with settings := Table.modify Prod.fst agentId change s.settings
             savedSettings := Table.modify Prod.fst agentId change s.savedSettings }
  | .registerTrigger agentId pattern prompt maxFires =>
    if (s.kernel.registry.get agentId).isSome then
      { s with triggers := s.triggers.register agentId pattern prompt maxFires }
    else s
  | .removeTrigger id => { s with triggers := s.triggers.remove id }
  | .addJob agentId name =>
    if (s.kernel.registry.get agentId).isSome then (TurnWrite.addJob name).apply agentId 0 s else s
  | .removeJob id => { s with jobs := s.jobs.filter fun job => job.id ≠ id }
  | .startBackgroundAgents => s.kernel.registry.agents.foldl (startBackground cfg) s
  | .beginTurn agentId =>
    match s.kernel.registry.get agentId with
    | none => s
    -- the turn stays with the session that is current now, whatever becomes of its agent
    | some entry => { s with inFlight := s.inFlight ++ [(agentId, entry.sessionId)] }
  | .turnWrite agentId sessionId w =>
    if (agentId, sessionId) ∈ s.inFlight then w.apply agentId sessionId s else s
  | .endTurn agentId sessionId => { s with inFlight := s.inFlight.erase (agentId, sessionId) }
  | .reboot clean jobs =>
    s.reboot cfg clean (jobs.filter fun job => job.agentId < s.kernel.nextId)

/-- The system after some operations, from the first boot on an empty data directory. -/
def run (cfg : KernelConfig) (ops : List Op) : System := ops.foldl (apply cfg) {}

/-- A configuration without defaults. -/
def plainConfig : KernelConfig :=
  { execPolicy := ⟨.deny, [], []⟩, defaultProvider := "", defaultModel := ""
    workspaceDir := fun name _ => name, toLowercase := fun s => s, showId := fun _ => "" }

/-- One agent with the name `"a"`. -/
def spawnOne : Op := .spawnAgentWithParent { name := "a" } {} none {}

/-! ### The kernel in the system -/

/-- With a database that does not fail, a spawn does to the kernel what `Kernel` says. -/
theorem kernel_spawnAgentWithParent {cfg : KernelConfig} {s : System} {manifest : AgentManifest}
    {settings : Settings} {parent : Option AgentId} {io : SpawnIo}
    (hcreate : io.createSession = .ok ()) (hsave : io.saveAgent = .ok ()) :
    s.kernel.spawnAgentWithParent manifest parent io.workspace =
      ((s.spawnAgentWithParent cfg manifest settings parent io).1,
        (s.spawnAgentWithParent cfg manifest settings parent io).2.kernel) := by
  unfold spawnAgentWithParent Kernel.spawnAgentWithParent
  rw [hcreate, hsave]
  dsimp only
  cases normalizeAgentGroup manifest.group with
  | error message => rfl
  | ok group =>
    dsimp only
    cases io.workspace with
    | error message => rfl
    | ok _ =>
      simp only [withGrants, withSession, drew, spawnedEntry]
      generalize s.kernel.registry.register _ = registered
      cases registered with
      | error e => rfl
      | ok registry => rfl

theorem kernel_killAgent (s : System) (agentId : AgentId) :
    s.kernel.killAgent agentId = ((s.killAgent agentId).1, (s.killAgent agentId).2.kernel) := by
  unfold killAgent Kernel.killAgent
  cases hremove : s.kernel.registry.remove agentId with
  | error e => rfl
  | ok removed =>
    simp [killSteps, stopSteps, deleteSteps, KillStep.apply, hremove, MemorySubstrate.removeAgent]

theorem kernel_stopSteps {s : System} {agentId : AgentId} {entry : AgentEntry}
    {registry : AgentRegistry}
    (hremove : s.kernel.registry.remove agentId = .ok (entry, registry)) :
    (stopSteps.foldl (KillStep.apply agentId) s).kernel =
      { s.kernel with registry := registry
                      capabilities := s.kernel.capabilities.revokeAll agentId } := by
  simp [stopSteps, KillStep.apply, hremove]

theorem kernel_restartAgent {cfg : KernelConfig} {s : System} {agentId : AgentId} {io : SpawnIo}
    (hcreate : io.createSession = .ok ()) (hsave : io.saveAgent = .ok ()) :
    s.kernel.restartAgent agentId io.workspace =
      ((s.restartAgent cfg agentId io).1, (s.restartAgent cfg agentId io).2.kernel) := by
  unfold restartAgent Kernel.restartAgent
  cases hremove : s.kernel.registry.remove agentId with
  | error e => rfl
  | ok removed =>
    obtain ⟨entry, registry⟩ := removed
    have hkernel := kernel_stopSteps hremove
    dsimp only
    generalize hstopped : (stopSteps.foldl (KillStep.apply agentId) s).recordRestart agentId
      (s.kernel.agentRestartCount agentId + 1) = stopped
    have hk : { s.kernel with
        registry := registry
        capabilities := s.kernel.capabilities.revokeAll agentId
        agentRestarts := Table.upsert Prod.fst
          (agentId, s.kernel.agentRestartCount agentId + 1) s.kernel.agentRestarts } =
        stopped.kernel := by
      rw [← hstopped]
      simp only [recordRestart, hkernel]
    rw [hk]
    split_ifs with hmax
    · rfl
    · rw [Kernel.spawnAgent, kernel_spawnAgentWithParent hcreate hsave]
      rcases stopped.spawnAgentWithParent cfg entry.manifest (s.settingsOf agentId) none io with
        ⟨r, s'⟩
      cases r with
      | error e => rfl
      | ok newId => rfl

/-! ### What a spawn leaves -/

/-- The system with the session of the next agent. -/
def opened (s : System) : System := s.drew.withSession (s.kernel.nextId + 1) s.kernel.nextId

/-- The system with the grants of the next agent. -/
def granted (cfg : KernelConfig) (s : System) (manifest : AgentManifest) (settings : Settings) :
    System :=
  s.opened.withGrants s.kernel.nextId manifest
    (cfg.prepare manifest.name s.kernel.nextId settings)

/-- The system with the next agent registered. -/
def entered (cfg : KernelConfig) (s : System) (manifest : AgentManifest) (settings : Settings)
    (registry : AgentRegistry) (parent : Option AgentId) : System :=
  (s.granted cfg manifest settings).withEntry registry parent s.kernel.nextId
    (cfg.prepare manifest.name s.kernel.nextId settings)

/-- The system with the next agent spawned. -/
def spawned (cfg : KernelConfig) (s : System) (manifest : AgentManifest) (settings : Settings)
    (registry : AgentRegistry) (parent : Option AgentId) : System :=
  ((s.entered cfg manifest settings registry parent).withRow
      (spawnedEntry s.kernel.nextId (s.kernel.nextId + 1) manifest parent)
      (cfg.prepare manifest.name s.kernel.nextId settings)).announced cfg manifest.name
    s.kernel.nextId (cfg.prepare manifest.name s.kernel.nextId settings).schedule

/-- The steps that a spawn has done when it fails or succeeds. -/
theorem spawnAgentWithParent_cases {cfg : KernelConfig} {s s' : System} {manifest : AgentManifest}
    {settings : Settings} {parent : Option AgentId} {io : SpawnIo}
    {r : Except RustyHandError AgentId}
    (hrun : s.spawnAgentWithParent cfg manifest settings parent io = (r, s')) :
    (∃ e, io.createSession = .error e ∧ r = .error e ∧ s' = s.drew) ∨
    (io.createSession = .ok () ∧ (∃ e, r = .error e) ∧ s' = s.opened ∧
      ((∃ message, normalizeAgentGroup manifest.group = .error message) ∨
        ∃ message, io.workspace = .error message)) ∨
    ∃ group, io.createSession = .ok () ∧ normalizeAgentGroup manifest.group = .ok group ∧
      io.workspace = .ok () ∧
      ((∃ e, s.kernel.registry.register (spawnedEntry s.kernel.nextId (s.kernel.nextId + 1)
            { manifest with group := group } parent) = .error e ∧ r = .error e ∧
          s' = s.granted cfg { manifest with group := group } settings) ∨
        ∃ registry, s.kernel.registry.register (spawnedEntry s.kernel.nextId
            (s.kernel.nextId + 1) { manifest with group := group } parent) = .ok registry ∧
          ((∃ e, io.saveAgent = .error e ∧ r = .error e ∧
              s' = s.entered cfg { manifest with group := group } settings registry parent) ∨
            (io.saveAgent = .ok () ∧ r = .ok s.kernel.nextId ∧
              s' = s.spawned cfg { manifest with group := group } settings registry parent))) := by
  unfold spawnAgentWithParent at hrun
  cases hcreate : io.createSession with
  | error e =>
    rw [hcreate] at hrun
    cases hrun
    exact Or.inl ⟨e, rfl, rfl, rfl⟩
  | ok _ =>
    refine Or.inr ?_
    rw [hcreate] at hrun
    dsimp only at hrun
    cases hgroup : normalizeAgentGroup manifest.group with
    | error message =>
      rw [hgroup] at hrun
      cases hrun
      exact Or.inl ⟨rfl, ⟨_, rfl⟩, rfl, Or.inl ⟨message, rfl⟩⟩
    | ok group =>
      rw [hgroup] at hrun
      dsimp only at hrun
      cases hworkspace : io.workspace with
      | error message =>
        rw [hworkspace] at hrun
        cases hrun
        exact Or.inl ⟨rfl, ⟨_, rfl⟩, rfl, Or.inr ⟨message, rfl⟩⟩
      | ok _ =>
        refine Or.inr ⟨group, rfl, rfl, rfl, ?_⟩
        rw [hworkspace] at hrun
        simp only [withGrants, withSession, drew] at hrun
        cases hregister : s.kernel.registry.register (spawnedEntry s.kernel.nextId
            (s.kernel.nextId + 1) { manifest with group := group } parent) with
        | error e =>
          rw [hregister] at hrun
          cases hrun
          exact Or.inl ⟨e, rfl, rfl, rfl⟩
        | ok registry =>
          rw [hregister] at hrun
          refine Or.inr ⟨registry, rfl, ?_⟩
          cases hsave : io.saveAgent with
          | error e =>
            rw [hsave] at hrun
            cases hrun
            exact Or.inl ⟨e, rfl, rfl, rfl⟩
          | ok _ =>
            rw [hsave] at hrun
            cases hrun
            exact Or.inr ⟨rfl, rfl, rfl⟩

end System
end RustyHand
