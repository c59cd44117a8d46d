import RustyHand.Kernel.Registry
import RustyHand.Memory.Store

/-!
# The kernel

`rusty-hand-kernel/src/kernel.rs`: the operations on agents and on their current sessions, shutdown
and boot.  An operation returns its result and the kernel it leaves, also when it fails.

The ids that `AgentId::new` and `SessionId::new` draw are the values of a counter.
-/

namespace RustyHand

/-- The state of the kernel: what is in memory, the store, and the next id to be drawn. -/
structure Kernel where
  registry : AgentRegistry := {}
  capabilities : CapabilityManager := {}
  agentRestarts : List (AgentId × ℕ) := []
  memory : MemorySubstrate := {}
  nextId : ℕ := 0

namespace Kernel

/-! ### The operations -/

/-- `spawn_agent_with_parent`; `workspace` is what `ensure_workspace` returned, with the text of its
error. -/
def spawnAgentWithParent (k : Kernel) (manifest : AgentManifest) (parent : Option AgentId)
    (workspace : Except String Unit) : Except RustyHandError AgentId × Kernel :=
  let agentId := k.nextId
  let sessionId := k.nextId + 1
  let k := { k with memory := k.memory.createSession sessionId agentId none
                    nextId := k.nextId + 2 }
  match normalizeAgentGroup manifest.group with
  | .error message => (.error (.invalidInput message), k)
  | .ok group =>
    let manifest := { manifest with group := group }
    match workspace with
    | .error message => (.error (.internal message), k)
    | .ok () =>
      let k := { k with
        capabilities := k.capabilities.grant agentId manifest.toCapabilities }
      let entry : AgentEntry :=
        { id := agentId, name := manifest.name, manifest := manifest, state := .running
          mode := AgentMode.default, parent := parent, children := [], sessionId := sessionId }
      match k.registry.register entry with
      | .error e => (.error e, k)
      | .ok registry =>
        let registry := match parent with
          | none => registry
          | some parentId => registry.addChild parentId agentId
        (.ok agentId, { k with registry := registry, memory := k.memory.saveAgent entry })

/-- `spawn_agent`. -/
def spawnAgent (k : Kernel) (manifest : AgentManifest) (workspace : Except String Unit) :
    Except RustyHandError AgentId × Kernel :=
  k.spawnAgentWithParent manifest none workspace

/-- `kill_agent`. -/
def killAgent (k : Kernel) (agentId : AgentId) : Except RustyHandError Unit × Kernel :=
  match k.registry.remove agentId with
  | .error e => (.error e, k)
  | .ok (_, registry) =>
    (.ok (), { k with registry := registry
                      capabilities := k.capabilities.revokeAll agentId
                      memory := k.memory.removeAgent agentId })

/-- `agent_restart_count`. -/
def agentRestartCount (k : Kernel) (agentId : AgentId) : ℕ :=
  ((Table.lookup Prod.fst agentId k.agentRestarts).map Prod.snd).getD 0

/-- `restart_agent`: the old row and the old sessions stay in the store. -/
def restartAgent (k : Kernel) (agentId : AgentId) (workspace : Except String Unit) :
    Except RustyHandError (AgentId × AgentId) × Kernel :=
  match k.registry.remove agentId with
  | .error e => (.error e, k)
  | .ok (entry, registry) =>
    let maxRestarts := entry.manifest.maxRestarts.getD 0
    let count := k.agentRestartCount agentId + 1
    let k := { k with registry := registry
                      capabilities := k.capabilities.revokeAll agentId
                      agentRestarts := Table.upsert Prod.fst (agentId, count) k.agentRestarts }
    if 0 < maxRestarts ∧ maxRestarts < count then
      (.error (.internal ("Agent '" ++ entry.name ++ "' exceeded its max restart limit (" ++
        toString count ++ " > " ++ toString maxRestarts ++ ") and was permanently stopped")), k)
    else
      match k.spawnAgent entry.manifest workspace with
      | (.error e, k) => (.error e, k)
      | (.ok newId, k) =>
        let carried := Table.erase Prod.fst agentId k.agentRestarts
        (.ok (agentId, newId),
          { k with agentRestarts := Table.upsert Prod.fst (newId, count) carried })

/-- `reset_session`: the new session is the current one in the registry only. -/
def resetSession (k : Kernel) (agentId : AgentId) : Except RustyHandError Unit × Kernel :=
  match k.registry.get agentId with
  | none => (.error (.agentNotFound agentId), k)
  | some entry =>
    let sessionId := k.nextId
    let memory := (k.memory.deleteSession entry.sessionId).createSession sessionId agentId none
    let k := { k with memory := memory, nextId := k.nextId + 1 }
    match k.registry.updateSessionId agentId sessionId with
    | .error e => (.error e, k)
    | .ok registry => (.ok (), { k with registry := registry })

/-- `create_agent_session`. -/
def createAgentSession (k : Kernel) (agentId : AgentId) (label : Option String) :
    Except RustyHandError SessionId × Kernel :=
  match k.registry.get agentId with
  | none => (.error (.agentNotFound agentId), k)
  | some _ =>
    let sessionId := k.nextId
    let k := { k with memory := k.memory.createSession sessionId agentId label
                      nextId := k.nextId + 1 }
    match k.registry.updateSessionId agentId sessionId with
    | .error e => (.error e, k)
    | .ok registry => (.ok sessionId, { k with registry := registry })

/-- `switch_agent_session`. -/
def switchAgentSession (k : Kernel) (agentId : AgentId) (sessionId : SessionId) :
    Except RustyHandError Unit × Kernel :=
  match k.registry.get agentId with
  | none => (.error (.agentNotFound agentId), k)
  | some _ =>
    match k.memory.getSession sessionId with
    | none => (.error (.internal "Session not found"), k)
    | some session =>
      if session.agentId ≠ agentId then
        (.error (.internal "Session belongs to a different agent"), k)
      else
        match k.registry.updateSessionId agentId sessionId with
        | .error e => (.error e, k)
        | .ok registry => (.ok (), { k with registry := registry })

/-- The mode endpoint: `set_mode` of the registry. -/
def setMode (k : Kernel) (agentId : AgentId) (mode : AgentMode) :
    Except RustyHandError Unit × Kernel :=
  match k.registry.setMode agentId mode with
  | .error e => (.error e, k)
  | .ok registry => (.ok (), { k with registry := registry })

/-- One round of the loop of `shutdown` that suspends and saves the agents. -/
def suspendAgent (k : Kernel) (entry : AgentEntry) : Kernel :=
  let k := match k.registry.setState entry.id .suspended with
    | .error _ => k
    | .ok registry => { k with registry := registry }
  match k.registry.get entry.id with
  | none => k
  | some updated => { k with memory := k.memory.saveAgent updated }

/-- `shutdown`. -/
def shutdown (k : Kernel) : Kernel := k.registry.agents.foldl suspendAgent k

/-- One round of the loop of `boot_with_config` that restores the stored agents. -/
def restoreAgent (k : Kernel) (entry : AgentEntry) : Kernel :=
  let k := { k with
    capabilities := k.capabilities.grant entry.id entry.manifest.toCapabilities }
  match k.registry.register { entry with state := .running } with
  | .error _ => k
  | .ok registry => { k with registry := registry }

/-- `boot_with_config` on the store: nothing else outlives the process. -/
def boot (lower : String → String) (memory : MemorySubstrate) (nextId : ℕ) : Kernel :=
  (memory.loadAllAgents lower).foldl restoreAgent { memory := memory, nextId := nextId }

/-! ### Runs -/

/-- An operation on agents and their current sessions. -/
inductive Op
  | spawnAgentWithParent (manifest : AgentManifest) (parent : Option AgentId)
      (workspace : Except String Unit)
  | killAgent (agentId : AgentId)
  | restartAgent (agentId : AgentId) (workspace : Except String Unit)
  | resetSession (agentId : AgentId)
  | createAgentSession (agentId : AgentId) (label : Option String)
  | switchAgentSession (agentId : AgentId) (sessionId : SessionId)
  | setMode (agentId : AgentId) (mode : AgentMode)

/-- Does the operation set the current session of an agent? -/
def Op.switches (agentId : AgentId) : Op → Bool
  | .resetSession id | .createAgentSession id _ | .switchAgentSession id _ => id = agentId
  | _ => false

/-- Is the operation a restart? -/
def Op.isRestart : Op → Bool
  | .restartAgent _ _ => true
  | _ => false

/-- The kernel after an operation. -/
def apply (k : Kernel) : Op → Kernel
  | .spawnAgentWithParent manifest parent workspace =>
    (k.spawnAgentWithParent manifest parent workspace).2
  | .killAgent agentId => (k.killAgent agentId).2
  | .restartAgent agentId workspace => (k.restartAgent agentId workspace).2
  | .resetSession agentId => (k.resetSession agentId).2
  | .createAgentSession agentId label => (k.createAgentSession agentId label).2
  | .switchAgentSession agentId sessionId => (k.switchAgentSession agentId sessionId).2
  | .setMode agentId mode => (k.setMode agentId mode).2

/-- The end of the process, clean or by a crash, and a boot on the same data directory. -/
def reboot (lower : String → String) (clean : Bool) (k : Kernel) : Kernel :=
  let last := if clean then k.shutdown else k
  boot lower last.memory last.nextId

/-- A step of the life of a data directory. -/
inductive Step
  | op (op : Op)
  | reboot (clean : Bool)

/-- The kernel after a step. -/
def step (lower : String → String) (k : Kernel) : Step → Kernel
  | .op op => k.apply op
  | .reboot clean => k.reboot lower clean

/-- The kernel after some steps, from the first boot on an empty data directory. -/
def run (lower : String → String) (steps : List Step) : Kernel :=
  steps.foldl (step lower) (boot lower {} 0)

end Kernel
end RustyHand
