import RustyHand.Types.Capability

/-!
# Agents

`rusty-hand-types/src/agent.rs`: what the kernel uses of an agent's manifest and entry, and
`manifest_to_capabilities` of the kernel, which turns a manifest into grants.  Ids are UUIDs in the
source; here they are numbers that a counter of the kernel makes fresh.
-/

namespace RustyHand

/-- `AgentId`. -/
abbrev AgentId := ℕ

/-- `SessionId`. -/
abbrev SessionId := ℕ

/-- `AgentState`. -/
inductive AgentState
  | created
  | running
  | suspended
  | terminated
  | crashed
  deriving DecidableEq

/-- `AgentMode`. -/
inductive AgentMode
  | observe
  | assist
  | full
  deriving DecidableEq

namespace AgentMode

/-- `AgentMode::default()`. -/
def default : AgentMode := full

/-- May a tool of this name be called (`filter_tools`)? -/
def allowsTool : AgentMode → String → Bool
  | observe, _ => false
  | assist, tool => ["file_read", "file_list", "memory_recall", "web_fetch", "web_search",
      "agent_list"].contains tool
  | full, _ => true

end AgentMode

/-- `ManifestCapabilities`: the capability declarations of a manifest. -/
structure ManifestCapabilities where
  network : List String := []
  tools : List String := []
  memoryRead : List String := []
  memoryWrite : List String := []
  agentSpawn : Bool := false
  agentMessage : List String := []
  shell : List String := []
  ofpDiscover : Bool := false
  ofpConnect : List String := []
  deriving DecidableEq

/-- `ToolProfile`. -/
inductive ToolProfile
  | minimal
  | coding
  | research
  | messaging
  | automation
  | full
  | custom
  deriving DecidableEq

namespace ToolProfile

/-- `ToolProfile::tools`. -/
def tools : ToolProfile → List String
  | minimal => ["file_read", "file_list", "file_stat"]
  | coding => ["file_read", "file_write", "file_list", "file_stat", "file_delete", "file_move",
      "file_copy", "file_mkdir", "shell_exec", "web_fetch"]
  | research => ["web_fetch", "web_search", "file_read", "file_write"]
  | messaging => ["agent_send", "agent_list", "memory_store", "memory_recall"]
  | automation => ["file_read", "file_write", "file_list", "file_stat", "file_delete", "file_move",
      "file_copy", "file_mkdir", "shell_exec", "web_fetch", "web_search", "agent_send",
      "agent_list", "memory_store", "memory_recall"]
  | full | custom => ["*"]

/-- `t.starts_with(start)`. -/
def startsWith (t start : String) : Bool := start.toList.isPrefixOf t.toList

/-- `ToolProfile::implied_capabilities`. -/
def impliedCapabilities (profile : ToolProfile) : ManifestCapabilities :=
  let tools := profile.tools
  let hasNet := tools.any fun t => startsWith t "web_" || t = "*"
  let hasShell := tools.any fun t => t = "shell_exec" || t = "*"
  let hasAgent := tools.any fun t => startsWith t "agent_" || t = "*"
  let hasMemory := tools.any fun t => startsWith t "memory_" || t = "*"
  { tools := tools
    network := if hasNet then ["*"] else []
    shell := if hasShell then ["*"] else []
    agentSpawn := hasAgent
    agentMessage := if hasAgent then ["*"] else []
    memoryRead := if hasMemory then ["*"] else ["self.*"]
    memoryWrite := ["self.*"]
    ofpDiscover := false
    ofpConnect := [] }

end ToolProfile

/-- What the kernel model uses of `AgentManifest`; `maxRestarts` is in its `autonomous` part. -/
structure AgentManifest where
  name : String
  module : String := "builtin:chat"
  group : Option String := none
  profile : Option ToolProfile := none
  capabilities : ManifestCapabilities := {}
  maxRestarts : Option ℕ := none
  deriving DecidableEq

namespace AgentManifest

/-- The capabilities of a manifest after profile expansion: a profile counts when the manifest
names no tools, and what the manifest names besides goes before what the profile implies. -/
def effectiveCapabilities (manifest : AgentManifest) : ManifestCapabilities :=
  match manifest.profile with
  | none => manifest.capabilities
  | some profile =>
    let own := manifest.capabilities
    if own.tools.isEmpty then
      let merged := profile.impliedCapabilities
      let pick := fun (mine theirs : List String) => if mine.isEmpty then theirs else mine
      { tools := merged.tools
        network := pick own.network merged.network
        shell := pick own.shell merged.shell
        agentMessage := pick own.agentMessage merged.agentMessage
        agentSpawn := own.agentSpawn || merged.agentSpawn
        memoryRead := pick own.memoryRead merged.memoryRead
        memoryWrite := pick own.memoryWrite merged.memoryWrite
        ofpDiscover := own.ofpDiscover || merged.ofpDiscover
        ofpConnect := pick own.ofpConnect merged.ofpConnect }
    else own

/-- `manifest_to_capabilities`. -/
def toCapabilities (manifest : AgentManifest) : List Capability :=
  let caps := manifest.effectiveCapabilities
  caps.network.map .netConnect ++ caps.tools.map .toolInvoke ++ caps.memoryRead.map .memoryRead ++
    caps.memoryWrite.map .memoryWrite ++ (if caps.agentSpawn then [.agentSpawn] else []) ++
    caps.agentMessage.map .agentMessage ++ caps.shell.map .shellExec ++
    (if caps.ofpDiscover then [.ofpDiscover] else []) ++ caps.ofpConnect.map .ofpConnect

/-- Does the agent run as a WASM guest? -/
def isWasm (manifest : AgentManifest) : Bool := "wasm:".toList.isPrefixOf manifest.module.toList

/-- Does the agent run as a Python script? -/
def isPython (manifest : AgentManifest) : Bool :=
  "python:".toList.isPrefixOf manifest.module.toList

end AgentManifest

/-- `MAX_AGENT_GROUP_LEN`. -/
def maxAgentGroupLen : ℕ := 80

/-- `normalize_agent_group`, with the text of the error. -/
def normalizeAgentGroup : Option String → Except String (Option String)
  | none => .ok none
  | some group =>
    let trimmed := Text.trim group
    if trimmed.isEmpty then .ok none
    else if trimmed.toList.any Text.isControl then
      .error "Agent group cannot contain control characters"
    else if maxAgentGroupLen < trimmed.length then
      .error ("Agent group must be at most " ++ toString maxAgentGroupLen ++ " characters")
    else .ok (some trimmed)

theorem normalizeAgentGroup_idem {group normal : Option String}
    (h : normalizeAgentGroup group = .ok normal) : normalizeAgentGroup normal = .ok normal := by
  cases group with
  | none =>
    cases h
    rfl
  | some group =>
    simp only [normalizeAgentGroup] at h
    split_ifs at h with hempty hcontrol hlen
    · cases h
      rfl
    · cases h
      simp only [normalizeAgentGroup, Text.trim_trim]
      rw [if_neg hempty, if_neg hcontrol, if_neg hlen]

/-- What the kernel model uses of `AgentEntry`. -/
structure AgentEntry where
  id : AgentId
  name : String
  manifest : AgentManifest
  state : AgentState
  mode : AgentMode
  parent : Option AgentId
  children : List AgentId
  sessionId : SessionId
  deriving DecidableEq

end RustyHand
