import RustyHand.Kernel.Invariant
import RustyHand.Types.Capability

/-!
# The spawn tree

Agents start agents through the `agent_spawn` tool (`tool_runner.rs`) and, from WASM guests, through
the host function of that name (`host_functions.rs`).  The host function checks that the child asks
for no more than the guest has; the tool does not.  What the capabilities of a descendant have to do
with those of its ancestors is settled here over whole runs.
-/

namespace RustyHand

open Capability

/-! ### The tool and the host function -/

/-- The names of `builtin_tool_definitions`. -/
def builtinTools : List String :=
  ["file_read", "file_write", "file_list", "file_stat", "file_delete", "file_move", "file_copy",
    "file_mkdir", "apply_patch", "web_fetch", "web_search", "shell_exec", "agent_send",
    "agent_spawn", "agent_list", "agent_kill", "memory_store", "memory_recall", "skill_install",
    "doc_ingest", "doc_search", "self_history", "self_evaluate", "self_metrics", "self_update",
    "agent_find", "task_post", "task_claim", "task_complete", "task_list", "event_publish",
    "schedule_create", "schedule_list", "schedule_delete", "knowledge_add_entity",
    "knowledge_add_relation", "knowledge_query", "knowledge_delete_entity",
    "knowledge_delete_relation", "image_analyze", "location_get", "browser_navigate",
    "browser_snapshot", "browser_click", "browser_type", "browser_screenshot",
    "browser_read_page", "browser_close", "browser_wait", "browser_execute_script",
    "browser_scroll", "browser_download", "media_describe", "media_transcribe", "image_generate",
    "cron_create", "cron_list", "cron_cancel", "a2a_discover", "a2a_send", "text_to_speech",
    "speech_to_text", "docker_exec", "process_start", "process_poll", "process_write",
    "process_kill", "process_list", "canvas_present", "config_get", "config_set",
    "config_replace"]

/-- `MAX_AGENT_CALL_DEPTH`. -/
def maxAgentCallDepth : ℕ := 5

/-- `SUBAGENT_DENY_ALWAYS`. -/
def subagentDenyAlways : List String :=
  ["cron_create", "cron_cancel", "schedule_create", "schedule_delete", "process_start"]

/-- `SUBAGENT_DENY_LEAF`. -/
def subagentDenyLeaf : List String := ["agent_spawn", "agent_kill"]

/-- `filter_tools_by_depth`. -/
def filterToolsByDepth (tools : List String) (depth maxDepth : ℕ) : List String :=
  if depth = 0 then tools
  else
    let isLeaf := decide (0 < maxDepth) && decide (maxDepth - 1 ≤ depth)
    tools.filter fun name =>
      !subagentDenyAlways.contains name && !(isLeaf && subagentDenyLeaf.contains name)

/-- What a tool call depends on besides the kernel: the names of the tools of skills and MCP
servers that the agent may see, the depth of the call, and the answer of the approval gate where
the tool needs approval. -/
structure CallContext where
  extraTools : List String := []
  depth : ℕ := 0
  approval : Option Bool := none

/-- Why an agent was not spawned. -/
inductive SpawnError
  | notAnLlmAgent
  | notInAllowedList
  | restrictedAtDepth (depth : ℕ)
  | approvalDenied
  | notAWasmAgent
  | capabilityDenied (required : Capability)
  | escalationDenied (denied : EscalationDenied)
  | spawnFailed (e : RustyHandError)

namespace Kernel

/-- `available_tools`, by name. -/
def availableTools (k : Kernel) (agentId : AgentId) (extraTools : List String) : List String :=
  let toolProfile := (k.registry.get agentId).bind fun entry => entry.manifest.profile
  let builtins := match toolProfile with
    | some profile =>
      if profile ≠ .full ∧ profile ≠ .custom then
        builtinTools.filter fun tool => profile.tools.any fun a => a = "*" || a = tool
      else builtinTools
    | none => builtinTools
  let allTools := builtins ++ extraTools
  let caps := k.capabilities.list agentId
  if caps.any fun c => c = .toolAll then allTools
  else
    allTools.filter fun tool => caps.any fun c =>
      match c with
      | .toolInvoke name => name = tool || name = "*"
      | _ => false

/-- `spawn_agent` of the kernel handle, for the manifest that was parsed. -/
def handleSpawnAgent (k : Kernel) (manifest : AgentManifest) (parentId : AgentId)
    (workspace : Except String Unit) : Except SpawnError AgentId × Kernel :=
  match k.spawnAgentWithParent manifest (some parentId) workspace with
  | (.error e, k) => (.error (.spawnFailed e), k)
  | (.ok id, k) => (.ok id, k)

/-- A call of the tool `agent_spawn` by an agent in its turn: the gates of `execute_tool`, and then
`tool_agent_spawn`. -/
def toolAgentSpawn (k : Kernel) (caller : AgentEntry) (context : CallContext)
    (manifest : AgentManifest) (workspace : Except String Unit) :
    Except SpawnError AgentId × Kernel :=
  let allowedTools := (k.availableTools caller.id context.extraTools).filter caller.mode.allowsTool
  if caller.manifest.isWasm || caller.manifest.isPython then (.error .notAnLlmAgent, k)
  else if !allowedTools.contains "agent_spawn" then (.error .notInAllowedList, k)
  else if (filterToolsByDepth ["agent_spawn"] context.depth maxAgentCallDepth).isEmpty then
    (.error (.restrictedAtDepth context.depth), k)
  else if context.approval = some false then (.error .approvalDenied, k)
  else k.handleSpawnAgent manifest caller.id workspace

/-- `host_agent_spawn` called by a WASM guest, with `spawn_agent_checked`: the guest has the
capabilities of its manifest. -/
def hostAgentSpawn (k : Kernel) (caller : AgentEntry) (manifest : AgentManifest)
    (workspace : Except String Unit) : Except SpawnError AgentId × Kernel :=
  let capabilities := caller.manifest.toCapabilities
  if !caller.manifest.isWasm then (.error .notAWasmAgent, k)
  else if capabilities.any fun granted => capabilityMatches granted .agentSpawn then
    match validateCapabilityInheritance capabilities manifest.toCapabilities with
    | .error denied => (.error (.escalationDenied denied), k)
    | .ok () => k.handleSpawnAgent manifest caller.id workspace
  else (.error (.capabilityDenied .agentSpawn), k)

/-- A spawn: by the operator, or started by a registered agent in one of the two ways. -/
inductive Spawn
  | root (manifest : AgentManifest) (workspace : Except String Unit)
  | tool (caller : AgentEntry) (context : CallContext) (manifest : AgentManifest)
      (workspace : Except String Unit)
  | host (caller : AgentEntry) (manifest : AgentManifest) (workspace : Except String Unit)

/-- The kernel after a spawn; only a registered agent has turns. -/
def applySpawn (k : Kernel) : Spawn → Kernel
  | .root manifest workspace => (k.spawnAgent manifest workspace).2
  | .tool caller context manifest workspace =>
    if k.registry.get caller.id = some caller then
      (k.toolAgentSpawn caller context manifest workspace).2
    else k
  | .host caller manifest workspace =>
    if k.registry.get caller.id = some caller then
      (k.hostAgentSpawn caller manifest workspace).2
    else k

/-- The kernel after some spawns, from the first boot on. -/
def grow (spawns : List Spawn) : Kernel := spawns.foldl applySpawn {}

/-! ### The tree -/

/-- The agent `c` is registered as a child of the agent `p`. -/
def ParentOf (k : Kernel) (p c : AgentId) : Prop :=
  ∃ entry ∈ k.registry.agents, entry.id = c ∧ entry.parent = some p

/-- The agent `d` descends from the agent `a`. -/
def Descends (k : Kernel) (a d : AgentId) : Prop := Relation.TransGen k.ParentOf a d

/-- Every capability of a descendant is matched by one of each of its ancestors. -/
def Inherits (k : Kernel) : Prop :=
  ∀ a d, k.Descends a d → ∀ c ∈ k.capabilities.list d,
    ∃ p ∈ k.capabilities.list a, capabilityMatches p c = true

/-- The child asks for no more than the caller has: through the tool, every capability of the
child lies within one of the caller's; through the host function, every one with a glob does (the
host function compares the others itself). -/
def Within (k : Kernel) : Spawn → Prop
  | .root _ _ => True
  | .tool caller _ manifest _ =>
    ∀ c ∈ manifest.toCapabilities, ∃ p ∈ k.capabilities.list caller.id, p.Covers c
  | .host caller manifest _ =>
    ∀ c ∈ manifest.toCapabilities, c.glob? = none ∨
      ∃ p ∈ k.capabilities.list caller.id, p.Covers c

/-- The invariant of the tree: agents have the capabilities of their manifests, parents were there
before their children, and what a child has lies within what its parent has. -/
structure TreeWellFormed (k : Kernel) : Prop where
  kernel : k.WellFormed
  granted : ∀ entry ∈ k.registry.agents,
    k.capabilities.list entry.id = entry.manifest.toCapabilities
  parents : ∀ entry ∈ k.registry.agents, ∀ p, entry.parent = some p → p < k.nextId
  edges : ∀ entry ∈ k.registry.agents, ∀ p, entry.parent = some p →
    ∀ c ∈ k.capabilities.list entry.id, ∃ q ∈ k.capabilities.list p, q.Covers c

variable {k : Kernel}

/-- A spawn under a parent that has all that the child asks for keeps the tree in order. -/
theorem TreeWellFormed.spawn (h : k.TreeWellFormed) {manifest : AgentManifest}
    {parent : Option AgentId} (workspace : Except String Unit)
    (hparent : ∀ p, parent = some p → p < k.nextId ∧
      ∀ c ∈ manifest.toCapabilities, ∃ q ∈ k.capabilities.list p, q.Covers c) :
    (k.spawnAgentWithParent manifest parent workspace).2.TreeWellFormed := by
  have hwf := h.kernel.spawnAgentWithParent manifest parent workspace
  rcases hrun : k.spawnAgentWithParent manifest parent workspace with ⟨r, k'⟩
  rw [hrun] at hwf
  show k'.TreeWellFormed
  obtain ⟨⟨hnext, -, hlist⟩, hcases⟩ := spawnAgentWithParent_cases h.kernel hrun
  -- the agents that were there, and their parents, keep their grants
  have hagent : ∀ entry ∈ k.registry.agents,
      k'.capabilities.list entry.id = k.capabilities.list entry.id :=
    fun entry hentry => hlist _ (h.kernel.drawn_agents entry hentry).ne
  have hold : ∀ entry ∈ k.registry.agents, ∀ p, entry.parent = some p →
      ∀ c ∈ k'.capabilities.list entry.id, ∃ q ∈ k'.capabilities.list p, q.Covers c := by
    intro entry hentry p hp c hc
    rw [hagent entry hentry] at hc
    rw [hlist p (h.parents entry hentry p hp).ne]
    exact h.edges entry hentry p hp c hc
  rcases hcases with ⟨-, hregistry, -⟩ | ⟨group, -, -, hagents, -, -, hgrants⟩
  · refine ⟨hwf, ?_, ?_, ?_⟩ <;> rw [hregistry]
    · intro entry hentry
      rw [hagent entry hentry]
      exact h.granted entry hentry
    · exact fun entry hentry p hp => (h.parents entry hentry p hp).trans hnext
    · exact hold
  -- the new agent has the grants of its manifest, and its parent is the given one
  have hentries : ∀ entry ∈ k'.registry.agents, ∃ old, (old ∈ k.registry.agents ∨
      old = k.spawnedEntry manifest group parent) ∧ ∃ children,
        entry = { old with children := children } := by
    intro entry hentry
    rw [hagents] at hentry
    obtain ⟨old, hmem, hchildren⟩ := mem_linked hentry
    rcases List.mem_append.1 hmem with hmem | hmem
    · exact ⟨old, Or.inl hmem, hchildren⟩
    · exact ⟨old, Or.inr (List.mem_singleton.1 hmem), hchildren⟩
  refine ⟨hwf, ?_, ?_, ?_⟩
  · intro entry hentry
    obtain ⟨old, hmem | rfl, children, rfl⟩ := hentries entry hentry
    · exact (hagent old hmem).trans (h.granted old hmem)
    · exact hgrants
  · intro entry hentry p hp
    obtain ⟨old, hmem | rfl, children, rfl⟩ := hentries entry hentry
    · exact (h.parents old hmem p hp).trans hnext
    · exact (hparent p hp).1.trans hnext
  · intro entry hentry p hp c hc
    obtain ⟨old, hmem | rfl, children, rfl⟩ := hentries entry hentry
    · exact hold old hmem p hp c hc
    · obtain ⟨hlt, hcovered⟩ := hparent p hp
      have hc' : c ∈ k'.capabilities.list k.nextId := hc
      rw [hgrants] at hc'
      rw [hlist p hlt.ne]
      exact hcovered c hc'

theorem handleSpawnAgent_snd (k : Kernel) (manifest : AgentManifest) (parentId : AgentId)
    (workspace : Except String Unit) : (k.handleSpawnAgent manifest parentId workspace).2 =
      (k.spawnAgentWithParent manifest (some parentId) workspace).2 := by
  unfold handleSpawnAgent
  split
  · rename_i hspawn
    rw [hspawn]
  · rename_i hspawn
    rw [hspawn]

/-- Every spawn within bounds keeps the tree in order. -/
theorem TreeWellFormed.applySpawn (h : k.TreeWellFormed) {spawn : Spawn}
    (hwithin : k.Within spawn) :
    (k.applySpawn spawn).TreeWellFormed := by
  have hcaller : ∀ {caller : AgentEntry}, k.registry.get caller.id = some caller →
      caller ∈ k.registry.agents := fun hget => (h.kernel.registry.get_eq_some_iff.1 hget).1
  cases spawn with
  | root manifest workspace => exact h.spawn workspace (by simp)
  | tool caller context manifest workspace =>
    dsimp only [Kernel.applySpawn]
    split
    · rename_i hget
      dsimp only [toolAgentSpawn]
      split_ifs
      · exact h
      · exact h
      · exact h
      · exact h
      · rw [handleSpawnAgent_snd]
        refine h.spawn workspace ?_
        rintro p ⟨⟩
        exact ⟨h.kernel.drawn_agents caller (hcaller hget), hwithin⟩
    · exact h
  | host caller manifest workspace =>
    dsimp only [Kernel.applySpawn]
    split
    · rename_i hget
      dsimp only [hostAgentSpawn]
      split_ifs
      · exact h
      · split
        · exact h
        · rename_i hok
          rw [handleSpawnAgent_snd]
          refine h.spawn workspace ?_
          rintro p ⟨⟩
          refine ⟨h.kernel.drawn_agents caller (hcaller hget), fun c hc => ?_⟩
          rcases hwithin c hc with hnone | hcovered
          · obtain ⟨q, hq, hm⟩ := validateCapabilityInheritance_eq_ok.1 hok c hc
            rw [← h.granted caller (hcaller hget)] at hq
            exact ⟨q, hq, covers_of_no_glob hnone hm⟩
          · exact hcovered
      · exact h
    · exact h

/-- In a tree in order, what a descendant has lies within what each ancestor has. -/
theorem TreeWellFormed.descends (h : k.TreeWellFormed) {a d : AgentId} (hd : k.Descends a d) :
    ∀ c ∈ k.capabilities.list d, ∃ p ∈ k.capabilities.list a, p.Covers c := by
  induction hd with
  | single hedge =>
    obtain ⟨entry, hentry, rfl, hp⟩ := hedge
    exact h.edges entry hentry a hp
  | tail _ hedge ih =>
    obtain ⟨entry, hentry, rfl, hp⟩ := hedge
    intro c hc
    obtain ⟨q, hq, hqc⟩ := h.edges entry hentry _ hp c hc
    obtain ⟨p, hp, hpq⟩ := ih q hq
    exact ⟨p, hp, hpq.trans hqc⟩

theorem TreeWellFormed.inherits (h : k.TreeWellFormed) : k.Inherits := by
  intro a d hd c hc
  obtain ⟨p, hp, hcov⟩ := h.descends hd c hc
  exact ⟨p, hp, hcov.matches_self⟩

/-! ### Runs -/

/-- Every spawn is within bounds where it happens. -/
def AllWithin : Kernel → List Spawn → Prop
  | _, [] => True
  | k, spawn :: spawns => k.Within spawn ∧ AllWithin (k.applySpawn spawn) spawns

theorem TreeWellFormed.foldl (h : k.TreeWellFormed) {spawns before : List Spawn}
    (hwithin : k.AllWithin spawns) (hbefore : before <+: spawns) :
    (before.foldl Kernel.applySpawn k).TreeWellFormed := by
  induction spawns generalizing k before with
  | nil =>
    rw [List.prefix_nil.1 hbefore]
    exact h
  | cons spawn spawns ih =>
    rcases List.prefix_cons_iff.1 hbefore with rfl | ⟨rest, rfl, hrest⟩
    · exact h
    · exact ih (h.applySpawn hwithin.1) hwithin.2 hrest

theorem TreeWellFormed.empty : TreeWellFormed {} := by
  refine ⟨⟨AgentRegistry.WellFormed.empty, List.nodup_nil, ?_, ?_⟩, ?_, ?_, ?_⟩ <;> simp

/-- **Inheritance over the spawn tree.**  When every spawn that an agent starts asks for no more
than the agent has, every capability of a descendant is matched by one of each of its ancestors, in
every state of the run. -/
theorem grow_inherits (spawns : List Spawn) (h : AllWithin {} spawns) :
    ∀ before, before <+: spawns → (grow before).Inherits :=
  fun _ hbefore => (TreeWellFormed.empty.foldl h hbefore).inherits

/-- A manifest with tools and shell commands. -/
def toolsManifest (name : String) (tools shell : List String) : AgentManifest :=
  { name := name, capabilities := { tools := tools, shell := shell } }

/-- An agent that may spawn, and a child it starts with one of its own tools. -/
def readerTree : List Spawn :=
  [.root (toolsManifest "root" ["agent_spawn", "file_read"] []) (.ok ()),
    .tool (spawnedEntry {} (toolsManifest "root" ["agent_spawn", "file_read"] []) none none) {}
      (toolsManifest "reader" ["file_read"] []) (.ok ())]

theorem readerTree_inherits : (grow readerTree).Descends 0 2 ∧ (grow readerTree).Inherits := by
  constructor
  · exact Relation.TransGen.single ⟨{ spawnedEntry {} (toolsManifest "reader" ["file_read"] [])
      none (some 0) with id := 2, sessionId := 3 }, by decide, rfl, rfl⟩
  · refine grow_inherits readerTree ⟨trivial, ?_, trivial⟩ readerTree List.prefix_rfl
    intro c hc
    obtain rfl : c = .toolInvoke "file_read" := by simpa [toolsManifest,
      AgentManifest.toCapabilities, AgentManifest.effectiveCapabilities] using hc
    refine ⟨.toolInvoke "file_read", by decide, ?_⟩
    exact covers_of_no_glob rfl (by decide)

/-- An agent that may only spawn starts a child with every shell command. -/
theorem spawn_escalates : ¬ ∀ spawns : List Spawn, (grow spawns).Inherits := by
  intro hall
  obtain ⟨p, hp, hm⟩ := hall [.root (toolsManifest "root" ["agent_spawn"] []) (.ok ()),
    .tool (spawnedEntry {} (toolsManifest "root" ["agent_spawn"] []) none none) {}
      (toolsManifest "child" [] ["*"]) (.ok ())] 0 2
    (Relation.TransGen.single ⟨{ spawnedEntry {} (toolsManifest "child" [] ["*"]) none (some 0) with
      id := 2, sessionId := 3 }, by decide, rfl, rfl⟩) (.shellExec "*") (by decide)
  revert hm
  revert p
  decide

end Kernel
end RustyHand
