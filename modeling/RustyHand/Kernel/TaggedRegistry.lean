import RustyHand.Kernel.Registry
import RustyHand.Lib.InvertedIndex
import RustyHand.Lib.Runs
import RustyHand.Runtime.Driver

/-!
# The agent registry with all its indexes

`rusty-hand-kernel/src/registry.rs` whole: the entries with every field that an operation of the
registry reads or writes, the name index and the tag index, and all the operations.  What an
operation does is its result with the registry after it, so that a failure says what it leaves.

* `TaggedRegistry`, its operations, and `RegistryOp` for all of them;
* `Indexed`: the indexes are exact;
* `Indexed.apply`, `indexed_run`: the operations keep them so;
* `forget_register` and its siblings: `AgentRegistry` is this registry without the tags.
-/

namespace RustyHand

open LlmDriver (ThinkingConfig)

/-- What the registry writes of `ModelConfig`; the temperature is the bits of an `f32`. -/
structure ModelConfig where
  provider : String := "anthropic"
  model : String := "claude-sonnet-4-6"
  maxTokens : ℕ := 4096
  temperature : UInt32 := 0x3f333333
  systemPrompt : String := "You are a helpful AI agent."
  thinking : Option ThinkingConfig := none

/-- `AgentIdentity`. -/
structure AgentIdentity where
  emoji : Option String := none
  avatarUrl : Option String := none
  color : Option String := none
  archetype : Option String := none
  vibe : Option String := none
  greetingStyle : Option String := none

/-- What the registry writes of `AgentManifest`, besides what the rest of the kernel uses. -/
structure FullManifest extends AgentManifest where
  description : String := ""
  model : ModelConfig := {}
  skills : List String := []
  mcpServers : List String := []
  workspace : Option String := none

/-- `AgentEntry`, with its times in milliseconds. -/
structure FullEntry where
  id : AgentId
  name : String
  manifest : FullManifest
  state : AgentState := .created
  mode : AgentMode := .default
  lastActive : ℤ := 0
  parent : Option AgentId := none
  children : List AgentId := []
  sessionId : SessionId
  tags : List String := []
  identity : AgentIdentity := {}
  onboardingCompleted : Bool := false
  onboardingCompletedAt : Option ℤ := none

/-- `AgentRegistry`, with its tag index. -/
structure TaggedRegistry where
  agents : List FullEntry := []
  nameIndex : List (String × AgentId) := []
  tagIndex : List (String × List AgentId) := []

namespace TaggedRegistry

/-- The result of an operation, and the registry after it. -/
abbrev Outcome := Except RustyHandError Unit × TaggedRegistry

/-- `get`. -/
def get (r : TaggedRegistry) (id : AgentId) : Option FullEntry :=
  Table.lookup FullEntry.id id r.agents

/-- The id that the name index has for a name. -/
def idOf (r : TaggedRegistry) (name : String) : Option AgentId :=
  (Table.lookup Prod.fst name r.nameIndex).map Prod.snd

/-- The ids that the tag index has under a tag. -/
def idsTagged (r : TaggedRegistry) (tag : String) : List AgentId :=
  InvertedIndex.idsUnder tag r.tagIndex

/-- `register`. -/
def register (r : TaggedRegistry) (entry : FullEntry) : Outcome :=
  if (r.idOf entry.name).isSome then (.error (.agentAlreadyExists entry.name), r)
  else
    (.ok (), { agents := Table.upsert FullEntry.id entry r.agents
               nameIndex := Table.upsert Prod.fst (entry.name, entry.id) r.nameIndex
               tagIndex := InvertedIndex.pushAll entry.tags entry.id r.tagIndex })

/-- `remove`. -/
def remove (r : TaggedRegistry) (id : AgentId) : Outcome :=
  match r.get id with
  | none => (.error (.agentNotFound id), r)
  | some entry =>
    (.ok (), { agents := Table.erase FullEntry.id id r.agents
               nameIndex := Table.erase Prod.fst entry.name r.nameIndex
               tagIndex := InvertedIndex.retainAll entry.tags id r.tagIndex })

/-- `add_child`. -/
def addChild (r : TaggedRegistry) (parentId childId : AgentId) : TaggedRegistry :=
  let push := fun entry : FullEntry => { entry with children := entry.children ++ [childId] }
  { r with agents := Table.modify FullEntry.id parentId push r.agents }

/-- What `update_name` writes of the entry. -/
def rename (newName : String) (now : ℤ) (entry : FullEntry) : FullEntry :=
  { entry with
    name := newName
    manifest := { entry.manifest with name := newName }
    lastActive := now }

/-- `update_name`: the name is reserved in the index first, and given back if there is no such
agent. -/
def updateName (r : TaggedRegistry) (id : AgentId) (newName : String) (now : ℤ) : Outcome :=
  match r.idOf newName with
  | some existing =>
    if existing = id then (.ok (), r) else (.error (.agentAlreadyExists newName), r)
  | none =>
    let reserved := { r with nameIndex := Table.upsert Prod.fst (newName, id) r.nameIndex }
    match reserved.get id with
    | none =>
      (.error (.agentNotFound id),
        { reserved with nameIndex := Table.erase Prod.fst newName reserved.nameIndex })
    | some entry =>
      let renamed :=
        { reserved with agents := Table.modify FullEntry.id id (rename newName now) r.agents }
      if entry.name = newName then (.ok (), renamed)
      else
        (.ok (),
          { renamed with nameIndex := Table.erase Prod.fst entry.name renamed.nameIndex })

/-- The entry of an agent changed, which makes it the last active one: `get_mut` of the source. -/
def update (r : TaggedRegistry) (id : AgentId) (now : ℤ) (f : FullEntry → FullEntry) : Outcome :=
  match r.get id with
  | none => (.error (.agentNotFound id), r)
  | some _ =>
    let write := fun entry : FullEntry => { f entry with lastActive := now }
    (.ok (), { r with agents := Table.modify FullEntry.id id write r.agents })

/-- A change of the manifest. -/
def updateManifest (r : TaggedRegistry) (id : AgentId) (now : ℤ)
    (f : FullManifest → FullManifest) : Outcome :=
  r.update id now fun entry => { entry with manifest := f entry.manifest }

/-- A change of the model configuration. -/
def updateModelConfig (r : TaggedRegistry) (id : AgentId) (now : ℤ)
    (f : ModelConfig → ModelConfig) : Outcome :=
  r.updateManifest id now fun manifest => { manifest with model := f manifest.model }

/-- `set_state`. -/
def setState (r : TaggedRegistry) (id : AgentId) (now : ℤ) (state : AgentState) : Outcome :=
  r.update id now fun entry => { entry with state := state }

/-- `set_mode`. -/
def setMode (r : TaggedRegistry) (id : AgentId) (now : ℤ) (mode : AgentMode) : Outcome :=
  r.update id now fun entry => { entry with mode := mode }

/-- `update_session_id`. -/
def updateSessionId (r : TaggedRegistry) (id : AgentId) (now : ℤ) (newSessionId : SessionId) :
    Outcome :=
  r.update id now fun entry => { entry with sessionId := newSessionId }

/-- `update_workspace`. -/
def updateWorkspace (r : TaggedRegistry) (id : AgentId) (now : ℤ) (workspace : Option String) :
    Outcome :=
  r.updateManifest id now fun manifest => { manifest with workspace := workspace }

/-- `update_identity`. -/
def updateIdentity (r : TaggedRegistry) (id : AgentId) (now : ℤ) (identity : AgentIdentity) :
    Outcome :=
  r.update id now fun entry => { entry with identity := identity }

/-- `update_model`. -/
def updateModel (r : TaggedRegistry) (id : AgentId) (now : ℤ) (newModel : String) : Outcome :=
  r.updateModelConfig id now fun model => { model with model := newModel }

/-- `update_model_and_provider`. -/
def updateModelAndProvider (r : TaggedRegistry) (id : AgentId) (now : ℤ)
    (newModel newProvider : String) : Outcome :=
  r.updateModelConfig id now fun model =>
    { model with model := newModel, provider := newProvider }

/-- `update_max_tokens`. -/
def updateMaxTokens (r : TaggedRegistry) (id : AgentId) (now : ℤ) (maxTokens : ℕ) : Outcome :=
  r.updateModelConfig id now fun model => { model with maxTokens := maxTokens }

/-- `update_temperature`. -/
def updateTemperature (r : TaggedRegistry) (id : AgentId) (now : ℤ) (temperature : UInt32) :
    Outcome :=
  r.updateModelConfig id now fun model => { model with temperature := temperature }

/-- `update_thinking`. -/
def updateThinking (r : TaggedRegistry) (id : AgentId) (now : ℤ)
    (thinking : Option ThinkingConfig) : Outcome :=
  r.updateModelConfig id now fun model => { model with thinking := thinking }

/-- `update_system_prompt`. -/
def updateSystemPrompt (r : TaggedRegistry) (id : AgentId) (now : ℤ) (newPrompt : String) :
    Outcome :=
  r.updateModelConfig id now fun model => { model with systemPrompt := newPrompt }

/-- `update_skills`. -/
def updateSkills (r : TaggedRegistry) (id : AgentId) (now : ℤ) (skills : List String) : Outcome :=
  r.updateManifest id now fun manifest => { manifest with skills := skills }

/-- The capabilities with other tools: what the tools need is widened, and nothing narrowed. -/
def grantTools (caps : ManifestCapabilities) (tools : List String) : ManifestCapabilities :=
  let has := fun pred : String → Bool => tools.any fun t => t = "*" || pred t
  let needsNet := has fun t => ToolProfile.startsWith t "web_"
  let needsShell := has fun t => t = "shell_exec"
  let needsAgent := has fun t => ToolProfile.startsWith t "agent_"
  let needsMemory := has fun t => ToolProfile.startsWith t "memory_"
  let widen := fun (needs : Bool) (granted : List String) =>
    if needs && granted.isEmpty then ["*"] else granted
  { caps with
    tools := tools
    network := widen needsNet caps.network
    shell := widen needsShell caps.shell
    agentSpawn := needsAgent || caps.agentSpawn
    agentMessage := widen needsAgent caps.agentMessage
    memoryRead := widen needsMemory caps.memoryRead }

/-- `update_tools`. -/
def updateTools (r : TaggedRegistry) (id : AgentId) (now : ℤ) (tools : List String) : Outcome :=
  r.updateManifest id now fun manifest =>
    { manifest with capabilities := grantTools manifest.capabilities tools, profile := none }

/-- `update_mcp_servers`. -/
def updateMcpServers (r : TaggedRegistry) (id : AgentId) (now : ℤ) (servers : List String) :
    Outcome :=
  r.updateManifest id now fun manifest => { manifest with mcpServers := servers }

/-- `update_description`. -/
def updateDescription (r : TaggedRegistry) (id : AgentId) (now : ℤ) (newDesc : String) : Outcome :=
  r.updateManifest id now fun manifest => { manifest with description := newDesc }

/-- `update_group`. -/
def updateGroup (r : TaggedRegistry) (id : AgentId) (now : ℤ) (group : Option String) : Outcome :=
  r.updateManifest id now fun manifest => { manifest with group := group }

/-- `mark_onboarding_complete`. -/
def markOnboardingComplete (r : TaggedRegistry) (id : AgentId) (now : ℤ) : Outcome :=
  r.update id now fun entry =>
    { entry with onboardingCompleted := true, onboardingCompletedAt := some now }

end TaggedRegistry

/-- What a call that changes one entry in place writes. -/
inductive EntryUpdate
  | state (state : AgentState)
  | mode (mode : AgentMode)
  | sessionId (newSessionId : SessionId)
  | workspace (workspace : Option String)
  | identity (identity : AgentIdentity)
  | model (newModel : String)
  | modelAndProvider (newModel newProvider : String)
  | maxTokens (maxTokens : ℕ)
  | temperature (temperature : UInt32)
  | thinking (thinking : Option ThinkingConfig)
  | skills (skills : List String)
  | tools (tools : List String)
  | mcpServers (servers : List String)
  | systemPrompt (newPrompt : String)
  | description (newDesc : String)
  | group (group : Option String)
  | onboardingComplete

/-- A call of an operation that changes the registry. -/
inductive RegistryOp
  | register (entry : FullEntry)
  | remove (id : AgentId)
  | addChild (parentId childId : AgentId)
  | updateName (id : AgentId) (newName : String) (now : ℤ)
  | update (id : AgentId) (now : ℤ) (change : EntryUpdate)

namespace TaggedRegistry

/-- The call of the operation that writes this. -/
def write (r : TaggedRegistry) (id : AgentId) (now : ℤ) : EntryUpdate → Outcome
  | .state state => r.setState id now state
  | .mode mode => r.setMode id now mode
  | .sessionId newSessionId => r.updateSessionId id now newSessionId
  | .workspace workspace => r.updateWorkspace id now workspace
  | .identity identity => r.updateIdentity id now identity
  | .model newModel => r.updateModel id now newModel
  | .modelAndProvider newModel newProvider => r.updateModelAndProvider id now newModel newProvider
  | .maxTokens maxTokens => r.updateMaxTokens id now maxTokens
  | .temperature temperature => r.updateTemperature id now temperature
  | .thinking thinking => r.updateThinking id now thinking
  | .skills skills => r.updateSkills id now skills
  | .tools tools => r.updateTools id now tools
  | .mcpServers servers => r.updateMcpServers id now servers
  | .systemPrompt newPrompt => r.updateSystemPrompt id now newPrompt
  | .description newDesc => r.updateDescription id now newDesc
  | .group group => r.updateGroup id now group
  | .onboardingComplete => r.markOnboardingComplete id now

/-- What a call returns, with the registry after it. -/
def call (r : TaggedRegistry) : RegistryOp → Outcome
  | .register entry => r.register entry
  | .remove id => r.remove id
  | .addChild parentId childId => (.ok (), r.addChild parentId childId)
  | .updateName id newName now => r.updateName id newName now
  | .update id now change => r.write id now change

/-- The registry after a call. -/
def apply (r : TaggedRegistry) (op : RegistryOp) : TaggedRegistry := (r.call op).2

/-- The tags of a registered agent. -/
def tagsOf (r : TaggedRegistry) (id : AgentId) : List String :=
  ((r.get id).map FullEntry.tags).getD []

/-- The name index holds exactly the names of the agents, and the tag index each agent under its
tags. -/
structure Indexed (r : TaggedRegistry) : Prop where
  names : ∀ name id, r.idOf name = some id ↔ ∃ entry, r.get id = some entry ∧ entry.name = name
  tags : InvertedIndex.Exact r.tagsOf r.tagIndex

/-- A call that registers an agent brings an id that no registered agent has. -/
def Fresh (r : TaggedRegistry) : RegistryOp → Prop
  | .register entry => r.get entry.id = none
  | _ => True

variable {r r' : TaggedRegistry} {id : AgentId} {entry : FullEntry} {name : String} {now : ℤ}

theorem Indexed.empty : Indexed {} := by
  refine ⟨fun name id => ?_, InvertedIndex.Exact.nil⟩
  simp [idOf, get, Table.lookup]

theorem Indexed.idOf_name (h : r.Indexed) (hget : r.get id = some entry) :
    r.idOf entry.name = some id :=
  (h.names entry.name id).2 ⟨entry, hget, rfl⟩

/-! ### One agent comes, goes or changes -/

/-- What keeps the name index exact when the entry of one id changes: the new name is free or the
agent's own, and the index has the new name and no longer the old one. -/
theorem Indexed.names_of_views {new : Option FullEntry} (h : r.Indexed)
    (hget : ∀ j, r'.get j = if j = id then new else r.get j)
    (hidOf : ∀ name, r'.idOf name =
      if new.map FullEntry.name = some name then some id
      else if (r.get id).map FullEntry.name = some name then none else r.idOf name)
    (hfree : ∀ entry, new = some entry → ∀ j, r.idOf entry.name = some j → j = id) (name : String)
    (j : AgentId) : r'.idOf name = some j ↔ ∃ entry, r'.get j = some entry ∧ entry.name = name := by
  rw [hidOf, hget]
  by_cases hnew : new.map FullEntry.name = some name
  · obtain ⟨entry, rfl, rfl⟩ := Option.map_eq_some_iff.1 hnew
    rw [if_pos hnew]
    by_cases hj : j = id
    · simp [hj]
    · rw [if_neg hj, ← h.names]
      refine iff_of_false (fun hid => hj (Option.some.inj hid).symm) fun hid => hj ?_
      exact hfree entry rfl j hid
  · rw [if_neg hnew]
    have hgone : j = id → ¬∃ entry, new = some entry ∧ entry.name = name := by
      rintro - ⟨entry, rfl, rfl⟩
      exact hnew rfl
    by_cases hold : (r.get id).map FullEntry.name = some name
    · obtain ⟨entry, hentry, rfl⟩ := Option.map_eq_some_iff.1 hold
      rw [if_pos hold]
      by_cases hj : j = id
      · simpa [hj] using hgone hj
      · rw [if_neg hj, ← h.names, h.idOf_name hentry]
        exact iff_of_false (by simp) fun hid => hj (Option.some.inj hid).symm
    · rw [if_neg hold, h.names]
      by_cases hj : j = id
      · subst hj
        refine iff_of_false ?_ (by simpa using hgone rfl)
        rintro ⟨entry, hentry, rfl⟩
        exact hold (by rw [hentry]; rfl)
      · rw [if_neg hj]

theorem tagsOf_of_views {new : Option FullEntry}
    (hget : ∀ j, r'.get j = if j = id then new else r.get j) (j : AgentId) :
    r'.tagsOf j = if j = id then (new.map FullEntry.tags).getD [] else r.tagsOf j := by
  unfold tagsOf
  rw [hget]
  split
  · rfl
  · rfl

/-- A change of an entry in place that keeps its name and its tags. -/
theorem Indexed.modify {f : FullEntry → FullEntry} (h : r.Indexed) (hid : ∀ e, (f e).id = e.id)
    (hname : ∀ e, (f e).name = e.name) (htags : ∀ e, (f e).tags = e.tags) :
    Indexed { r with agents := Table.modify FullEntry.id id f r.agents } := by
  have hget : ∀ j, get { r with agents := Table.modify FullEntry.id id f r.agents } j =
      if j = id then (r.get id).map f else r.get j := by
    intro j
    by_cases hj : j = id
    · rw [if_pos hj, hj]
      exact Table.lookup_modify hid id r.agents
    · rw [if_neg hj]
      exact Table.lookup_modify_of_ne hid hj r.agents
  have hsame : ((r.get id).map f).map FullEntry.name = (r.get id).map FullEntry.name := by
    rw [Option.map_map]
    exact congrArg (Option.map · _) (funext hname)
  refine ⟨h.names_of_views hget ?_ ?_, ?_⟩
  · intro name
    rw [hsame]
    by_cases hold : (r.get id).map FullEntry.name = some name
    · obtain ⟨entry, hentry, rfl⟩ := Option.map_eq_some_iff.1 hold
      rw [if_pos hold]
      exact h.idOf_name hentry
    · rw [if_neg hold, if_neg hold]
      rfl
  · intro entry hentry j hj
    obtain ⟨old, hold, rfl⟩ := Option.map_eq_some_iff.1 hentry
    rw [hname, h.idOf_name hold] at hj
    exact (Option.some.inj hj).symm
  · have heq : tagsOf { r with agents := Table.modify FullEntry.id id f r.agents } = r.tagsOf := by
      funext j
      rw [tagsOf_of_views hget]
      by_cases hj : j = id
      · subst hj
        rw [if_pos rfl, Option.map_map, tagsOf]
        exact congrArg (fun g => (Option.map g _).getD []) (funext htags)
      · rw [if_neg hj]
    rw [heq]
    exact h.tags

/-! ### What the operations do -/

theorem register_of_free (hfree : r.idOf entry.name = none) :
    r.register entry = (.ok (),
      { agents := Table.upsert FullEntry.id entry r.agents
        nameIndex := Table.upsert Prod.fst (entry.name, entry.id) r.nameIndex
        tagIndex := InvertedIndex.pushAll entry.tags entry.id r.tagIndex }) := by
  simp [register, hfree]

theorem get_register (hfree : r.idOf entry.name = none) (j : AgentId) :
    (r.register entry).2.get j = if j = entry.id then some entry else r.get j := by
  rw [register_of_free hfree]
  exact Table.lookup_upsert j entry r.agents

theorem idOf_register (hfree : r.idOf entry.name = none) (name : String) :
    (r.register entry).2.idOf name = if name = entry.name then some entry.id else r.idOf name := by
  rw [register_of_free hfree]
  unfold idOf
  rw [Table.lookup_upsert]
  split
  · rfl
  · rfl

theorem Indexed.register (h : r.Indexed) (hfresh : r.get entry.id = none) :
    (r.register entry).2.Indexed := by
  cases hfree : r.idOf entry.name with
  | some id => simpa [TaggedRegistry.register, hfree] using h
  | none =>
    have hget := get_register hfree
    refine ⟨h.names_of_views hget ?_ ?_, ?_⟩
    · intro name
      rw [idOf_register hfree, hfresh]
      by_cases hnew : name = entry.name
      · simp [hnew]
      · simp [hnew, Ne.symm hnew]
    · intro entry' heq j hj
      cases heq
      rw [hfree] at hj
      cases hj
    · have hnew : (r.register entry).2.tagsOf entry.id = entry.tags := by
        rw [tagsOf_of_views hget, if_pos rfl]
        rfl
      have hold : r.tagsOf entry.id = [] := by simp [tagsOf, hfresh]
      have htags := h.tags.pushAll hold fun j hj => (tagsOf_of_views hget j).trans (if_neg hj)
      rw [hnew] at htags
      rwa [register_of_free hfree] at htags ⊢

theorem remove_of_get (hget : r.get id = some entry) :
    r.remove id = (.ok (),
      { agents := Table.erase FullEntry.id id r.agents
        nameIndex := Table.erase Prod.fst entry.name r.nameIndex
        tagIndex := InvertedIndex.retainAll entry.tags id r.tagIndex }) := by
  simp [remove, hget]

theorem get_remove (hget : r.get id = some entry) (j : AgentId) :
    (r.remove id).2.get j = if j = id then none else r.get j := by
  rw [remove_of_get hget]
  by_cases hj : j = id
  · rw [if_pos hj, hj]
    exact Table.lookup_erase id r.agents
  · rw [if_neg hj]
    exact Table.lookup_erase_of_ne hj r.agents

theorem idOf_remove (hget : r.get id = some entry) (name : String) :
    (r.remove id).2.idOf name = if name = entry.name then none else r.idOf name := by
  rw [remove_of_get hget]
  unfold idOf
  by_cases hname : name = entry.name
  · rw [if_pos hname, hname, Table.lookup_erase]
    rfl
  · rw [if_neg hname, Table.lookup_erase_of_ne hname]

theorem Indexed.remove (h : r.Indexed) (id : AgentId) : (r.remove id).2.Indexed := by
  cases hentry : r.get id with
  | none => simpa [TaggedRegistry.remove, hentry] using h
  | some entry =>
    have hget := get_remove hentry
    refine ⟨h.names_of_views hget ?_ (fun _ hnone => by cases hnone), ?_⟩
    · intro name
      rw [idOf_remove hentry, hentry]
      by_cases hname : name = entry.name
      · simp [hname]
      · simp [hname, Ne.symm hname]
    · have hnew : (r.remove id).2.tagsOf id = [] := by
        rw [tagsOf_of_views hget, if_pos rfl]
        rfl
      have hold : r.tagsOf id = entry.tags := by simp [tagsOf, hentry]
      have htags := h.tags.retainAll hnew fun j hj => (tagsOf_of_views hget j).trans (if_neg hj)
      rw [hold] at htags
      rwa [remove_of_get hentry] at htags ⊢

/-- A name that is reserved and given back leaves the index as it was. -/
theorem erase_upsert_nameIndex (hfree : r.idOf name = none) (id : AgentId) :
    Table.erase Prod.fst name (Table.upsert Prod.fst (name, id) r.nameIndex) = r.nameIndex := by
  have hmem : name ∉ r.nameIndex.map Prod.fst := by
    rw [← Table.lookup_eq_none_iff]
    exact Option.map_eq_none_iff.1 hfree
  have hold := Table.erase_of_not_mem hmem
  rw [Table.erase] at hold
  rw [Table.upsert_of_not_mem (x := (name, id)) hmem, Table.erase, List.filter_append, hold]
  simp

/-- A renaming of an agent that is not registered. -/
theorem updateName_of_absent (hfree : r.idOf name = none) (habsent : r.get id = none) :
    r.updateName id name now = (.error (.agentNotFound id), r) := by
  have hget : get { r with nameIndex := Table.upsert Prod.fst (name, id) r.nameIndex } id = none :=
    habsent
  simp only [updateName, hfree, hget, erase_upsert_nameIndex hfree id]

theorem updateName_of_free (hfree : r.idOf name = none) (hget : r.get id = some entry)
    (hne : entry.name ≠ name) : r.updateName id name now =
      (.ok (), { r with agents := Table.modify FullEntry.id id (rename name now) r.agents
                        nameIndex := Table.erase Prod.fst entry.name
                          (Table.upsert Prod.fst (name, id) r.nameIndex) }) := by
  have hget' : get { r with nameIndex := Table.upsert Prod.fst (name, id) r.nameIndex } id =
    some entry := hget
  simp only [updateName, hfree, hget', if_neg hne]

theorem get_updateName (now : ℤ) (hfree : r.idOf name = none) (hget : r.get id = some entry)
    (hne : entry.name ≠ name) (j : AgentId) : (r.updateName id name now).2.get j =
      if j = id then some (rename name now entry) else r.get j := by
  have hid (e : FullEntry) : (rename name now e).id = e.id := rfl
  rw [updateName_of_free hfree hget hne]
  by_cases hj : j = id
  · rw [if_pos hj, hj]
    exact (Table.lookup_modify hid id r.agents).trans (congrArg (Option.map _) hget)
  · rw [if_neg hj]
    exact Table.lookup_modify_of_ne hid hj r.agents

theorem idOf_updateName (hfree : r.idOf name = none) (hget : r.get id = some entry)
    (hne : entry.name ≠ name) (other : String) : (r.updateName id name now).2.idOf other =
      if other = entry.name then none else if other = name then some id else r.idOf other := by
  rw [updateName_of_free hfree hget hne]
  unfold idOf
  by_cases hold : other = entry.name
  · rw [if_pos hold, hold, Table.lookup_erase]
    rfl
  · rw [if_neg hold, Table.lookup_erase_of_ne hold, Table.lookup_upsert]
    split
    · rfl
    · rfl

theorem Indexed.updateName (h : r.Indexed) (id : AgentId) (name : String) (now : ℤ) :
    (r.updateName id name now).2.Indexed := by
  cases hfree : r.idOf name with
  | some existing =>
    have hsame : (r.updateName id name now).2 = r := by
      simp only [TaggedRegistry.updateName, hfree]
      split
      · rfl
      · rfl
    rwa [hsame]
  | none =>
    cases hentry : r.get id with
    | none => simpa [updateName_of_absent hfree hentry] using h
    | some entry =>
      -- the agent's own name is in the index, and the new one is not
      have hne : entry.name ≠ name := by
        rintro rfl
        rw [h.idOf_name hentry] at hfree
        cases hfree
      have hget := get_updateName now hfree hentry hne
      refine ⟨h.names_of_views hget ?_ ?_, ?_⟩
      · intro other
        rw [idOf_updateName hfree hentry hne, hentry]
        by_cases hnew : other = name
        · simp [hnew, hne.symm, rename]
        · by_cases hold : other = entry.name
          · simp [hold, hne.symm, rename]
          · simp [hnew, hold, Ne.symm hnew, Ne.symm hold, rename]
      · intro entry' heq j hj
        cases heq
        have hnone : r.idOf name = some j := hj
        rw [hfree] at hnone
        cases hnone
      · have heq : (r.updateName id name now).2.tagsOf = r.tagsOf := by
          funext j
          rw [tagsOf_of_views hget]
          by_cases hj : j = id
          · simp [hj, tagsOf, hentry, rename]
          · rw [if_neg hj]
        rw [heq, updateName_of_free hfree hentry hne]
        exact h.tags

/-- Every change in place keeps id, name and tags. -/
theorem exists_write_eq (r : TaggedRegistry) (id : AgentId) (now : ℤ) (change : EntryUpdate) :
    ∃ f : FullEntry → FullEntry, r.write id now change = r.update id now f ∧
      ∀ e, (f e).id = e.id ∧ (f e).name = e.name ∧ (f e).tags = e.tags := by
  cases change <;> exact ⟨_, rfl, fun _ => ⟨rfl, rfl, rfl⟩⟩

theorem Indexed.write (h : r.Indexed) (id : AgentId) (now : ℤ) (change : EntryUpdate) :
    (r.write id now change).2.Indexed := by
  obtain ⟨f, heq, hf⟩ := exists_write_eq r id now change
  rw [heq, update]
  cases r.get id with
  | none => exact h
  | some entry => exact h.modify (fun e => (hf e).1) (fun e => (hf e).2.1) fun e => (hf e).2.2

/-- A call keeps the indexes exact. -/
theorem Indexed.apply {op : RegistryOp} (h : r.Indexed) (hfresh : r.Fresh op) :
    (r.apply op).Indexed := by
  cases op with
  | register entry => exact h.register hfresh
  | remove id => exact h.remove id
  | addChild parentId childId => exact h.modify (fun _ => rfl) (fun _ => rfl) fun _ => rfl
  | updateName id newName now => exact h.updateName id newName now
  | update id now change => exact h.write id now change

theorem call_of_error {op : RegistryOp} {error : RustyHandError}
    (herror : (r.call op).1 = .error error) : (r.call op).2 = r := by
  cases op with
  | register entry =>
    simp only [call, register] at herror ⊢
    split_ifs at herror ⊢
    rfl
  | remove id =>
    simp only [call, remove] at herror ⊢
    cases hget : r.get id with
    | none => rfl
    | some entry => simp [hget] at herror
  | addChild parentId childId => cases herror
  | updateName id newName now =>
    simp only [call] at herror ⊢
    cases hname : r.idOf newName with
    | some existing =>
      simp only [updateName, hname]
      split
      · rfl
      · rfl
    | none =>
      cases hentry : r.get id with
      | none => rw [updateName_of_absent hname hentry]
      | some entry =>
        have hget : get { r with nameIndex := Table.upsert Prod.fst (newName, id) r.nameIndex } id =
          some entry := hentry
        simp only [updateName, hname, hget] at herror
        split_ifs at herror
  | update id now change =>
    obtain ⟨f, heq, -⟩ := exists_write_eq r id now change
    simp only [call, heq, update] at herror ⊢
    cases hget : r.get id with
    | none => rfl
    | some entry => simp [hget] at herror

/-- After every run of calls whose registrations bring fresh ids, the indexes are exact. -/
theorem indexed_run {ops : List RegistryOp} (h : Runs.Along apply Fresh {} ops) :
    (Runs.run apply {} ops).Indexed :=
  h.invariant Indexed.empty fun _ _ hindexed hfresh => hindexed.apply hfresh

/-- After every run of calls whose registrations bring fresh ids, the name index maps exactly the
names of the agents to their ids and the tag index has each id under exactly the tags of its entry,
as often as the entry names them; and a call that then fails leaves the registry as it is. -/
theorem indexes_exact {ops : List RegistryOp} (h : Runs.Along apply Fresh {} ops) :
    let r := Runs.run apply {} ops
    (∀ name id, r.idOf name = some id ↔ ∃ entry, r.get id = some entry ∧ entry.name = name) ∧
      (∀ tag id, id ∈ r.idsTagged tag ↔ ∃ entry, r.get id = some entry ∧ tag ∈ entry.tags) ∧
      (∀ tag id, (r.idsTagged tag).count id = (r.tagsOf id).count tag) ∧
      ∀ op error, (r.call op).1 = .error error → (r.call op).2 = r := by
  intro r
  have hindexed : r.Indexed := indexed_run h
  refine ⟨hindexed.names, fun tag id => ?_, fun tag id => hindexed.tags id tag,
    fun op error => call_of_error⟩
  rw [idsTagged, hindexed.tags.mem_iff, tagsOf]
  cases r.get id with
  | none => simp
  | some entry => simp

/-- The calls of a run in which a name and a tag pass from one agent to another. -/
def handedOver : List RegistryOp :=
  let agent := fun (id : AgentId) (name : String) (tags : List String) =>
    RegistryOp.register { id := id, name := name, manifest := { name := name }, sessionId := 0
                          tags := tags }
  [agent 1 "scout" ["field"], agent 2 "clerk" ["desk", "field"], .updateName 1 "clerk" 5,
    .updateName 1 "guide" 6, .updateName 2 "scout" 7, .remove 1, .updateName 3 "ghost" 8,
    agent 1 "clerk" ["desk"]]

/-- In that run, the name of the first agent is at the end that of the second. -/
theorem indexes_exact_handedOver :
    (Runs.run apply {} handedOver).idOf "scout" = some 2 ∧
      ∀ name id, (Runs.run apply {} handedOver).idOf name = some id ↔
        ∃ entry, (Runs.run apply {} handedOver).get id = some entry ∧ entry.name = name :=
  have hfresh : Runs.Along apply Fresh {} handedOver :=
    ⟨rfl, rfl, trivial, trivial, trivial, trivial, trivial, rfl, trivial⟩
  ⟨by decide, (indexes_exact hfresh).1⟩

/-! ### The registry without its tags -/

end TaggedRegistry

/-- What the rest of the kernel uses of an entry. -/
def FullEntry.toEntry (entry : FullEntry) : AgentEntry where
  id := entry.id
  name := entry.name
  manifest := entry.manifest.toAgentManifest
  state := entry.state
  mode := entry.mode
  parent := entry.parent
  children := entry.children
  sessionId := entry.sessionId

namespace TaggedRegistry

/-- The registry without the tag index, as the rest of the kernel sees it. -/
def toAgentRegistry (r : TaggedRegistry) : AgentRegistry where
  agents := r.agents.map FullEntry.toEntry
  nameIndex := r.nameIndex

/-- What an outcome is without the tags. -/
def Outcome.forget (o : Outcome) : Except RustyHandError AgentRegistry :=
  o.1.map fun _ => o.2.toAgentRegistry

theorem get_toAgentRegistry (r : TaggedRegistry) (id : AgentId) :
    r.toAgentRegistry.get id = (r.get id).map FullEntry.toEntry :=
  Table.lookup_map (fun _ => rfl) id r.agents

theorem forget_register (r : TaggedRegistry) (entry : FullEntry) :
    (r.register entry).forget = r.toAgentRegistry.register entry.toEntry := by
  have hname : (Table.lookup Prod.fst entry.toEntry.name r.toAgentRegistry.nameIndex).isSome =
      (r.idOf entry.name).isSome := by
    rw [idOf, Option.isSome_map]
    rfl
  have hagents : Table.upsert AgentEntry.id entry.toEntry r.toAgentRegistry.agents =
      (Table.upsert FullEntry.id entry r.agents).map FullEntry.toEntry :=
    Table.upsert_map (fun _ => rfl) entry r.agents
  unfold AgentRegistry.register register
  rw [hname, hagents]
  split
  · rfl
  · rfl

theorem forget_remove (r : TaggedRegistry) (id : AgentId) :
    (r.remove id).forget = (r.toAgentRegistry.remove id).map Prod.snd := by
  have hagents : Table.erase AgentEntry.id id r.toAgentRegistry.agents =
      (Table.erase FullEntry.id id r.agents).map FullEntry.toEntry :=
    Table.erase_map (fun _ => rfl) id r.agents
  unfold AgentRegistry.remove remove
  rw [get_toAgentRegistry, hagents]
  cases r.get id with
  | none => rfl
  | some entry => rfl

theorem forget_update {f : FullEntry → FullEntry} {g : AgentEntry → AgentEntry}
    (hfg : ∀ e, (f e).toEntry = g e.toEntry) (r : TaggedRegistry) (id : AgentId) (now : ℤ) :
    (r.update id now f).forget = r.toAgentRegistry.update id g := by
  have hwrite (e : FullEntry) : FullEntry.toEntry { f e with lastActive := now } = g e.toEntry :=
    hfg e
  have hagents : Table.modify AgentEntry.id id g r.toAgentRegistry.agents =
      (Table.modify FullEntry.id id (fun e => { f e with lastActive := now }) r.agents).map
        FullEntry.toEntry :=
    Table.modify_map (fun _ => rfl) hwrite id r.agents
  unfold AgentRegistry.update update
  rw [get_toAgentRegistry, hagents]
  cases r.get id with
  | none => rfl
  | some entry => rfl

theorem forget_setState (r : TaggedRegistry) (id : AgentId) (now : ℤ) (state : AgentState) :
    (r.setState id now state).forget = r.toAgentRegistry.setState id state :=
  forget_update (fun _ => rfl) r id now

theorem forget_setMode (r : TaggedRegistry) (id : AgentId) (now : ℤ) (mode : AgentMode) :
    (r.setMode id now mode).forget = r.toAgentRegistry.setMode id mode :=
  forget_update (fun _ => rfl) r id now

theorem forget_updateSessionId (r : TaggedRegistry) (id : AgentId) (now : ℤ)
    (newSessionId : SessionId) : (r.updateSessionId id now newSessionId).forget =
      r.toAgentRegistry.updateSessionId id newSessionId :=
  forget_update (fun _ => rfl) r id now

theorem toAgentRegistry_addChild (r : TaggedRegistry) (parentId childId : AgentId) :
    (r.addChild parentId childId).toAgentRegistry =
      r.toAgentRegistry.addChild parentId childId := by
  have hagents : Table.modify AgentEntry.id parentId
      (fun e => { e with children := e.children ++ [childId] }) r.toAgentRegistry.agents =
      (r.addChild parentId childId).agents.map FullEntry.toEntry :=
    Table.modify_map (g := FullEntry.toEntry) (fun _ => rfl) (fun _ => rfl) parentId r.agents
  exact congrArg (AgentRegistry.mk · _) hagents.symm

end TaggedRegistry

end RustyHand
