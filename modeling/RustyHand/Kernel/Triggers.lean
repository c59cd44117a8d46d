import RustyHand.Types.Agent
import RustyHand.Lib.Table

/-!
# Triggers

`rusty-hand-kernel/src/triggers.rs`: the triggers of the agents, the index by agent, and what the
event of a spawn does to them; and `parse_condition` of `background.rs`.  The index is the list of
its pairs, and the ids that `TriggerId::new` draws are the values of a counter.

* `TriggerPattern`, `Trigger`, `TriggerEngine`;
* `register`, `remove`, `removeAgentTriggers`, `evaluateSpawned`;
* `WellFormed`: the index holds exactly the triggers, each under its agent.
-/

namespace RustyHand

/-- `TriggerId`. -/
abbrev TriggerId := ℕ

/-- `TriggerPattern`. -/
inductive TriggerPattern
  | lifecycle
  | agentSpawned (namePattern : String)
  | agentTerminated
  | system
  | systemKeyword (keyword : String)
  | memoryUpdate
  | memoryKeyPattern (keyPattern : String)
  | all
  | contentMatch (substring : String)

/-- `Trigger`, without its time. -/
structure Trigger where
  id : TriggerId
  agentId : AgentId
  pattern : TriggerPattern
  promptTemplate : String
  enabled : Bool := true
  fireCount : ℕ := 0
  maxFires : ℕ

/-- How often the trigger can still fire; no limit where there is none. -/
def Trigger.remainingFires (t : Trigger) : Option ℕ :=
  if t.maxFires = 0 then none else some (t.maxFires - t.fireCount)

/-- What a trigger is to its agent: the pattern, the prompt and the remaining fires. -/
def Trigger.view (t : Trigger) : TriggerPattern × String × Option ℕ :=
  (t.pattern, t.promptTemplate, t.remainingFires)

/-- `matches_pattern`, for the event of a spawn. -/
def TriggerPattern.matchesSpawned (toLowercase : String → String) (name description : String) :
    TriggerPattern → Bool
  | all => true
  | lifecycle => true
  | agentSpawned namePattern =>
    if namePattern = "*" then true
    else if namePattern = "" then false
    else Text.containsText name namePattern
  | contentMatch substring =>
    if substring = "" then false
    else Text.containsText (toLowercase description) (toLowercase substring)
  | _ => false

/-- `matches_pattern`, for an event of another kind that a tool publishes. -/
def TriggerPattern.matchesCustom (toLowercase : String → String) (description : String) :
    TriggerPattern → Bool
  | all => true
  | contentMatch substring =>
    if substring = "" then false
    else Text.containsText (toLowercase description) (toLowercase substring)
  | _ => false

/-- `parse_condition`. -/
def parseCondition (toLowercase : String → String) (condition : String) : Option TriggerPattern :=
  let condition := Text.trim condition
  if condition.toList.map Char.toLower = ['a', 'l', 'l'] then some .all
  else
    match Text.stripStart "event:" condition with
    | some eventKind =>
      match toLowercase (Text.trim eventKind) with
      | "agent_spawned" => some (.agentSpawned "*")
      | "agent_terminated" => some .agentTerminated
      | "lifecycle" => some .lifecycle
      | "system" => some .system
      | "memory_update" => some .memoryUpdate
      | _ => none
    | none =>
      (Text.stripStart "memory:" condition).map fun key => .memoryKeyPattern (Text.trim key)

/-- `TriggerEngine`. -/
structure TriggerEngine where
  triggers : List Trigger := []
  agentTriggers : List (AgentId × TriggerId) := []
  nextTrigger : TriggerId := 0

namespace TriggerEngine

/-- `register`. -/
def register (e : TriggerEngine) (agentId : AgentId) (pattern : TriggerPattern)
    (promptTemplate : String) (maxFires : ℕ) : TriggerEngine :=
  { triggers := e.triggers ++
      [{ id := e.nextTrigger, agentId := agentId, pattern := pattern
         promptTemplate := promptTemplate, maxFires := maxFires }]
    agentTriggers := e.agentTriggers ++ [(agentId, e.nextTrigger)]
    nextTrigger := e.nextTrigger + 1 }

/-- `remove`. -/
def remove (e : TriggerEngine) (id : TriggerId) : TriggerEngine :=
  { e with triggers := Table.erase Trigger.id id e.triggers
           agentTriggers := e.agentTriggers.filter fun p => p.2 ≠ id }

/-- The ids that the index has for an agent. -/
def idsOf (e : TriggerEngine) (agentId : AgentId) : List TriggerId :=
  (e.agentTriggers.filter fun p => p.1 = agentId).map Prod.snd

/-- `remove_agent_triggers`: what the index names. -/
def removeAgentTriggers (e : TriggerEngine) (agentId : AgentId) : TriggerEngine :=
  { e with triggers := e.triggers.filter fun t => !(e.idsOf agentId).contains t.id
           agentTriggers := e.agentTriggers.filter fun p => p.1 ≠ agentId }

/-- What the event of a spawn does to a trigger (`evaluate`). -/
def fireSpawned (toLowercase : String → String) (name description : String) (t : Trigger) :
    Trigger :=
  if t.enabled then
    if 0 < t.maxFires ∧ t.maxFires ≤ t.fireCount then { t with enabled := false }
    else if t.pattern.matchesSpawned toLowercase name description then
      { t with fireCount := t.fireCount + 1 }
    else t
  else t

/-- `evaluate`, for the event of a spawn. -/
def evaluateSpawned (toLowercase : String → String) (name description : String)
    (e : TriggerEngine) : TriggerEngine :=
  { e with triggers := e.triggers.map (fireSpawned toLowercase name description) }

/-- Whether a trigger fires at an event of another kind (`evaluate`). -/
def firesCustom (toLowercase : String → String) (description : String) (t : Trigger) : Bool :=
  t.enabled && !(0 < t.maxFires && t.maxFires ≤ t.fireCount) &&
    t.pattern.matchesCustom toLowercase description

/-- What `evaluate` returns for an event of another kind: the agents to be told, with the
messages. -/
def evaluateCustom (toLowercase : String → String) (description : String) (e : TriggerEngine) :
    List (AgentId × String) :=
  (e.triggers.filter (firesCustom toLowercase description)).map fun t =>
    (t.agentId, Text.replace t.promptTemplate "\x7b\x7bevent\x7d\x7d" description)

/-- The triggers of an agent. -/
def triggersOf (e : TriggerEngine) (agentId : AgentId) : List Trigger :=
  e.triggers.filter fun t => t.agentId = agentId

/-- The index holds exactly the triggers, each under its agent, and their ids differ and have been
drawn. -/
structure WellFormed (e : TriggerEngine) : Prop where
  ids : Table.UniqueKeys Trigger.id e.triggers
  index : e.agentTriggers = e.triggers.map fun t => (t.agentId, t.id)
  drawn : ∀ t ∈ e.triggers, t.id < e.nextTrigger

variable {e : TriggerEngine} {agentId : AgentId}

theorem WellFormed.empty : WellFormed {} := ⟨List.nodup_nil, rfl, fun _ h => by cases h⟩

theorem WellFormed.register (h : e.WellFormed) (agentId : AgentId) (pattern : TriggerPattern)
    (promptTemplate : String) (maxFires : ℕ) :
    (e.register agentId pattern promptTemplate maxFires).WellFormed := by
  have hfresh : e.nextTrigger ∉ e.triggers.map Trigger.id := by
    intro hmem
    obtain ⟨t, ht, heq⟩ := List.mem_map.1 hmem
    exact absurd heq (h.drawn t ht).ne
  refine ⟨?_, ?_, ?_⟩
  · show (List.map Trigger.id (e.triggers ++ _)).Nodup
    rw [List.map_append, List.nodup_append]
    refine ⟨h.ids, List.nodup_singleton _, ?_⟩
    rintro a ha b hb rfl
    rw [List.map_singleton, List.mem_singleton] at hb
    rw [hb] at ha
    exact hfresh ha
  · show e.agentTriggers ++ _ = List.map _ (e.triggers ++ _)
    rw [h.index, List.map_append]
    rfl
  · intro t ht
    rcases List.mem_append.1 ht with ht | ht
    · exact (h.drawn t ht).trans (Nat.lt_succ_self _)
    · rw [List.mem_singleton.1 ht]
      exact Nat.lt_succ_self _

/-- Triggers without a limit, registered one after the other. -/
theorem WellFormed.foldl_register (h : e.WellFormed) (agentId : AgentId)
    (l : List (TriggerPattern × String)) :
    (l.foldl (fun e p => e.register agentId p.1 p.2 0) e).WellFormed ∧
      ∃ new, (l.foldl (fun e p => e.register agentId p.1 p.2 0) e).triggers = e.triggers ++ new ∧
        (∀ t ∈ new, t.agentId = agentId ∧ t.maxFires = 0) ∧
        new.map Trigger.view = l.map fun p => (p.1, p.2, none) := by
  induction l generalizing e with
  | nil => exact ⟨h, [], (List.append_nil _).symm, fun t ht => absurd ht List.not_mem_nil, rfl⟩
  | cons p l ih =>
    obtain ⟨hwf, new, htriggers, hnew, hviews⟩ := ih (h.register agentId p.1 p.2 0)
    rw [List.foldl_cons]
    refine ⟨hwf, ⟨e.nextTrigger, agentId, p.1, p.2, true, 0, 0⟩ :: new, ?_, ?_, ?_⟩
    · rw [htriggers]
      exact List.append_assoc _ [_] _
    · intro t ht
      rcases List.mem_cons.1 ht with rfl | ht
      · exact ⟨rfl, rfl⟩
      · exact hnew t ht
    · rw [List.map_cons, List.map_cons, hviews]
      rfl

theorem WellFormed.remove (h : e.WellFormed) (id : TriggerId) : (e.remove id).WellFormed := by
  refine ⟨h.ids.erase, ?_, fun t ht => h.drawn t (Table.mem_erase.1 ht).1⟩
  show e.agentTriggers.filter _ = _
  rw [h.index, List.filter_map]
  rfl

/-- The index names just the triggers of the agent. -/
theorem WellFormed.mem_idsOf_iff (h : e.WellFormed) {t : Trigger} (ht : t ∈ e.triggers) :
    t.id ∈ e.idsOf agentId ↔ t.agentId = agentId := by
  rw [idsOf, h.index, List.filter_map, List.map_map]
  constructor
  · intro hmem
    obtain ⟨t', ht', heq⟩ := List.mem_map.1 hmem
    obtain ⟨ht', hagent⟩ := List.mem_filter.1 ht'
    rw [← h.ids.eq ht' ht heq]
    simpa using hagent
  · intro hagent
    exact List.mem_map.2 ⟨t, List.mem_filter.2 ⟨ht, by simpa using hagent⟩, rfl⟩

theorem WellFormed.triggers_removeAgentTriggers (h : e.WellFormed) (agentId : AgentId) :
    (e.removeAgentTriggers agentId).triggers = e.triggers.filter fun t => t.agentId ≠ agentId := by
  refine List.filter_congr fun t ht => ?_
  have hiff : t.id ∈ e.idsOf agentId ↔ t.agentId = agentId := h.mem_idsOf_iff ht
  by_cases hagent : t.agentId = agentId
  · simp [hagent, hiff.2 hagent]
  · have hmem : t.id ∉ e.idsOf agentId := fun hmem => hagent (hiff.1 hmem)
    simp [hagent, hmem]

theorem WellFormed.removeAgentTriggers (h : e.WellFormed) (agentId : AgentId) :
    (e.removeAgentTriggers agentId).WellFormed := by
  refine ⟨?_, ?_, ?_⟩
  · exact h.ids.sublist (List.filter_sublist.map _)
  · rw [h.triggers_removeAgentTriggers]
    show e.agentTriggers.filter _ = _
    rw [h.index, List.filter_map]
    rfl
  · exact fun t ht => h.drawn t (List.mem_filter.1 ht).1

theorem fireSpawned_id (toLowercase : String → String) (name description : String) (t : Trigger) :
    (fireSpawned toLowercase name description t).id = t.id ∧
      (fireSpawned toLowercase name description t).agentId = t.agentId := by
  unfold fireSpawned
  split_ifs <;> exact ⟨rfl, rfl⟩

/-- Firing counts only where there is a limit. -/
theorem view_fireSpawned {toLowercase : String → String} {name description : String} {t : Trigger}
    (ht : t.maxFires = 0) : (fireSpawned toLowercase name description t).view = t.view := by
  unfold fireSpawned
  split_ifs
  · rfl
  · simp [Trigger.view, Trigger.remainingFires, ht]
  · rfl
  · rfl

theorem WellFormed.evaluateSpawned (h : e.WellFormed) (toLowercase : String → String)
    (name description : String) : (e.evaluateSpawned toLowercase name description).WellFormed := by
  refine ⟨?_, ?_, ?_⟩
  · show (List.map Trigger.id (List.map _ e.triggers)).Nodup
    rw [List.map_map]
    have hid : Trigger.id ∘ fireSpawned toLowercase name description = Trigger.id :=
      funext fun t => (fireSpawned_id toLowercase name description t).1
    rw [hid]
    exact h.ids
  · show e.agentTriggers = List.map _ (List.map _ e.triggers)
    rw [h.index, List.map_map]
    refine List.map_congr_left fun t _ => ?_
    obtain ⟨hid, hagent⟩ := fireSpawned_id toLowercase name description t
    show (t.agentId, t.id) = _
    rw [Function.comp_apply, hid, hagent]
  · intro t ht
    obtain ⟨t', ht', rfl⟩ := List.mem_map.1 ht
    rw [(fireSpawned_id toLowercase name description t').1]
    exact h.drawn t' ht'

end TriggerEngine
end RustyHand
