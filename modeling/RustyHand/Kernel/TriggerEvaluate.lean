import RustyHand.Kernel.Triggers
import RustyHand.Types.Event

/-!
# Evaluating triggers against an event

`matches_pattern` and `evaluate` of `rusty-hand-kernel/src/triggers.rs` for every event.

* `TriggerPattern.matchesEvent`, `Visit`: what the loop of `evaluate` does with one trigger;
* `evaluate`: the triggers after it, who is told what, and whether it has to be persisted;
* `evaluate_spawned`, `evaluate_custom`: the events of spawns and of tools.
-/

namespace RustyHand

/-- `matches_pattern`. -/
def TriggerPattern.matchesEvent (text : EventText) (payload : EventPayload)
    (description : String) : TriggerPattern → Bool
  | all => true
  | lifecycle =>
    match payload with
    | .lifecycle _ => true
    | _ => false
  | agentSpawned namePattern =>
    match payload with
    | .lifecycle (.spawned _ name) =>
      if namePattern = "*" then true
      else if namePattern = "" then false
      else Text.containsText name namePattern
    | _ => false
  | agentTerminated =>
    match payload with
    | .lifecycle (.terminated _ _) => true
    | .lifecycle (.crashed _ _) => true
    | _ => false
  | system =>
    match payload with
    | .system _ => true
    | _ => false
  | systemKeyword keyword =>
    match payload with
    | .system event =>
      if keyword = "" then false
      else Text.containsText (text.toLowercase (text.debugSystem event)) (text.toLowercase keyword)
    | _ => false
  | memoryUpdate =>
    match payload with
    | .memoryUpdate _ _ _ => true
    | _ => false
  | memoryKeyPattern keyPattern =>
    match payload with
    | .memoryUpdate _ key _ =>
      if keyPattern = "*" then true
      else if keyPattern = "" then false
      else Text.containsText key keyPattern
    | _ => false
  | contentMatch substring =>
    if substring = "" then false
    else Text.containsText (text.toLowercase description) (text.toLowercase substring)

/-- What the loop of `evaluate` comes to with a trigger. -/
inductive Visit
  | skipped
  | exhausted
  | fired
  | unmatched
  deriving DecidableEq

namespace Trigger

/-- How the loop of `evaluate` takes a trigger. -/
def visit (text : EventText) (payload : EventPayload) (t : Trigger) : Visit :=
  if !t.enabled then .skipped
  else if 0 < t.maxFires ∧ t.maxFires ≤ t.fireCount then .exhausted
  else if t.pattern.matchesEvent text payload (text.describe payload) then .fired
  else .unmatched

/-- The trigger after it. -/
def afterVisit (t : Trigger) : Visit → Trigger
  | .exhausted => { t with enabled := false }
  | .fired => { t with fireCount := t.fireCount + 1 }
  | _ => t

/-- The trigger after an event. -/
def after (text : EventText) (payload : EventPayload) (t : Trigger) : Trigger :=
  t.afterVisit (t.visit text payload)

/-- The agent that a trigger tells, and what. -/
def notice (text : EventText) (payload : EventPayload) (t : Trigger) : AgentId × String :=
  (t.agentId, Text.replace t.promptTemplate "\x7b\x7bevent\x7d\x7d" (text.describe payload))

variable {text : EventText} {payload : EventPayload} {t : Trigger}

@[simp] theorem after_id : (t.after text payload).id = t.id := by
  unfold after afterVisit
  split <;> rfl

@[simp] theorem after_agentId : (t.after text payload).agentId = t.agentId := by
  unfold after afterVisit
  split <;> rfl

@[simp] theorem after_maxFires : (t.after text payload).maxFires = t.maxFires := by
  unfold after afterVisit
  split <;> rfl

theorem fireCount_after : (t.after text payload).fireCount =
    t.fireCount + if t.visit text payload = .fired then 1 else 0 := by
  unfold after
  cases t.visit text payload <;> rfl

/-- A trigger with a limit fires below it only. -/
theorem lt_of_fired (h : t.visit text payload = .fired) (hlimit : 0 < t.maxFires) :
    t.fireCount < t.maxFires := by
  unfold visit at h
  split_ifs at h with henabled hexhausted hmatch
  omega

/-- What is neither exhausted nor fired stays. -/
theorem after_eq_self (hexhausted : t.visit text payload ≠ .exhausted)
    (hfired : t.visit text payload ≠ .fired) : t.after text payload = t := by
  unfold after afterVisit
  split
  · contradiction
  · contradiction
  · rfl

end Trigger

/-- The triggers that fire at an event. -/
def firedBy (text : EventText) (payload : EventPayload) (triggers : List Trigger) : List Trigger :=
  triggers.filter fun t => t.visit text payload = .fired

/-- Is there anything to persist (`mutated` of `evaluate`)? -/
def mutatedBy (text : EventText) (payload : EventPayload) (triggers : List Trigger) : Bool :=
  triggers.any fun t => t.visit text payload = .exhausted || t.visit text payload = .fired

variable {text : EventText} {payload : EventPayload} {triggers : List Trigger}

theorem map_after_of_not_mutatedBy (h : mutatedBy text payload triggers = false) :
    triggers.map (Trigger.after text payload) = triggers := by
  have hself (t : Trigger) (ht : t ∈ triggers) : t.after text payload = t := by
    have hvisit := List.any_eq_false.1 h t ht
    simp only [Bool.or_eq_true, decide_eq_true_eq, not_or] at hvisit
    exact Trigger.after_eq_self hvisit.1 hvisit.2
  rw [List.map_congr_left hself, List.map_id']

namespace TriggerEngine

/-- `evaluate`: who is told what, and the engine after it. -/
def evaluate (text : EventText) (payload : EventPayload) (e : TriggerEngine) :
    List (AgentId × String) × TriggerEngine :=
  ((firedBy text payload e.triggers).map (Trigger.notice text payload),
    { e with triggers := e.triggers.map (Trigger.after text payload) })

theorem matchesEvent_spawned (text : EventText) (agentId : AgentId) (name description : String)
    (pattern : TriggerPattern) :
    pattern.matchesEvent text (.lifecycle (.spawned agentId name)) description =
      pattern.matchesSpawned text.toLowercase name description := by
  cases pattern <;> rfl

theorem matchesEvent_custom (text : EventText) (data : List UInt8) (description : String)
    (pattern : TriggerPattern) : pattern.matchesEvent text (.custom data) description =
      pattern.matchesCustom text.toLowercase description := by
  cases pattern <;> rfl

theorem evaluate_spawned (text : EventText) (agentId : AgentId) (name : String)
    (e : TriggerEngine) : (e.evaluate text (.lifecycle (.spawned agentId name))).2 =
      e.evaluateSpawned text.toLowercase name
        (text.describe (.lifecycle (.spawned agentId name))) := by
  have hafter (t : Trigger) : t.after text (.lifecycle (.spawned agentId name)) =
      fireSpawned text.toLowercase name (text.describe (.lifecycle (.spawned agentId name))) t := by
    unfold Trigger.after Trigger.visit fireSpawned
    rw [matchesEvent_spawned]
    by_cases henabled : t.enabled = true
    · simp only [henabled, Bool.not_true, Bool.false_eq_true, if_false, if_true]
      split_ifs
      · rfl
      · simp [Trigger.afterVisit, henabled]
      · rfl
    · simp only [henabled, Bool.not_false, Bool.false_eq_true, if_false, if_true]
      rfl
  unfold evaluate TriggerEngine.evaluateSpawned
  rw [List.map_congr_left fun t _ => hafter t]

/-- An event that a tool publishes. -/
theorem evaluate_custom (text : EventText) (data : List UInt8) (e : TriggerEngine) :
    (e.evaluate text (.custom data)).1 =
      e.evaluateCustom text.toLowercase (text.describe (.custom data)) := by
  have hfires (t : Trigger) : decide (t.visit text (.custom data) = .fired) =
      firesCustom text.toLowercase (text.describe (.custom data)) t := by
    unfold Trigger.visit firesCustom
    rw [matchesEvent_custom]
    cases t.enabled with
    | false => rfl
    | true =>
      by_cases hlimit : 0 < t.maxFires ∧ t.maxFires ≤ t.fireCount
      · simp [hlimit]
      · have hbelow : t.maxFires = 0 ∨ t.fireCount < t.maxFires := by omega
        cases t.pattern.matchesCustom text.toLowercase (text.describe (.custom data)) with
        | false => simp [hlimit]
        | true => simpa [hlimit] using hbelow
  unfold evaluate evaluateCustom firedBy
  rw [List.filter_congr fun t _ => hfires t]
  rfl

end TriggerEngine
end RustyHand
