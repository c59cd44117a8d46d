import RustyHand.Kernel.TriggerEvaluate
import RustyHand.Lib.InvertedIndex
import RustyHand.Lib.Runs

/-!
# Triggers over the lifetimes of the process

`TriggerEngine::with_persistence` and what it persists, of `rusty-hand-kernel/src/triggers.rs`.
The index is a map from an agent to the list of its trigger ids, as the source has it; the file is
what the last `persist` has written, every one of which succeeds, and the ids that
`TriggerId::new` draws are the values of a counter that no restart resets.

* `PersistentEngine`, its operations, `load`;
* `TriggerHost`: the engine, the file, and the fires so far, over all lifetimes;
* `Kept`: what every operation and every restart keep;
* `fires_le_and_index_exact`, `plain_run`.
-/

namespace RustyHand

/-- `TriggerEngine`, with its two maps. -/
structure PersistentEngine where
  triggers : List Trigger := []
  agentTriggers : List (AgentId × List TriggerId) := []

namespace PersistentEngine

/-- The ids that the index has for an agent. -/
def idsOf (e : PersistentEngine) (agentId : AgentId) : List TriggerId :=
  InvertedIndex.idsUnder agentId e.agentTriggers

/-- `get`. -/
def get (e : PersistentEngine) (id : TriggerId) : Option Trigger :=
  Table.lookup Trigger.id id e.triggers

/-- A trigger put into the two maps. -/
def insert (e : PersistentEngine) (t : Trigger) : PersistentEngine where
  triggers := Table.upsert Trigger.id t e.triggers
  agentTriggers := InvertedIndex.push t.agentId t.id e.agentTriggers

/-- `with_persistence`, on what the file holds. -/
def load (file : Option (List Trigger)) : PersistentEngine := (file.getD []).foldl insert {}

/-- `register`, with the id that has been drawn. -/
def register (e : PersistentEngine) (id : TriggerId) (agentId : AgentId) (pattern : TriggerPattern)
    (promptTemplate : String) (maxFires : ℕ) : PersistentEngine :=
  e.insert { id := id, agentId := agentId, pattern := pattern
             promptTemplate := promptTemplate, maxFires := maxFires }

/-- `remove`; nothing if there is no such trigger. -/
def remove (e : PersistentEngine) (id : TriggerId) : Option PersistentEngine :=
  (e.get id).map fun t =>
    { triggers := Table.erase Trigger.id id e.triggers
      agentTriggers := InvertedIndex.retain t.agentId id e.agentTriggers }

/-- `remove_agent_triggers`; nothing if the index does not have the agent. -/
def removeAgentTriggers (e : PersistentEngine) (agentId : AgentId) : Option PersistentEngine :=
  (Table.lookup Prod.fst agentId e.agentTriggers).map fun row =>
    { triggers := row.2.foldl (fun triggers id => Table.erase Trigger.id id triggers) e.triggers
      agentTriggers := Table.erase Prod.fst agentId e.agentTriggers }

/-- `set_enabled`; nothing if there is no such trigger. -/
def setEnabled (e : PersistentEngine) (id : TriggerId) (enabled : Bool) :
    Option PersistentEngine :=
  (e.get id).map fun _ =>
    let enable := fun t : Trigger => { t with enabled := enabled }
    { e with triggers := Table.modify Trigger.id id enable e.triggers }

/-- `evaluate`; the engine after it if there is anything to persist. -/
def evaluate (text : EventText) (payload : EventPayload) (e : PersistentEngine) :
    List (AgentId × String) × Option PersistentEngine :=
  ((firedBy text payload e.triggers).map (Trigger.notice text payload),
    if mutatedBy text payload e.triggers then
      some { e with triggers := e.triggers.map (Trigger.after text payload) }
    else none)

/-- The agent that a trigger belongs to; none if there is no such trigger. -/
def ownersOf (e : PersistentEngine) (id : TriggerId) : List AgentId :=
  ((e.get id).map Trigger.agentId).toList

/-- The ids of the triggers differ, and the index is the inverse of the map. -/
structure Indexed (e : PersistentEngine) : Prop where
  ids : Table.UniqueKeys Trigger.id e.triggers
  index : InvertedIndex.Exact e.ownersOf e.agentTriggers

variable {e e' : PersistentEngine} {t : Trigger} {id : TriggerId} {agentId : AgentId}

theorem Indexed.empty : Indexed {} := ⟨List.nodup_nil, InvertedIndex.Exact.nil⟩

theorem Indexed.get_eq_some_iff (h : e.Indexed) :
    e.get id = some t ↔ t ∈ e.triggers ∧ t.id = id :=
  Table.lookup_eq_some_iff h.ids

/-- Each id stands once, under its agent, and no other id stands anywhere. -/
theorem Indexed.count_idsOf (h : e.Indexed) (agentId : AgentId) (id : TriggerId) :
    (e.idsOf agentId).count id =
      if (e.get id).map Trigger.agentId = some agentId then 1 else 0 := by
  refine (h.index id agentId).trans ?_
  unfold ownersOf
  cases (e.get id).map Trigger.agentId with
  | none => rfl
  | some owner =>
    by_cases howner : owner = agentId
    · simp [howner]
    · simp [howner]

theorem Indexed.mem_idsOf_iff (h : e.Indexed) (ht : t ∈ e.triggers) :
    t.id ∈ e.idsOf agentId ↔ t.agentId = agentId := by
  rw [idsOf, h.index.mem_iff, ownersOf, h.get_eq_some_iff.2 ⟨ht, rfl⟩]
  simp [eq_comm]

theorem Indexed.insert (h : e.Indexed) (hfresh : t.id ∉ e.triggers.map Trigger.id) :
    (e.insert t).Indexed ∧ (e.insert t).triggers = e.triggers ++ [t] := by
  have hnone : e.ownersOf t.id = [] := by
    rw [ownersOf, PersistentEngine.get, Table.lookup_eq_none_iff.2 hfresh]
    rfl
  have hget (i : TriggerId) : (e.insert t).get i = if i = t.id then some t else e.get i :=
    Table.lookup_upsert i t e.triggers
  have hnew : (e.insert t).ownersOf t.id = [t.agentId] := by
    rw [ownersOf, hget, if_pos rfl]
    rfl
  have hother (i : TriggerId) (hi : i ≠ t.id) : (e.insert t).ownersOf i = e.ownersOf i := by
    rw [ownersOf, hget, if_neg hi, ownersOf]
  have hindex := h.index.pushAll hnone hother
  rw [hnew] at hindex
  exact ⟨⟨h.ids.upsert, hindex⟩, Table.upsert_of_not_mem hfresh⟩

/-- Loading rows whose ids differ gives their triggers, with the index that belongs to them. -/
theorem Indexed.foldl_insert {rows : List Trigger} (h : e.Indexed)
    (hids : Table.UniqueKeys Trigger.id (e.triggers ++ rows)) :
    (rows.foldl PersistentEngine.insert e).Indexed ∧
      (rows.foldl PersistentEngine.insert e).triggers = e.triggers ++ rows := by
  induction rows generalizing e with
  | nil => exact ⟨h, (List.append_nil _).symm⟩
  | cons t rows ih =>
    have hfresh : t.id ∉ e.triggers.map Trigger.id := by
      intro hmem
      rw [Table.UniqueKeys, List.map_append, List.map_cons] at hids
      exact (List.nodup_append.1 hids).2.2 _ hmem _ List.mem_cons_self rfl
    obtain ⟨hindexed, htriggers⟩ := h.insert hfresh
    rw [List.foldl_cons]
    have hrest := ih hindexed (by rwa [htriggers, List.append_assoc])
    rw [htriggers, List.append_assoc] at hrest
    exact hrest

/-- A change of a trigger in place that keeps its id and its agent. -/
theorem Indexed.map {f : Trigger → Trigger} (h : e.Indexed) (hid : ∀ t, (f t).id = t.id)
    (hagent : ∀ t, (f t).agentId = t.agentId) :
    Indexed { e with triggers := e.triggers.map f } := by
  have howners : ownersOf { e with triggers := e.triggers.map f } = e.ownersOf := by
    funext i
    unfold ownersOf PersistentEngine.get
    rw [Table.lookup_map hid, Option.map_map]
    exact congrArg (fun g => (Option.map g _).toList) (funext hagent)
  refine ⟨h.ids.map hid, ?_⟩
  rw [howners]
  exact h.index

theorem Indexed.setEnabled {enabled : Bool} (h : e.Indexed)
    (hset : e.setEnabled id enabled = some e') : e'.Indexed := by
  obtain ⟨t, -, rfl⟩ := Option.map_eq_some_iff.1 hset
  refine h.map (fun t => ?_) fun t => ?_
  · split <;> rfl
  · split <;> rfl

theorem Indexed.remove (h : e.Indexed) (hremove : e.remove id = some e') : e'.Indexed := by
  obtain ⟨t, hget, rfl⟩ := Option.map_eq_some_iff.1 hremove
  have hgone : ownersOf ⟨Table.erase Trigger.id id e.triggers,
      InvertedIndex.retain t.agentId id e.agentTriggers⟩ id = [] := by
    unfold ownersOf PersistentEngine.get
    rw [Table.lookup_erase]
    rfl
  have hold : e.ownersOf id = [t.agentId] := by
    rw [ownersOf, hget]
    rfl
  have hindex := h.index.retainAll hgone fun i hi => by
    unfold ownersOf PersistentEngine.get
    rw [Table.lookup_erase_of_ne hi]
  rw [hold] at hindex
  exact ⟨h.ids.erase, hindex⟩

theorem foldl_erase (ids : List TriggerId) (triggers : List Trigger) :
    ids.foldl (fun triggers id => Table.erase Trigger.id id triggers) triggers =
      triggers.filter fun t => !ids.contains t.id := by
  induction ids generalizing triggers with
  | nil => simp
  | cons id ids ih =>
    rw [List.foldl_cons, ih, Table.erase, List.filter_filter]
    refine List.filter_congr fun t _ => ?_
    by_cases hid : t.id = id
    · simp [hid]
    · simp [hid]

theorem Indexed.removeAgentTriggers (h : e.Indexed)
    (hremove : e.removeAgentTriggers agentId = some e') :
    e'.Indexed ∧ e'.triggers = e.triggers.filter fun t => t.agentId ≠ agentId := by
  obtain ⟨row, hrow, rfl⟩ := Option.map_eq_some_iff.1 hremove
  have hids : row.2 = e.idsOf agentId := by
    rw [idsOf, InvertedIndex.idsUnder, hrow]
    rfl
  have htriggers : row.2.foldl (fun triggers id => Table.erase Trigger.id id triggers) e.triggers =
      e.triggers.filter fun t => t.agentId ≠ agentId := by
    rw [foldl_erase]
    refine List.filter_congr fun t ht => ?_
    have hmem : t.id ∈ row.2 ↔ t.agentId = agentId := by rw [hids, h.mem_idsOf_iff ht]
    by_cases hagent : t.agentId = agentId
    · simp [hagent, hmem.2 hagent]
    · have hnot : t.id ∉ row.2 := fun hin => hagent (hmem.1 hin)
      simp [hagent, hnot]
  refine ⟨⟨?_, h.index.erase fun i => ?_⟩, htriggers⟩
  · show Table.UniqueKeys Trigger.id (row.2.foldl _ _)
    rw [htriggers]
    exact h.ids.sublist (List.filter_sublist.map _)
  · show ((Table.lookup Trigger.id i (row.2.foldl _ _)).map Trigger.agentId).toList = _
    rw [htriggers, h.ids.lookup_filter, ownersOf, PersistentEngine.get]
    cases Table.lookup Trigger.id i e.triggers with
    | none => rfl
    | some t =>
      by_cases hagent : t.agentId = agentId
      · simp [hagent]
      · simp [hagent]

theorem Indexed.evaluate {text : EventText} {payload : EventPayload} (h : e.Indexed)
    (heval : (e.evaluate text payload).2 = some e') : e'.Indexed := by
  unfold PersistentEngine.evaluate at heval
  split_ifs at heval with hmutated
  cases heval
  exact h.map (fun _ => Trigger.after_id) fun _ => Trigger.after_agentId

end PersistentEngine

/-- An operation of the engine, or the end of the process and a start on the same file. -/
inductive TriggerOp
  | register (agentId : AgentId) (pattern : TriggerPattern) (promptTemplate : String)
      (maxFires : ℕ)
  | remove (id : TriggerId)
  | removeAgentTriggers (agentId : AgentId)
  | setEnabled (id : TriggerId) (enabled : Bool)
  | evaluate (payload : EventPayload)
  | restart

/-- The engine and its file.  `limits` and `fires` record the registrations, each with its
`max_fires`, and the ids of the triggers that have fired, over all lifetimes. -/
structure TriggerHost where
  engine : PersistentEngine := {}
  file : Option (List Trigger) := none
  nextTrigger : TriggerId := 0
  limits : List (TriggerId × ℕ) := []
  fires : List TriggerId := []

namespace TriggerHost

/-- After an operation that has changed the engine, and persisted it. -/
def persisted (h : TriggerHost) (engine : PersistentEngine) : TriggerHost :=
  { h with engine := engine, file := some engine.triggers }

/-- After an operation that changes the engine only if it finds what it is about. -/
def persistedIf (h : TriggerHost) (engine : Option PersistentEngine) : TriggerHost :=
  match engine with
  | none => h
  | some engine => h.persisted engine

/-- What an operation does. -/
def apply (text : EventText) (h : TriggerHost) : TriggerOp → TriggerHost
  | .register agentId pattern promptTemplate maxFires =>
    let id := h.nextTrigger
    { h.persisted (h.engine.register id agentId pattern promptTemplate maxFires) with
      nextTrigger := id + 1
      limits := h.limits ++ [(id, maxFires)] }
  | .remove id => h.persistedIf (h.engine.remove id)
  | .removeAgentTriggers agentId => h.persistedIf (h.engine.removeAgentTriggers agentId)
  | .setEnabled id enabled => h.persistedIf (h.engine.setEnabled id enabled)
  | .evaluate payload =>
    { h.persistedIf (h.engine.evaluate text payload).2 with
      fires := h.fires ++ (firedBy text payload h.engine.triggers).map Trigger.id }
  | .restart => { h with engine := PersistentEngine.load h.file }

/-- What every operation and every restart keep. -/
structure Kept (h : TriggerHost) : Prop where
  indexed : h.engine.Indexed
  saved : h.file.getD [] = h.engine.triggers
  limits : Table.UniqueKeys Prod.fst h.limits
  drawn : ∀ p ∈ h.limits, p.1 < h.nextTrigger
  fired : ∀ id ∈ h.fires, id < h.nextTrigger
  counted : ∀ t ∈ h.engine.triggers,
    (t.id, t.maxFires) ∈ h.limits ∧ h.fires.count t.id = t.fireCount
  bounded : ∀ p ∈ h.limits, 0 < p.2 → h.fires.count p.1 ≤ p.2

variable {h : TriggerHost} {text : EventText}

theorem Kept.empty : Kept {} where
  indexed := PersistentEngine.Indexed.empty
  saved := rfl
  limits := List.nodup_nil
  drawn _ hp := absurd hp List.not_mem_nil
  fired _ hid := absurd hid List.not_mem_nil
  counted _ ht := absurd ht List.not_mem_nil
  bounded _ hp := absurd hp List.not_mem_nil

theorem Kept.id_lt (hkept : h.Kept) {t : Trigger} (ht : t ∈ h.engine.triggers) :
    t.id < h.nextTrigger :=
  hkept.drawn _ (hkept.counted t ht).1

theorem Kept.fresh (hkept : h.Kept) : h.nextTrigger ∉ h.engine.triggers.map Trigger.id := by
  intro hmem
  obtain ⟨t, ht, hid⟩ := List.mem_map.1 hmem
  exact (hkept.id_lt ht).ne hid

/-- An operation that persists the engine with no other triggers than before, each as often fired
and with the same limit. -/
theorem Kept.persistedIf {engine : Option PersistentEngine} (hkept : h.Kept)
    (hindexed : ∀ e, engine = some e → e.Indexed)
    (hold : ∀ e, engine = some e → ∀ t ∈ e.triggers, ∃ t' ∈ h.engine.triggers,
      t'.id = t.id ∧ t'.maxFires = t.maxFires ∧ t'.fireCount = t.fireCount) :
    (h.persistedIf engine).Kept := by
  cases engine with
  | none => exact hkept
  | some e =>
    refine ⟨hindexed e rfl, rfl, hkept.limits, hkept.drawn, hkept.fired, fun t ht => ?_,
      hkept.bounded⟩
    obtain ⟨t', ht', hid, hmax, hcount⟩ := hold e rfl t ht
    rw [← hid, ← hmax, ← hcount]
    exact hkept.counted t' ht'

theorem Kept.register (hkept : h.Kept) (agentId : AgentId) (pattern : TriggerPattern)
    (promptTemplate : String) (maxFires : ℕ) :
    (h.apply text (.register agentId pattern promptTemplate maxFires)).Kept := by
  have hnew : h.nextTrigger ∉ h.limits.map Prod.fst := by
    intro hmem
    obtain ⟨p, hp, hid⟩ := List.mem_map.1 hmem
    exact (hkept.drawn p hp).ne hid
  have hnever : h.fires.count h.nextTrigger = 0 :=
    List.count_eq_zero.2 fun hmem => Nat.lt_irrefl _ (hkept.fired _ hmem)
  obtain ⟨hindexed, htriggers⟩ := hkept.indexed.insert
    (t := { id := h.nextTrigger, agentId := agentId, pattern := pattern
            promptTemplate := promptTemplate, maxFires := maxFires }) hkept.fresh
  refine ⟨hindexed, rfl, ?_, ?_, ?_, ?_, ?_⟩
  · show Table.UniqueKeys Prod.fst (h.limits ++ [(h.nextTrigger, maxFires)])
    rw [← Table.upsert_of_not_mem (x := (h.nextTrigger, maxFires)) hnew]
    exact hkept.limits.upsert
  · intro p hp
    show p.1 < h.nextTrigger + 1
    rcases List.mem_append.1 hp with hp | hp
    · exact (hkept.drawn p hp).trans (Nat.lt_succ_self _)
    · rw [List.mem_singleton.1 hp]
      exact Nat.lt_succ_self _
  · intro id hid
    exact (hkept.fired id hid).trans (Nat.lt_succ_self _)
  · intro t ht
    have ht : t ∈ (h.engine.register h.nextTrigger agentId pattern promptTemplate
      maxFires).triggers := ht
    rw [PersistentEngine.register, htriggers] at ht
    rcases List.mem_append.1 ht with ht | ht
    · obtain ⟨hlimit, hcount⟩ := hkept.counted t ht
      exact ⟨List.mem_append_left _ hlimit, hcount⟩
    · rw [List.mem_singleton.1 ht]
      exact ⟨List.mem_append_right _ List.mem_cons_self, hnever⟩
  · intro p hp hpos
    show h.fires.count p.1 ≤ p.2
    rcases List.mem_append.1 hp with hp | hp
    · exact hkept.bounded p hp hpos
    · rw [List.mem_singleton.1 hp, hnever]
      exact Nat.zero_le _

/-- How often an event makes a trigger fire: once, if it fires. -/
theorem count_firedBy {payload : EventPayload} {triggers : List Trigger} {t : Trigger}
    (hids : Table.UniqueKeys Trigger.id triggers) (ht : t ∈ triggers) :
    ((firedBy text payload triggers).map Trigger.id).count t.id =
      if t.visit text payload = .fired then 1 else 0 := by
  have hnodup : ((firedBy text payload triggers).map Trigger.id).Nodup :=
    hids.sublist (List.filter_sublist.map _)
  by_cases hfired : t.visit text payload = .fired
  · rw [if_pos hfired]
    refine List.count_eq_one_of_mem hnodup (List.mem_map_of_mem ?_)
    exact List.mem_filter.2 ⟨ht, by simpa using hfired⟩
  · rw [if_neg hfired, List.count_eq_zero]
    intro hmem
    obtain ⟨t', ht', hid⟩ := List.mem_map.1 hmem
    obtain ⟨hin, hvisit⟩ := List.mem_filter.1 ht'
    rw [hids.eq hin ht hid] at hvisit
    exact hfired (by simpa using hvisit)

/-- The triggers after an event, also where there was nothing to persist. -/
theorem triggers_evaluate (h : TriggerHost) (text : EventText) (payload : EventPayload) :
    (h.apply text (.evaluate payload)).engine.triggers =
      h.engine.triggers.map (Trigger.after text payload) := by
  show (h.persistedIf (if _ then _ else _)).engine.triggers = _
  cases hmutated : mutatedBy text payload h.engine.triggers with
  | true => rfl
  | false => exact (map_after_of_not_mutatedBy hmutated).symm

theorem Kept.evaluate (hkept : h.Kept) (payload : EventPayload) :
    (h.apply text (.evaluate payload)).Kept := by
  have htriggers := triggers_evaluate h text payload
  have hcount (id : TriggerId) : (h.apply text (.evaluate payload)).fires.count id =
      h.fires.count id +
        ((firedBy text payload h.engine.triggers).map Trigger.id).count id :=
    List.count_append
  have hkeep : (h.apply text (.evaluate payload)).limits = h.limits ∧
      (h.apply text (.evaluate payload)).nextTrigger = h.nextTrigger := by
    show (h.persistedIf _).limits = _ ∧ (h.persistedIf _).nextTrigger = _
    cases (h.engine.evaluate text payload).2 <;> exact ⟨rfl, rfl⟩
  refine ⟨?_, ?_, ?_, ?_, ?_, ?_, ?_⟩
  · show (h.persistedIf _).engine.Indexed
    cases heval : (h.engine.evaluate text payload).2 with
    | none => exact hkept.indexed
    | some e => exact hkept.indexed.evaluate heval
  · show (h.persistedIf _).file.getD [] = (h.persistedIf _).engine.triggers
    cases (h.engine.evaluate text payload).2 with
    | none => exact hkept.saved
    | some e => rfl
  · rw [hkeep.1]
    exact hkept.limits
  · rw [hkeep.1, hkeep.2]
    exact hkept.drawn
  · intro id hid
    rw [hkeep.2]
    rcases List.mem_append.1 hid with hid | hid
    · exact hkept.fired id hid
    · obtain ⟨t, ht, rfl⟩ := List.mem_map.1 hid
      exact hkept.id_lt (List.mem_filter.1 ht).1
  · intro t ht
    rw [htriggers] at ht
    obtain ⟨t', ht', rfl⟩ := List.mem_map.1 ht
    obtain ⟨hlimit, hfires⟩ := hkept.counted t' ht'
    rw [Trigger.after_id, Trigger.after_maxFires, hkeep.1, hcount, hfires,
      count_firedBy hkept.indexed.ids ht', Trigger.fireCount_after]
    exact ⟨hlimit, rfl⟩
  · intro p hp hpos
    rw [hkeep.1] at hp
    rw [hcount]
    by_cases hmem : p.1 ∈ (firedBy text payload h.engine.triggers).map Trigger.id
    · -- the trigger that fires has this limit, and has fired as often as it counts
      obtain ⟨t, ht, hid⟩ := List.mem_map.1 hmem
      obtain ⟨ht, hvisit⟩ := List.mem_filter.1 ht
      have hfired : t.visit text payload = .fired := by simpa using hvisit
      obtain ⟨hlimit, hfires⟩ := hkept.counted t ht
      have heq : p = (t.id, t.maxFires) := hkept.limits.eq hp hlimit hid.symm
      rw [heq] at hpos ⊢
      have hlt := Trigger.lt_of_fired hfired hpos
      rw [hfires, count_firedBy hkept.indexed.ids ht, if_pos hfired]
      exact hlt
    · rw [List.count_eq_zero.2 hmem, Nat.add_zero]
      exact hkept.bounded p hp hpos

/-- What is loaded is what was there. -/
theorem Kept.restart (hkept : h.Kept) : (h.apply text .restart).Kept := by
  have hids : Table.UniqueKeys Trigger.id ([] ++ h.file.getD []) := by
    rw [List.nil_append, hkept.saved]
    exact hkept.indexed.ids
  obtain ⟨hindexed, htriggers⟩ := PersistentEngine.Indexed.empty.foldl_insert hids
  rw [List.nil_append] at htriggers
  refine ⟨hindexed, htriggers.symm, hkept.limits, hkept.drawn, hkept.fired, ?_, hkept.bounded⟩
  intro t ht
  have ht : t ∈ h.file.getD [] := htriggers ▸ ht
  rw [hkept.saved] at ht
  exact hkept.counted t ht

theorem Kept.apply (hkept : h.Kept) (op : TriggerOp) : (h.apply text op).Kept := by
  cases op with
  | register agentId pattern promptTemplate maxFires =>
    exact hkept.register agentId pattern promptTemplate maxFires
  | remove id =>
    refine hkept.persistedIf (fun e he => hkept.indexed.remove he) fun e he t ht => ?_
    obtain ⟨t', -, rfl⟩ := Option.map_eq_some_iff.1 he
    exact ⟨t, (Table.mem_erase.1 ht).1, rfl, rfl, rfl⟩
  | removeAgentTriggers agentId =>
    refine hkept.persistedIf (fun e he => (hkept.indexed.removeAgentTriggers he).1)
      fun e he t ht => ?_
    rw [(hkept.indexed.removeAgentTriggers he).2] at ht
    exact ⟨t, (List.mem_filter.1 ht).1, rfl, rfl, rfl⟩
  | setEnabled id enabled =>
    refine hkept.persistedIf (fun e he => hkept.indexed.setEnabled he) fun e he t ht => ?_
    obtain ⟨t', -, rfl⟩ := Option.map_eq_some_iff.1 he
    rcases Table.mem_modify.1 ht with ⟨t', ht', -, rfl⟩ | ⟨ht, -⟩
    · exact ⟨t', ht', rfl, rfl, rfl⟩
    · exact ⟨t, ht, rfl, rfl, rfl⟩
  | evaluate payload => exact hkept.evaluate payload
  | restart => exact hkept.restart

theorem kept_run (text : EventText) (ops : List TriggerOp) : (Runs.run (apply text) {} ops).Kept :=
  (Runs.along_of_forall fun _ _ => trivial).invariant (Q := fun _ _ => True) Kept.empty
    fun _ op hkept _ => hkept.apply op

/-- After every run of operations and restarts, no trigger that was registered with a limit has
fired more often than that over all lifetimes, and the index of the agents has each trigger's id
once, under its agent, and no other id. -/
theorem fires_le_and_index_exact (text : EventText) (ops : List TriggerOp) :
    let h := Runs.run (apply text) {} ops
    (∀ id maxFires, (id, maxFires) ∈ h.limits → 0 < maxFires → h.fires.count id ≤ maxFires) ∧
      ∀ agentId id, (h.engine.idsOf agentId).count id =
        if (h.engine.get id).map Trigger.agentId = some agentId then 1 else 0 := by
  have hkept := kept_run text ops
  exact ⟨fun id maxFires => hkept.bounded (id, maxFires), hkept.indexed.count_idsOf⟩

/-! ### Restarts -/

/-- The triggers, the next id and the fires. -/
def plain (h : TriggerHost) : List Trigger × TriggerId × List TriggerId :=
  (h.engine.triggers, h.nextTrigger, h.fires)

/-- An operation on a plain list of triggers.  A restart does nothing. -/
def plainStep (text : EventText) (s : List Trigger × TriggerId × List TriggerId) :
    TriggerOp → List Trigger × TriggerId × List TriggerId
  | .register agentId pattern promptTemplate maxFires =>
    (s.1 ++ [{ id := s.2.1, agentId := agentId, pattern := pattern
               promptTemplate := promptTemplate, maxFires := maxFires }], s.2.1 + 1, s.2.2)
  | .remove id => (Table.erase Trigger.id id s.1, s.2)
  | .removeAgentTriggers agentId => (s.1.filter fun t => t.agentId ≠ agentId, s.2)
  | .setEnabled id enabled =>
    (Table.modify Trigger.id id (fun t => { t with enabled := enabled }) s.1, s.2)
  | .evaluate payload =>
    (s.1.map (Trigger.after text payload), s.2.1,
      s.2.2 ++ (firedBy text payload s.1).map Trigger.id)
  | .restart => s

theorem plain_persistedIf {engine : Option PersistentEngine} {triggers : List Trigger}
    (hnone : engine = none → triggers = h.engine.triggers)
    (hsome : ∀ e, engine = some e → e.triggers = triggers) :
    (h.persistedIf engine).plain = (triggers, h.nextTrigger, h.fires) := by
  cases engine with
  | none =>
    rw [hnone rfl]
    rfl
  | some e =>
    rw [← hsome e rfl]
    rfl

/-- The host does what is done to the plain list. -/
theorem Kept.plain_apply (hkept : h.Kept) (op : TriggerOp) :
    (h.apply text op).plain = plainStep text h.plain op := by
  cases op with
  | register agentId pattern promptTemplate maxFires =>
    exact congrArg (·, _) (hkept.indexed.insert hkept.fresh).2
  | remove id =>
    refine plain_persistedIf (fun hnone => Table.erase_of_not_mem ?_) fun e he => ?_
    · exact Table.lookup_eq_none_iff.1 (Option.map_eq_none_iff.1 hnone)
    · obtain ⟨t, -, rfl⟩ := Option.map_eq_some_iff.1 he
      rfl
  | removeAgentTriggers agentId =>
    refine plain_persistedIf (fun hnone => ?_) fun e he =>
      (hkept.indexed.removeAgentTriggers he).2
    refine List.filter_eq_self.2 fun t ht => ?_
    have hids : t.id ∈ h.engine.idsOf agentId ↔ _ := hkept.indexed.mem_idsOf_iff ht
    rw [PersistentEngine.idsOf, InvertedIndex.idsUnder, Option.map_eq_none_iff.1 hnone] at hids
    simpa using hids
  | setEnabled id enabled =>
    refine plain_persistedIf (fun hnone => ?_) fun e he => ?_
    · have hmem := Table.lookup_eq_none_iff.1 (Option.map_eq_none_iff.1 hnone)
      refine (List.map_congr_left fun t ht => if_neg ?_).trans (List.map_id' _)
      rintro rfl
      exact hmem (List.mem_map_of_mem ht)
    · obtain ⟨t, -, rfl⟩ := Option.map_eq_some_iff.1 he
      rfl
  | evaluate payload =>
    refine Prod.ext (triggers_evaluate h text payload) (Prod.ext ?_ rfl)
    show (h.persistedIf _).nextTrigger = h.nextTrigger
    cases (h.engine.evaluate text payload).2 <;> rfl
  | restart =>
    have hrestart : (h.apply text .restart).Kept := hkept.restart
    exact congrArg (·, _) (hrestart.saved.symm.trans hkept.saved)

/-- **Restarts are not noticed**: over all lifetimes, the host is a plain list of triggers, to which
a restart does nothing. -/
theorem plain_run (text : EventText) (ops : List TriggerOp) :
    (Runs.run (apply text) {} ops).plain = Runs.run (plainStep text) ([], 0, []) ops := by
  induction ops using List.reverseRecOn with
  | nil => rfl
  | append_singleton ops op ih =>
    rw [Runs.run_append, Runs.run_append, ← ih]
    exact (kept_run text ops).plain_apply op

end TriggerHost

/-! ### The engine of the system -/

namespace PersistentEngine

/-- The engine of the system has the same triggers, and its index the same ids for each agent. -/
def Represents (p : PersistentEngine) (e : TriggerEngine) : Prop :=
  e.triggers = p.triggers ∧ ∀ agentId, e.idsOf agentId = p.idsOf agentId

variable {p : PersistentEngine} {e : TriggerEngine}

theorem Represents.register (h : p.Represents e)
    (hfresh : e.nextTrigger ∉ p.triggers.map Trigger.id) (agentId : AgentId)
    (pattern : TriggerPattern) (promptTemplate : String) (maxFires : ℕ) :
    (p.register e.nextTrigger agentId pattern promptTemplate maxFires).Represents
      (e.register agentId pattern promptTemplate maxFires) := by
  refine ⟨?_, fun owner => ?_⟩
  · show e.triggers ++ [_] = Table.upsert Trigger.id _ p.triggers
    rw [Table.upsert_of_not_mem hfresh, h.1]
  · show _ = InvertedIndex.idsUnder owner (InvertedIndex.push agentId e.nextTrigger p.agentTriggers)
    have hids : InvertedIndex.idsUnder owner p.agentTriggers = e.idsOf owner := (h.2 owner).symm
    rw [InvertedIndex.idsUnder_push]
    show List.map Prod.snd (List.filter _ (e.agentTriggers ++ [_])) = _
    rw [List.filter_append, List.map_append]
    by_cases howner : owner = agentId
    · subst howner
      simp only [if_pos, hids, TriggerEngine.idsOf, List.filter_singleton, decide_true]
      rfl
    · simp only [if_neg howner, hids, TriggerEngine.idsOf, List.filter_singleton]
      simp [Ne.symm howner]

theorem Represents.remove (h : p.Represents e) (hp : p.Indexed) (id : TriggerId) :
    ((p.remove id).getD p).Represents (e.remove id) := by
  have hids (owner : AgentId) : (e.remove id).idsOf owner = (p.idsOf owner).filter (· ≠ id) := by
    rw [← h.2 owner]
    show List.map Prod.snd (List.filter _ (List.filter _ e.agentTriggers)) = _
    rw [TriggerEngine.idsOf, List.filter_map, List.filter_filter, List.filter_filter]
    refine congrArg _ (List.filter_congr fun row _ => ?_)
    exact Bool.and_comm _ _
  have hkeep {owner : AgentId} (hne : ∀ t, p.get id = some t → t.agentId ≠ owner) :
      (p.idsOf owner).filter (· ≠ id) = p.idsOf owner := by
    refine List.filter_eq_self.2 fun i hi => ?_
    have hcount := hp.count_idsOf owner i
    have hpos := List.count_pos_iff.2 hi
    rw [hcount] at hpos
    have howner : (p.get i).map Trigger.agentId = some owner := by
      by_contra hnot
      rw [if_neg hnot] at hpos
      omega
    obtain ⟨t, ht, hagent⟩ := Option.map_eq_some_iff.1 howner
    have hi : i ≠ id := by
      rintro rfl
      exact hne t ht hagent
    simpa using hi
  cases hget : p.get id with
  | none =>
    rw [PersistentEngine.remove, hget]
    refine ⟨?_, fun owner => ?_⟩
    · show Table.erase Trigger.id id e.triggers = p.triggers
      rw [h.1, Table.erase_of_not_mem (Table.lookup_eq_none_iff.1 hget)]
    · rw [hids, hkeep fun t ht => by rw [hget] at ht; cases ht]
      rfl
  | some t =>
    rw [PersistentEngine.remove, hget]
    refine ⟨congrArg (Table.erase Trigger.id id) h.1, fun owner => ?_⟩
    show _ = InvertedIndex.idsUnder owner (InvertedIndex.retain t.agentId id p.agentTriggers)
    rw [hids, InvertedIndex.idsUnder_retain]
    by_cases howner : owner = t.agentId
    · rw [if_pos howner, howner]
      rfl
    · rw [if_neg howner, hkeep]
      · rfl
      · rintro t' ht' rfl
        rw [hget] at ht'
        cases ht'
        exact howner rfl

theorem Represents.removeAgentTriggers (h : p.Represents e) (agentId : AgentId) :
    ((p.removeAgentTriggers agentId).getD p).Represents (e.removeAgentTriggers agentId) := by
  have hids (owner : AgentId) : (e.removeAgentTriggers agentId).idsOf owner =
      if owner = agentId then [] else p.idsOf owner := by
    show List.map Prod.snd (List.filter _ (List.filter _ e.agentTriggers)) = _
    rw [List.filter_filter, ← h.2 owner]
    by_cases howner : owner = agentId
    · rw [if_pos howner, List.map_eq_nil_iff, List.filter_eq_nil_iff]
      intro row _
      simp [howner]
    · rw [if_neg howner, TriggerEngine.idsOf]
      refine congrArg _ (List.filter_congr fun row _ => ?_)
      by_cases hrow : row.1 = owner
      · simp [hrow, howner]
      · simp [hrow]
  have htriggers : (e.removeAgentTriggers agentId).triggers =
      p.triggers.filter fun t => !(p.idsOf agentId).contains t.id := by
    show List.filter _ e.triggers = _
    rw [h.1, h.2]
  cases hrow : Table.lookup Prod.fst agentId p.agentTriggers with
  | none =>
    have hnil : p.idsOf agentId = [] := by
      rw [idsOf, InvertedIndex.idsUnder, hrow]
      rfl
    rw [PersistentEngine.removeAgentTriggers, hrow]
    refine ⟨?_, fun owner => ?_⟩
    · rw [htriggers, hnil]
      exact List.filter_eq_self.2 fun _ _ => rfl
    · rw [hids]
      split
      · rename_i howner
        rw [howner]
        exact hnil.symm
      · rfl
  | some row =>
    have hids' : p.idsOf agentId = row.2 := by
      rw [idsOf, InvertedIndex.idsUnder, hrow]
      rfl
    rw [PersistentEngine.removeAgentTriggers, hrow]
    refine ⟨?_, fun owner => ?_⟩
    · rw [htriggers, hids']
      exact (foldl_erase row.2 p.triggers).symm
    · rw [hids]
      exact InvertedIndex.idsUnder_erase.symm

theorem Represents.evaluate (h : p.Represents e) (text : EventText) (payload : EventPayload) :
    (p.evaluate text payload).1 = (e.evaluate text payload).1 ∧
      ((p.evaluate text payload).2.getD p).Represents (e.evaluate text payload).2 := by
  refine ⟨congrArg (fun l => (firedBy text payload l).map _) h.1.symm, ?_⟩
  show ((if mutatedBy text payload p.triggers then _ else _ : Option _).getD p).Represents _
  cases hmutated : mutatedBy text payload p.triggers with
  | true => exact ⟨congrArg (List.map _) h.1, h.2⟩
  | false =>
    refine ⟨?_, h.2⟩
    show e.triggers.map _ = p.triggers
    rw [h.1, map_after_of_not_mutatedBy hmutated]

end PersistentEngine
end RustyHand
