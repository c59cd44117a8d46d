import RustyHand.Kernel.SystemInvariant

/-!
# What a restart keeps

`restart_agent` tears an agent down and spawns its manifest again, under a new id.  It hands on the
restart count and the cron jobs, and nothing else.

* `restartAgent_ok`: the state after a restart that succeeds;
* `Keeps`: what a restart should keep, and what should be gone;
* `Portable`: the agents that lose nothing;
* `restart_keeps_iff`: these and no others are kept.
-/

namespace RustyHand
namespace System

open AgentRegistry

variable {cfg : KernelConfig} {owner : SessionId → AgentId} {s s' : System}
  {id old new : AgentId} {entry : AgentEntry} {io : SpawnIo}

/-- The state after a restart of the agent of an entry. -/
structure Restarted (cfg : KernelConfig) (s : System) (entry : AgentEntry) (s' : System) :
    Prop where
  agents : s'.kernel.registry.agents = Table.erase AgentEntry.id entry.id
      s.kernel.registry.agents ++
    [spawnedEntry s.kernel.nextId (s.kernel.nextId + 1) entry.manifest none]
  nameIndex : s'.kernel.registry.nameIndex =
    Table.erase Prod.fst entry.name s.kernel.registry.nameIndex ++
      [(entry.name, s.kernel.nextId)]
  settings : s'.settings = Table.upsert Prod.fst
    (s.kernel.nextId, cfg.prepare entry.name s.kernel.nextId (s.settingsOf entry.id))
    (Table.erase Prod.fst entry.id s.settings)
  triggers : s'.triggers = (registerProactive cfg entry.name s.kernel.nextId
    (s.settingsOf entry.id).schedule (s.triggers.removeAgentTriggers entry.id)).evaluateSpawned
      cfg.toLowercase entry.name (describeSpawned cfg entry.name s.kernel.nextId)
  jobs : s'.jobs = s.jobs.map (reassign entry.id s.kernel.nextId)
  background : s'.background = s.background.filter (· ≠ entry.id)

theorem schedule_prepare (cfg : KernelConfig) (name : String) (id : AgentId) (settings : Settings) :
    (cfg.prepare name id settings).schedule = settings.schedule := by
  unfold KernelConfig.prepare KernelConfig.overlay
  split_ifs <;> rfl

/-- The state in which the agent has been stopped. -/
theorem stopSteps_eq {registry : AgentRegistry}
    (hremove : s.kernel.registry.remove id = .ok (entry, registry)) :
    stopSteps.foldl (KillStep.apply id) s =
      { s with
        kernel := { s.kernel with registry := registry
                                  capabilities := s.kernel.capabilities.revokeAll id }
        settings := Table.erase Prod.fst id s.settings
        quotas := Table.erase Prod.fst id s.quotas
        usage := Table.erase Prod.fst id s.usage
        triggers := s.triggers.removeAgentTriggers id
        background := s.background.filter (· ≠ id)
        runningTasks := s.runningTasks.filter (· ≠ id) } := by
  simp [stopSteps, KillStep.apply, hremove]

theorem restartAgent_ok (h : Sound owner s)
    (hok : (s.restartAgent cfg id io).1 = .ok (old, new)) :
    old = id ∧ new = s.kernel.nextId ∧ ∃ entry, s.kernel.registry.get id = some entry ∧
      entry.id = id ∧ Restarted cfg s entry (s.restartAgent cfg id io).2 := by
  unfold restartAgent at hok ⊢
  cases hremove : s.kernel.registry.remove id with
  | error e =>
    rw [hremove] at hok
    cases hok
  | ok removed =>
    obtain ⟨entry, registry⟩ := removed
    obtain ⟨hget, hregistry⟩ := remove_eq_ok_iff.1 hremove
    obtain ⟨hentry, rfl⟩ := h.kernel.registry.get_eq_some_iff.1 hget
    have hwf := h.kernel.registry.remove hremove
    rw [hremove] at hok
    dsimp only at hok ⊢
    rw [stopSteps_eq hremove] at hok ⊢
    split_ifs at hok ⊢ with hmax
    generalize hstopped : recordRestart _ entry.id (s.kernel.agentRestartCount entry.id + 1) =
      stopped at hok ⊢
    rcases hspawn : stopped.spawnAgentWithParent cfg entry.manifest (s.settingsOf entry.id) none io
      with ⟨r, s'⟩
    rw [hspawn] at hok
    cases r with
    | error e => cases hok
    | ok newId =>
      cases hok
      rcases spawnAgentWithParent_cases hspawn with ⟨e, -, hr, -⟩ | ⟨-, ⟨e, hr⟩, -, -⟩ |
        ⟨group, -, hgroup, -, ⟨e, -, hr, -⟩ | ⟨registry', hregister, ⟨e, -, hr, -⟩ | ⟨-, hr, rfl⟩⟩⟩
      · cases hr
      · cases hr
      · cases hr
      · cases hr
      -- only the last case is a spawn that succeeds; its manifest is settled, so the same again
      · have hsettled := h.kernel.settled entry hentry
        obtain rfl : entry.manifest.group = group := by
          have hsame := hsettled.2.symm.trans hgroup
          exact Except.ok.inj hsame
        subst hstopped
        cases hr
        refine ⟨rfl, rfl, entry, hget, rfl, ?_⟩
        have hfresh : s.kernel.nextId ∉ registry.agents.map AgentEntry.id := by
          intro hmem
          obtain ⟨e, he, heq⟩ := List.mem_map.1 hmem
          rw [hregistry] at he
          exact absurd heq (h.kernel.agents e (Table.mem_erase.1 he).1).1.ne
        obtain ⟨-, rfl⟩ := (register_eq_ok_iff hwf hfresh).1 hregister
        rw [hregistry]
        refine ⟨rfl, ?_, ?_, ?_, rfl, rfl⟩
        · show _ ++ [(entry.manifest.name, _)] = _
          rw [hsettled.1]
          rfl
        · show Table.upsert Prod.fst (_, cfg.prepare entry.manifest.name _ _) _ = _
          rw [hsettled.1]
          rfl
        · show (registerProactive cfg entry.manifest.name _ (cfg.prepare _ _ _).schedule
            _).evaluateSpawned _ entry.manifest.name _ = _
          rw [schedule_prepare, hsettled.1]
          rfl

/-! ### What is kept -/

/-- The new agent has what the old one had. -/
structure Kept (s s' : System) (entry entry' : AgentEntry) : Prop where
  name : entry'.name = entry.name
  manifest : entry'.manifest = entry.manifest
  settings : s'.settingsOf entry'.id = s.settingsOf entry.id
  mode : entry'.mode = entry.mode
  parent : entry'.parent = entry.parent
  children : entry'.children = entry.children
  triggers : List.Perm ((s'.triggers.triggersOf entry'.id).map Trigger.view)
    ((s.triggers.triggersOf entry.id).map Trigger.view)
  jobs : s'.jobs.filter (fun job => job.agentId = entry'.id) =
    (s.jobs.filter fun job => job.agentId = entry.id).map (reassign entry.id entry'.id)
  background : entry'.id ∈ s'.background ↔ entry.id ∈ s.background

/-- Nothing refers to an agent. -/
structure Forgotten (s : System) (id : AgentId) : Prop where
  registry : ∀ e ∈ s.kernel.registry.agents, e.id ≠ id ∧ e.parent ≠ some id ∧ id ∉ e.children
  nameIndex : ∀ p ∈ s.kernel.registry.nameIndex, p.2 ≠ id
  triggers : ∀ t ∈ s.triggers.triggers, t.agentId ≠ id
  agentTriggers : ∀ p ∈ s.triggers.agentTriggers, p.1 ≠ id
  jobs : ∀ job ∈ s.jobs, job.agentId ≠ id

/-- A restart keeps its agent: the new one has what the old one had, and nothing refers to the old
one. -/
def Keeps (s s' : System) (old new : AgentId) : Prop :=
  ∃ entry entry', s.kernel.registry.get old = some entry ∧
    s'.kernel.registry.get new = some entry' ∧ Kept s s' entry entry' ∧ Forgotten s' old

/-- An agent that has nothing that a restart loses: the default mode, no place in the tree of
agents, a model that the overlay of the default model leaves, the triggers of its schedule, none of
which counts, and no background loop. -/
structure Portable (cfg : KernelConfig) (s : System) (entry : AgentEntry) : Prop where
  mode : entry.mode = AgentMode.default
  parent : entry.parent = none
  children : entry.children = []
  links : ∀ e ∈ s.kernel.registry.agents, e.parent ≠ some entry.id ∧ entry.id ∉ e.children
  settings : cfg.prepare entry.name s.kernel.nextId (s.settingsOf entry.id) = s.settingsOf entry.id
  triggers : List.Perm
    ((proactive cfg entry.name (s.settingsOf entry.id).schedule).map fun p => (p.1, p.2, none))
    ((s.triggers.triggersOf entry.id).map Trigger.view)
  background : entry.id ∉ s.background

theorem get_restarted (h : Sound owner s) (hr : Restarted cfg s entry s') :
    s'.kernel.registry.get s.kernel.nextId =
      some (spawnedEntry s.kernel.nextId (s.kernel.nextId + 1) entry.manifest none) := by
  have hnone : Table.lookup AgentEntry.id s.kernel.nextId
      (Table.erase AgentEntry.id entry.id s.kernel.registry.agents) = none := by
    rw [Table.lookup_eq_none_iff]
    intro hmem
    obtain ⟨e, he, heq⟩ := List.mem_map.1 hmem
    exact absurd heq (h.kernel.agents e (Table.mem_erase.1 he).1).1.ne
  unfold Table.lookup at hnone
  rw [AgentRegistry.get, hr.agents, Table.lookup, List.find?_append, hnone]
  simp [spawnedEntry]

theorem settingsOf_restarted (hr : Restarted cfg s entry s') :
    s'.settingsOf s.kernel.nextId =
      cfg.prepare entry.name s.kernel.nextId (s.settingsOf entry.id) := by
  rw [settingsOf, hr.settings, Table.lookup_upsert]
  simp

/-- The triggers of the new agent are those that its schedule asks for; none is the old one's. -/
theorem triggers_restarted (h : Sound owner s) (hr : Restarted cfg s entry s')
    (hid : entry.id < s.kernel.nextId) :
    (s'.triggers.triggersOf s.kernel.nextId).map Trigger.view =
        (proactive cfg entry.name (s.settingsOf entry.id).schedule).map
            (fun p => (p.1, p.2, none)) ∧
      (∀ t ∈ s'.triggers.triggers, t.agentId ≠ entry.id) ∧
      ∀ p ∈ s'.triggers.agentTriggers, p.1 ≠ entry.id := by
  obtain ⟨hwf, new, htriggers, hnew, hviews⟩ :=
    (h.triggers.removeAgentTriggers entry.id).foldl_register s.kernel.nextId
      (proactive cfg entry.name (s.settingsOf entry.id).schedule)
  have hothers : ∀ t ∈ (s.triggers.removeAgentTriggers entry.id).triggers,
      t.agentId ≠ entry.id ∧ t.agentId < s.kernel.nextId := by
    intro t ht
    rw [h.triggers.triggers_removeAgentTriggers] at ht
    obtain ⟨ht, hne⟩ := List.mem_filter.1 ht
    exact ⟨by simpa using hne, h.triggersDrawn t ht⟩
  have hfired : s'.triggers.triggers =
      ((s.triggers.removeAgentTriggers entry.id).triggers ++ new).map
        (TriggerEngine.fireSpawned cfg.toLowercase entry.name
          (describeSpawned cfg entry.name s.kernel.nextId)) := by
    rw [hr.triggers, ← htriggers]
    rfl
  have hgone : ∀ t ∈ s'.triggers.triggers, t.agentId ≠ entry.id := by
    intro t ht
    rw [hfired] at ht
    obtain ⟨t', ht', rfl⟩ := List.mem_map.1 ht
    rw [(TriggerEngine.fireSpawned_id _ _ _ t').2]
    rcases List.mem_append.1 ht' with ht' | ht'
    · exact (hothers t' ht').1
    · rw [(hnew t' ht').1]
      exact hid.ne'
  refine ⟨?_, hgone, fun p hp => ?_⟩
  · rw [TriggerEngine.triggersOf, hfired, List.filter_map, List.map_map, ← hviews]
    -- the triggers of the others are from before the new id was drawn
    have hmine : ((s.triggers.removeAgentTriggers entry.id).triggers ++ new).filter
        ((fun t : Trigger => decide (t.agentId = s.kernel.nextId)) ∘
          TriggerEngine.fireSpawned cfg.toLowercase entry.name
            (describeSpawned cfg entry.name s.kernel.nextId)) = new := by
      rw [List.filter_append, List.filter_eq_nil_iff.2, List.filter_eq_self.2, List.nil_append]
      · intro t ht
        simp [(TriggerEngine.fireSpawned_id _ _ _ t).2, (hnew t ht).1]
      · intro t ht
        simp [(TriggerEngine.fireSpawned_id _ _ _ t).2, (hothers t ht).2.ne]
    rw [hmine]
    exact List.map_congr_left fun t ht => TriggerEngine.view_fireSpawned (hnew t ht).2
  · have hindex : s'.triggers.WellFormed := by
      rw [hr.triggers]
      exact hwf.evaluateSpawned _ _ _
    rw [hindex.index] at hp
    obtain ⟨t, ht, rfl⟩ := List.mem_map.1 hp
    exact hgone t ht

theorem jobs_restarted (h : Sound owner s) (hr : Restarted cfg s entry s')
    (hid : entry.id < s.kernel.nextId) :
    s'.jobs.filter (fun job => job.agentId = s.kernel.nextId) =
        (s.jobs.filter fun job => job.agentId = entry.id).map
          (reassign entry.id s.kernel.nextId) ∧
      ∀ job ∈ s'.jobs, job.agentId ≠ entry.id := by
  rw [hr.jobs]
  constructor
  · rw [List.filter_map]
    congr 1
    refine List.filter_congr fun job hjob => ?_
    have hlt := h.jobs job hjob
    -- no job was the new agent's before
    by_cases hold : job.agentId = entry.id
    · simp [reassign, hold]
    · simp [reassign, hold, hlt.ne]
  · intro job hjob
    obtain ⟨job', -, rfl⟩ := List.mem_map.1 hjob
    by_cases hold : job'.agentId = entry.id
    · rw [reassign, if_pos hold]
      exact hid.ne'
    · rw [reassign, if_neg hold]
      exact hold

/-- What refers to the old agent after a restart: entries of other agents that name it. -/
theorem forgotten_restarted (h : Sound owner s) (hr : Restarted cfg s entry s')
    (hentry : entry ∈ s.kernel.registry.agents) :
    Forgotten s' entry.id ↔ ∀ e ∈ s.kernel.registry.agents, e.id ≠ entry.id →
      e.parent ≠ some entry.id ∧ entry.id ∉ e.children := by
  have hid := (h.kernel.agents entry hentry).1
  obtain ⟨-, htriggers, hindex⟩ := triggers_restarted h hr hid
  constructor
  · intro hforgotten e he hne
    have he' : e ∈ s'.kernel.registry.agents := by
      rw [hr.agents]
      exact List.mem_append_left _ (Table.mem_erase.2 ⟨he, hne⟩)
    exact (hforgotten.registry e he').2
  · intro hlinks
    refine ⟨fun e he => ?_, fun p hp => ?_, htriggers, hindex, (jobs_restarted h hr hid).2⟩
    · rw [hr.agents] at he
      rcases List.mem_append.1 he with he | he
      · obtain ⟨he, hne⟩ := Table.mem_erase.1 he
        exact ⟨hne, hlinks e he hne⟩
      · rw [List.mem_singleton.1 he]
        exact ⟨hid.ne', (Option.some_ne_none _).symm, List.not_mem_nil⟩
    · rw [hr.nameIndex, h.kernel.registry.index] at hp
      rcases List.mem_append.1 hp with hp | hp
      · obtain ⟨hp, hname⟩ := Table.mem_erase.1 hp
        obtain ⟨e, he, rfl⟩ := List.mem_map.1 hp
        intro heq
        rw [h.kernel.registry.ids.eq he hentry heq] at hname
        exact hname rfl
      · rw [List.mem_singleton.1 hp]
        exact hid.ne'

/-- **When a restart keeps its agent.**  In every state that a run reaches, a restart that succeeds
keeps its agent just when the agent has nothing that a restart loses. -/
theorem restart_keeps_iff (cfg : KernelConfig) (ops : List Op) (id : AgentId) (io : SpawnIo)
    (old new : AgentId) (hok : ((run cfg ops).restartAgent cfg id io).1 = .ok (old, new)) :
    Keeps (run cfg ops) ((run cfg ops).restartAgent cfg id io).2 old new ↔
      ∃ entry, (run cfg ops).kernel.registry.get old = some entry ∧
        Portable cfg (run cfg ops) entry := by
  obtain ⟨owner, h⟩ := run_wellFormed cfg ops
  generalize run cfg ops = s at h hok ⊢
  obtain ⟨rfl, rfl, entry, hget, rfl, hr⟩ := restartAgent_ok h hok
  obtain ⟨hentry, -⟩ := h.kernel.registry.get_eq_some_iff.1 hget
  have hid := (h.kernel.agents entry hentry).1
  have hnew := get_restarted h hr
  have hsettings := settingsOf_restarted hr
  obtain ⟨htriggers, -⟩ := triggers_restarted h hr hid
  have hbackground : s.kernel.nextId ∉ (s.restartAgent cfg entry.id io).2.background := by
    rw [hr.background]
    intro hmem
    exact absurd rfl (h.background _ (List.mem_filter.1 hmem).1).ne
  constructor
  · rintro ⟨e, e', he, he', hkept, hforgotten⟩
    rw [hget] at he
    rw [hnew] at he'
    cases he
    cases he'
    have hparent : entry.parent = none := hkept.parent.symm
    have hchildren : entry.children = [] := hkept.children.symm
    refine ⟨entry, hget, hkept.mode.symm, hparent, hchildren, fun e he => ?_, ?_, ?_, ?_⟩
    -- the agent itself is erased, so what is forgotten says nothing of its own links
    · by_cases hself : e.id = entry.id
      · rw [h.kernel.registry.ids.eq he hentry hself, hparent, hchildren]
        exact ⟨(Option.some_ne_none _).symm, List.not_mem_nil⟩
      · exact (forgotten_restarted h hr hentry).1 hforgotten e he hself
    · rw [← hsettings]
      exact hkept.settings
    · rw [← htriggers]
      exact hkept.triggers
    · exact fun hmem => hbackground (hkept.background.2 hmem)
  · rintro ⟨e, he, hportable⟩
    rw [hget] at he
    cases he
    refine ⟨entry, _, hget, hnew, ?_, ?_⟩
    · refine ⟨(h.kernel.settled entry hentry).1, rfl, ?_, hportable.mode.symm,
        hportable.parent.symm, hportable.children.symm, ?_, (jobs_restarted h hr hid).1,
        iff_of_false hbackground hportable.background⟩
      · exact hsettings.trans hportable.settings
      · show List.Perm ((TriggerEngine.triggersOf _ s.kernel.nextId).map Trigger.view) _
        rw [htriggers]
        exact hportable.triggers
    · exact (forgotten_restarted h hr hentry).2 fun e he _ => hportable.links e he

theorem restart_keeps_plain :
    ((run plainConfig [spawnOne]).restartAgent plainConfig 0 {}).1 = .ok (0, 2) ∧
      Keeps (run plainConfig [spawnOne])
        ((run plainConfig [spawnOne]).restartAgent plainConfig 0 {}).2 0 2 := by
  refine ⟨rfl, (restart_keeps_iff plainConfig [spawnOne] 0 {} 0 2 rfl).2 ?_⟩
  refine ⟨spawnedEntry 0 1 { name := "a" } none, rfl, rfl, rfl, rfl, ?_, rfl, List.Perm.refl _, ?_⟩
  · intro e he
    rw [List.mem_singleton.1 he]
    exact ⟨(Option.some_ne_none _).symm, List.not_mem_nil⟩
  · exact List.not_mem_nil

/-- An agent that has been set to observe comes back in the default mode. -/
theorem restart_resets_mode :
    ¬ ∀ (cfg : KernelConfig) (ops : List Op) (id : AgentId) (io : SpawnIo) (old new : AgentId),
      ((run cfg ops).restartAgent cfg id io).1 = .ok (old, new) →
        Keeps (run cfg ops) ((run cfg ops).restartAgent cfg id io).2 old new := by
  intro hall
  obtain ⟨entry, entry', hget, hget', hkept, -⟩ :=
    hall plainConfig [spawnOne, .setMode 0 .observe] 0 {} 0 2 rfl
  cases hget
  cases hget'
  have hmode := hkept.mode
  revert hmode
  decide

end System
end RustyHand
