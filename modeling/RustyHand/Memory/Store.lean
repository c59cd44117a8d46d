import RustyHand.Types.Agent
import RustyHand.Types.Message
import RustyHand.Lib.Table

/-!
# The memory store

`rusty-hand-memory`: the tables of agents (`structured.rs`) and of sessions (`session.rs`), and
what `substrate.rs` makes of them.  A table lists its rows in the order of their insertion, which is
the order in which a query without `ORDER BY` reads them.  Database operations do not fail here.
-/

namespace RustyHand

/-- `Session`. -/
structure Session where
  id : SessionId
  agentId : AgentId
  messages : List Message := []
  contextWindowTokens : ℕ := 0
  label : Option String := none

/-- A row of the table of agents.  Mode, parent and children have no columns. -/
structure AgentRow where
  id : AgentId
  name : String
  manifest : AgentManifest
  state : AgentState
  sessionId : SessionId
  deriving DecidableEq

/-- The row that `save_agent` writes for an entry. -/
def AgentEntry.toRow (entry : AgentEntry) : AgentRow :=
  { id := entry.id, name := entry.name, manifest := entry.manifest, state := entry.state
    sessionId := entry.sessionId }

/-- The entry that `load_all_agents` reads off a row. -/
def AgentRow.toEntry (row : AgentRow) : AgentEntry :=
  { id := row.id, name := row.name, manifest := row.manifest, state := row.state
    mode := AgentMode.default, parent := none, children := [], sessionId := row.sessionId }

/-- The store: `MemorySubstrate`. -/
structure MemorySubstrate where
  agents : List AgentRow := []
  sessions : List Session := []

namespace MemorySubstrate

/-- `save_agent`. -/
def saveAgent (m : MemorySubstrate) (entry : AgentEntry) : MemorySubstrate :=
  { m with agents := Table.upsert AgentRow.id entry.toRow m.agents }

/-- `get_session`. -/
def getSession (m : MemorySubstrate) (id : SessionId) : Option Session :=
  Table.lookup Session.id id m.sessions

/-- `save_session`: a row that exists keeps its agent. -/
def saveSession (m : MemorySubstrate) (session : Session) : MemorySubstrate :=
  let agentId := ((m.getSession session.id).map Session.agentId).getD session.agentId
  { m with sessions := Table.upsert Session.id { session with agentId := agentId } m.sessions }

/-- `create_session_with_label`, and `create_session` without a label, with the id it draws. -/
def createSession (m : MemorySubstrate) (id : SessionId) (agentId : AgentId)
    (label : Option String) : MemorySubstrate :=
  m.saveSession { id := id, agentId := agentId, label := label }

/-- `delete_session`. -/
def deleteSession (m : MemorySubstrate) (id : SessionId) : MemorySubstrate :=
  { m with sessions := Table.erase Session.id id m.sessions }

/-- `delete_agent_sessions`. -/
def deleteAgentSessions (m : MemorySubstrate) (agentId : AgentId) : MemorySubstrate :=
  { m with sessions := m.sessions.filter fun session => session.agentId ≠ agentId }

/-- `remove_agent`. -/
def removeAgent (m : MemorySubstrate) (agentId : AgentId) : MemorySubstrate :=
  let m := m.deleteAgentSessions agentId
  { m with agents := Table.erase AgentRow.id agentId m.agents }

/-- The loop of `load_all_agents`: of the rows whose names agree in lower case, the first. -/
def loadRows (lower : String → String) (seenNames : List String) :
    List AgentRow → List AgentEntry
  | [] => []
  | row :: rows =>
    if seenNames.contains (lower row.name) then loadRows lower seenNames rows
    else row.toEntry :: loadRows lower (lower row.name :: seenNames) rows

/-- `load_all_agents`; `lower` is `to_lowercase` on strings. -/
def loadAllAgents (lower : String → String) (m : MemorySubstrate) : List AgentEntry :=
  loadRows lower [] m.agents

variable {m : MemorySubstrate} {lower : String → String} {row : AgentRow} {rows : List AgentRow}
  {seen : List String}

/-! ### What is loaded -/

theorem loadRows_cons (row : AgentRow) (rows : List AgentRow) :
    loadRows lower seen (row :: rows) =
      if seen.contains (lower row.name) then loadRows lower seen rows
      else row.toEntry :: loadRows lower (lower row.name :: seen) rows := rfl

/-- What is loaded is a row whose name no row before it has in lower case. -/
theorem loadRows_sublist (lower : String → String) (seen : List String) (rows : List AgentRow) :
    List.Sublist (loadRows lower seen rows) (rows.map AgentRow.toEntry) := by
  induction rows generalizing seen with
  | nil => exact List.Sublist.refl _
  | cons row rows ih =>
    rw [loadRows_cons, List.map_cons]
    split
    · exact (ih seen).cons _
    · exact (ih _).cons_cons _

/-- The names of what is loaded differ in lower case, from each other and from those seen. -/
theorem loadRows_names (lower : String → String) (seen : List String) (rows : List AgentRow) :
    ((loadRows lower seen rows).map fun entry => lower entry.name).Nodup ∧
      ∀ entry ∈ loadRows lower seen rows, lower entry.name ∉ seen := by
  induction rows generalizing seen with
  | nil => simp [loadRows]
  | cons row rows ih =>
    rw [loadRows_cons]
    split
    · exact ih seen
    · rename_i hnew
      have hnew' : lower row.name ∉ seen := by simpa using hnew
      obtain ⟨hnodup, hseen⟩ := ih (lower row.name :: seen)
      constructor
      · rw [List.map_cons, List.nodup_cons]
        refine ⟨fun hmem => ?_, hnodup⟩
        obtain ⟨entry, hentry, heq⟩ := List.mem_map.1 hmem
        apply hseen entry hentry
        rw [heq]
        exact List.mem_cons_self
      · intro entry hentry
        rcases List.mem_cons.1 hentry with rfl | hentry
        · exact hnew'
        · exact fun hmem => hseen entry hentry (List.mem_cons_of_mem _ hmem)

theorem mem_loadRows (hrow : row ∈ rows) (hseen : lower row.name ∉ seen)
    (hsole : ∀ other ∈ rows, lower other.name = lower row.name → other = row) :
    row.toEntry ∈ loadRows lower seen rows := by
  induction rows generalizing seen with
  | nil => cases hrow
  | cons first rows ih =>
    have hrest : ∀ other ∈ rows, lower other.name = lower row.name → other = row :=
      fun other hother => hsole other (List.mem_cons_of_mem _ hother)
    rw [loadRows_cons]
    by_cases hfirst : first = row
    · subst hfirst
      rw [if_neg (by simpa using hseen)]
      exact List.mem_cons_self
    · have hmem : row ∈ rows := (List.mem_cons.1 hrow).resolve_left fun h => hfirst h.symm
      have hne : lower first.name ≠ lower row.name :=
        fun heq => hfirst (hsole first List.mem_cons_self heq)
      split
      · exact ih hmem hseen hrest
      · refine List.mem_cons_of_mem _ (ih hmem ?_ hrest)
        rw [List.mem_cons, not_or]
        exact ⟨hne.symm, hseen⟩

theorem loadRows_eq_map (hnodup : (rows.map fun row => lower row.name).Nodup)
    (hseen : ∀ row ∈ rows, lower row.name ∉ seen) :
    loadRows lower seen rows = rows.map AgentRow.toEntry := by
  induction rows generalizing seen with
  | nil => rfl
  | cons first rows ih =>
    rw [List.map_cons, List.nodup_cons] at hnodup
    rw [loadRows_cons, if_neg (by simpa using hseen first List.mem_cons_self), List.map_cons,
      ih hnodup.2]
    intro row hrow
    rw [List.mem_cons, not_or]
    refine ⟨fun heq => hnodup.1 ?_, hseen row (List.mem_cons_of_mem _ hrow)⟩
    rw [← heq]
    exact List.mem_map_of_mem hrow

end MemorySubstrate
end RustyHand
