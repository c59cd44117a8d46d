import RustyHand.Wire.Peer

/-!
# The registry of peers

`PeerRegistry` of `rusty-hand-wire/src/registry.rs`: the peers that a node knows, whether they are
connected, and the agents that they advertise.  A map is the table of its rows; the order in which
`connected_peers` lists them is that of the table.

* `TrackedPeer`, `PeerRegistry`: a registry has one entry for a node id;
* `addPeer`, `markDisconnected`, `addAgent`, `removeAgent`, `connectedPeers`;
* `IsConnected`, and what each operation does to it.
-/

namespace RustyHand
namespace Wire

variable {α : Type*}

/-- `PeerState`. -/
inductive PeerState
  | connected
  | disconnected
  deriving DecidableEq

/-- `PeerEntry`, with the state of the connection. -/
structure TrackedPeer (α : Type*) extends PeerEntry α where
  state : PeerState

/-- The node id that a registry finds a peer by. -/
def TrackedPeer.key (p : TrackedPeer α) : String := p.nodeId

/-- `PeerRegistry`. -/
structure PeerRegistry (α : Type*) where
  peers : List (TrackedPeer α) := []
  unique : Table.UniqueKeys TrackedPeer.key peers := by exact List.nodup_nil

/-- The entry of a peer that has said hello. -/
def TrackedPeer.ofHello (address : α) (hello : Hello) : TrackedPeer α where
  nodeId := hello.nodeId
  nodeName := hello.nodeName
  address := address
  agents := hello.agents
  protocolVersion := hello.protocolVersion
  state := .connected

namespace PeerRegistry

/-- `add_peer`. -/
def addPeer (registry : PeerRegistry α) (entry : TrackedPeer α) : PeerRegistry α where
  peers := Table.upsert TrackedPeer.key entry registry.peers
  unique := registry.unique.upsert

/-- A change of the entry of a node id, if there is one; it stays the entry of that node id. -/
def modify (registry : PeerRegistry α) (nodeId : String) (f : TrackedPeer α → TrackedPeer α)
    (hf : ∀ p, (f p).key = p.key) : PeerRegistry α where
  peers := Table.modify TrackedPeer.key nodeId f registry.peers
  unique := registry.unique.modify hf

/-- `mark_disconnected`. -/
def markDisconnected (registry : PeerRegistry α) (nodeId : String) : PeerRegistry α :=
  registry.modify nodeId (fun p => { p with state := .disconnected }) fun _ => rfl

/-- The agents of a peer with one more, which takes the place of the one with its id. -/
def withAgent (agent : RemoteAgentInfo) (agents : List RemoteAgentInfo) : List RemoteAgentInfo :=
  match agents.findIdx? fun a => a.id = agent.id with
  | some i => agents.set i agent
  | none => agents ++ [agent]

/-- `add_agent`. -/
def addAgent (registry : PeerRegistry α) (nodeId : String) (agent : RemoteAgentInfo) :
    PeerRegistry α :=
  registry.modify nodeId (fun p => { p with agents := withAgent agent p.agents }) fun _ => rfl

/-- `remove_agent`. -/
def removeAgent (registry : PeerRegistry α) (nodeId agentId : String) : PeerRegistry α :=
  registry.modify nodeId (fun p => { p with agents := p.agents.filter fun a => a.id ≠ agentId })
    fun _ => rfl

/-- `connected_peers`. -/
def connectedPeers (registry : PeerRegistry α) : List (TrackedPeer α) :=
  registry.peers.filter fun p => p.state = .connected

/-- The entries without the states of the connections. -/
def entries (registry : PeerRegistry α) : List (PeerEntry α) :=
  registry.peers.map TrackedPeer.toPeerEntry

/-- A peer is marked connected. -/
def IsConnected (registry : PeerRegistry α) (nodeId : String) : Prop :=
  ∃ p ∈ registry.peers, p.nodeId = nodeId ∧ p.state = .connected

variable {registry : PeerRegistry α} {nodeId nodeId' : String}

@[simp] theorem not_isConnected_empty : ¬ ({} : PeerRegistry α).IsConnected nodeId := by
  rintro ⟨p, hp, -⟩
  exact absurd hp List.not_mem_nil

theorem mem_connectedPeers {p : TrackedPeer α} :
    p ∈ registry.connectedPeers ↔ p ∈ registry.peers ∧ p.state = .connected := by
  simp [connectedPeers]

theorem ofHello_mem_connectedPeers (registry : PeerRegistry α) (address : α) (hello : Hello) :
    .ofHello address hello ∈ (registry.addPeer (.ofHello address hello)).connectedPeers :=
  mem_connectedPeers.2 ⟨Table.mem_upsert.2 (Or.inl rfl), rfl⟩

theorem isConnected_addPeer (address : α) (hello : Hello) :
    (registry.addPeer (.ofHello address hello)).IsConnected nodeId ↔
      nodeId = hello.nodeId ∨ registry.IsConnected nodeId := by
  constructor
  · rintro ⟨p, hp, hid, hstate⟩
    rcases Table.mem_upsert.1 hp with rfl | ⟨hp, -⟩
    · exact Or.inl hid.symm
    · exact Or.inr ⟨p, hp, hid, hstate⟩
  · intro h
    by_cases hid : nodeId = hello.nodeId
    · exact ⟨_, Table.mem_upsert.2 (Or.inl rfl), hid.symm, rfl⟩
    · obtain ⟨p, hp, hp', hstate⟩ := h.resolve_left hid
      exact ⟨p, Table.mem_upsert.2 (Or.inr ⟨hp, fun hkey => hid (hp'.symm.trans hkey)⟩),
        hp', hstate⟩

/-- `mark_disconnected` disconnects its peer and leaves the others. -/
theorem isConnected_markDisconnected :
    (registry.markDisconnected nodeId).IsConnected nodeId' ↔
      nodeId' ≠ nodeId ∧ registry.IsConnected nodeId' := by
  constructor
  · rintro ⟨p, hp, hid, hstate⟩
    rcases Table.mem_modify.1 hp with ⟨q, -, -, rfl⟩ | ⟨hp, hkey⟩
    · cases hstate
    · exact ⟨fun h => hkey (hid.trans h), p, hp, hid, hstate⟩
  · rintro ⟨hne, p, hp, hid, hstate⟩
    exact ⟨p, Table.mem_modify.2 (Or.inr ⟨hp, fun hkey => hne (hid.symm.trans hkey)⟩), hid, hstate⟩

/-- A change of a peer's agents leaves the states. -/
theorem isConnected_modify {f : TrackedPeer α → TrackedPeer α} (hf : ∀ p, (f p).key = p.key)
    (hstate : ∀ p, (f p).state = p.state) :
    (registry.modify nodeId f hf).IsConnected nodeId' ↔ registry.IsConnected nodeId' := by
  constructor
  · rintro ⟨p, hp, hid, hp'⟩
    rcases Table.mem_modify.1 hp with ⟨q, hq, -, rfl⟩ | ⟨hp, -⟩
    · exact ⟨q, hq, (hf q).symm.trans hid, (hstate q).symm.trans hp'⟩
    · exact ⟨p, hp, hid, hp'⟩
  · rintro ⟨p, hp, hid, hp'⟩
    by_cases hkey : p.key = nodeId
    · exact ⟨f p, Table.mem_modify.2 (Or.inl ⟨p, hp, hkey, rfl⟩), (hf p).trans hid,
        (hstate p).trans hp'⟩
    · exact ⟨p, Table.mem_modify.2 (Or.inr ⟨hp, hkey⟩), hid, hp'⟩

theorem isConnected_addAgent (agent : RemoteAgentInfo) :
    (registry.addAgent nodeId agent).IsConnected nodeId' ↔ registry.IsConnected nodeId' :=
  isConnected_modify (f := fun p => { p with agents := withAgent agent p.agents }) (fun _ => rfl)
    fun _ => rfl

theorem isConnected_removeAgent (agentId : String) :
    (registry.removeAgent nodeId agentId).IsConnected nodeId' ↔ registry.IsConnected nodeId' :=
  isConnected_modify (f := fun p => { p with agents := p.agents.filter fun a => a.id ≠ agentId })
    (fun _ => rfl) fun _ => rfl

theorem entries_addPeer (cache : List (String × ℕ)) (address : α) (hello : Hello) :
    ({ peers := registry.entries, nonceCache := cache } : PeerNode α).addPeer address hello =
      { peers := (registry.addPeer (.ofHello address hello)).entries, nonceCache := cache } := by
  simp only [PeerNode.addPeer, entries, addPeer, Table.upsert, List.map_map]
  congr 1
  have hkeys : PeerEntry.nodeId ∘ TrackedPeer.toPeerEntry = TrackedPeer.key (α := α) := rfl
  rw [hkeys]
  split
  · rw [if_pos (by assumption), List.map_map]
    refine List.map_congr_left fun p _ => ?_
    simp only [Function.comp_apply]
    rw [apply_ite TrackedPeer.toPeerEntry]
    rfl
  · rw [if_neg (by assumption), List.map_append]
    rfl

end PeerRegistry

end Wire
end RustyHand
