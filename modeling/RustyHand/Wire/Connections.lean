import Mathlib.Data.List.Perm.Basic
import RustyHand.Lib.Runs
import RustyHand.Wire.Registry
import RustyHand.Wire.Replay

/-!
# The connections of a node

`connect_to_peer` and `handle_inbound` of `rusty-hand-wire/src/peer.rs` from the end of the
handshake on, and the loop of a connection.  A connection loop runs from `add_peer` until its task
marks the peer disconnected; nothing that another task can see happens between the end of the loop
and that.

* `handleNotification`, `handleRequestInLoop`: what a loop does with a message;
* `LiveNode`, `Happening`, `LiveNode.step`: a node with its registry and its loops;
* `LiveNode.Agrees`: a peer is marked connected if and only if a loop of it is running;
* `agrees_iff_orderly`: the runs in which all states agree.
-/

namespace RustyHand
namespace Wire

open Runs

variable {α : Type*}

/-- `PeerHandle`, but for the agents of the handshake, which are part of its draw. -/
structure PeerHandle where
  handleAgentMessage : String → String → Option String → Except String String
  discoverAgents : String → List RemoteAgentInfo
  uptimeSecs : UInt64

/-- `handle_request_in_loop`. -/
def handleRequestInLoop (handle : PeerHandle) (id : String) (request : WireRequest) : WireMessage :=
  { id := id
    kind := .response <|
      match request with
      | .ping => .pong handle.uptimeSecs
      | .discover query => .discoverResult (handle.discoverAgents query)
      | .agentMessage agent message sender =>
        match handle.handleAgentMessage agent message sender with
        | .ok text => .agentResponse text
        | .error e => .error 500 e
      | .handshake _ => .error 400 "Unexpected request in connection loop" }

/-- `handle_notification`. -/
def handleNotification (peerNodeId : String) (registry : PeerRegistry α) :
    WireNotification → PeerRegistry α
  | .agentSpawned agent => registry.addAgent peerNodeId agent
  | .agentTerminated agentId => registry.removeAgent peerNodeId agentId
  | .shuttingDown => registry.markDisconnected peerNodeId

/-- A node, with the node ids of its running connection loops, the notifications that they have
processed, and what they have written. -/
structure LiveNode (α : Type*) where
  registry : PeerRegistry α := {}
  nonceCache : List (String × ℕ) := []
  loops : List String := []
  notified : List (String × WireNotification) := []
  written : List WireMessage := []

/-- What happens at a node. -/
inductive Happening (α : Type*)
  /-- The first message of a connection to the node arrives, and its answer is written, or cannot
  be. -/
  | inbound (addr : α) (now : Int64) (instant : ℕ) (msg : WireMessage)
      (draw : Draw) (answered : Bool)
  /-- `connect_to_peer` reads the answer to its handshake. -/
  | outbound (addr : α) (now : Int64) (response : WireMessage)
  /-- A connection loop reads a message. -/
  | receive (k : ℕ) (msg : WireMessage)
  /-- A connection loop ends: the connection is closed, or a read or a write fails. -/
  | finish (k : ℕ)

/-- The node as its handshakes see it. -/
def LiveNode.node (s : LiveNode α) : PeerNode α :=
  { peers := s.registry.entries, nonceCache := s.nonceCache }

/-- A connection that has had its handshake. -/
def LiveNode.connect (s : LiveNode α) (addr : α) (hello : Hello) : LiveNode α :=
  { s with
    registry := s.registry.addPeer (.ofHello addr hello)
    loops := s.loops ++ [hello.nodeId] }

/-- A message in the loop of a connection with a peer. -/
def LiveNode.process (handle : PeerHandle) (s : LiveNode α) (nodeId : String) (msg : WireMessage) :
    LiveNode α :=
  match msg.kind with
  | .notification notification =>
    { s with
      registry := handleNotification nodeId s.registry notification
      notified := s.notified ++ [(nodeId, notification)] }
  | .request request => { s with written := s.written ++
      [handleRequestInLoop handle msg.id request] }
  | .response _ => s

section Code

variable (hmac : String → List UInt8 → String) (config : PeerConfig) (handle : PeerHandle)

/-- What a happening makes of a node. -/
def LiveNode.step (s : LiveNode α) : Happening α → LiveNode α
  | .inbound addr now instant msg draw answered =>
    match s.node.handleInbound hmac config addr now instant msg draw with
    | (node, response, result) =>
      let s := { s with nonceCache := node.nonceCache }
      if answered then
        let s := { s with written := s.written ++ [response] }
        match result with
        | .error _ => s
        | .ok hello => s.connect addr hello
      else s
  | .outbound addr now response =>
    match checkAck hmac config now response with
    | .error _ => s
    | .ok hello => s.connect addr hello
  | .receive k msg =>
    match s.loops[k]? with
    | none => s
    | some nodeId => s.process handle nodeId msg
  | .finish k =>
    match s.loops[k]? with
    | none => s
    | some nodeId =>
      { s with registry := s.registry.markDisconnected nodeId, loops := s.loops.eraseIdx k }

end Code

/-- A peer is marked connected if and only if a connection loop of it is running. -/
def LiveNode.Agrees (s : LiveNode α) : Prop :=
  ∀ nodeId, s.registry.IsConnected nodeId ↔ nodeId ∈ s.loops

/-- No connection loop ends while another one of the same peer is running, and none of them is told
that the peer is shutting down. -/
def LiveNode.Orderly (s : LiveNode α) : Happening α → Prop
  | .inbound .. => True
  | .outbound .. => True
  | .receive k msg => msg.kind = .notification .shuttingDown → s.loops[k]? = none
  | .finish k => ∀ nodeId, s.loops[k]? = some nodeId → nodeId ∉ s.loops.eraseIdx k

variable {hmac : String → List UInt8 → String} {config : PeerConfig} {handle : PeerHandle}
  {s : LiveNode α}

/-- The registry is what `handle_inbound` makes of it. -/
theorem node_step_inbound (addr : α) (now : Int64) (instant : ℕ) (msg : WireMessage) (draw : Draw) :
    (s.step hmac config handle (.inbound addr now instant msg draw true)).node =
      (s.node.handleInbound hmac config addr now instant msg draw).1 := by
  simp only [LiveNode.step, handleInbound_eq]
  cases checkHandshake hmac config now msg with
  | error e => rfl
  | ok hello =>
    simp only [PeerNode.registerHandshake, registerNonce_eq]
    cases (SeenCache.register nonceCacheTtl instant hello.nonce.1 s.node.nonceCache).2 with
    | false => rfl
    | true => exact (PeerRegistry.entries_addPeer _ addr hello).symm

theorem agrees_start : ({} : LiveNode α).Agrees := fun nodeId => by simp

/-- A new connection keeps the agreement. -/
theorem LiveNode.Agrees.connect (h : s.Agrees) (addr : α) (hello : Hello) :
    (s.connect addr hello).Agrees := by
  intro nodeId
  rw [LiveNode.connect, PeerRegistry.isConnected_addPeer, h nodeId, List.mem_append,
    List.mem_singleton, or_comm]

/-- Only the news that a peer is shutting down changes who is connected. -/
theorem isConnected_process {nodeId nodeId' : String} {msg : WireMessage}
    (hmsg : msg.kind ≠ .notification .shuttingDown) :
    (s.process handle nodeId msg).registry.IsConnected nodeId' ↔
      s.registry.IsConnected nodeId' := by
  obtain ⟨id, kind⟩ := msg
  cases kind with
  | request request => exact Iff.rfl
  | response response => exact Iff.rfl
  | notification notification =>
    cases notification with
    | agentSpawned agent => exact PeerRegistry.isConnected_addAgent agent
    | agentTerminated agentId => exact PeerRegistry.isConnected_removeAgent agentId
    | shuttingDown => exact absurd rfl hmsg

theorem loops_process (nodeId : String) (msg : WireMessage) :
    (s.process handle nodeId msg).loops = s.loops := by
  obtain ⟨id, kind⟩ := msg
  cases kind <;> rfl

/-- A loop that is running is not one of a disconnected peer. -/
theorem not_agrees_of_disconnected (nodeId : String)
    (hdisconnected : ¬ s.registry.IsConnected nodeId) (hmem : nodeId ∈ s.loops) : ¬ s.Agrees :=
  fun h => hdisconnected ((h nodeId).2 hmem)

/-- What is left of a list without an entry that it has only once. -/
theorem mem_eraseIdx_iff {β : Type*} {l : List β} {k : ℕ} {a b : β} (hk : l[k]? = some a)
    (hother : a ∉ l.eraseIdx k) : b ∈ l.eraseIdx k ↔ b ≠ a ∧ b ∈ l := by
  obtain ⟨hlt, rfl⟩ := List.getElem?_eq_some_iff.1 hk
  rw [← (List.getElem_cons_eraseIdx_perm hlt).mem_iff, List.mem_cons]
  constructor
  · intro hb
    exact ⟨fun h => hother (h ▸ hb), Or.inr hb⟩
  · rintro ⟨hne, hb⟩
    exact hb.resolve_left hne

/-- The happenings that keep the agreement. -/
theorem agrees_step_iff (h : s.Agrees) (e : Happening α) :
    (s.step hmac config handle e).Agrees ↔ s.Orderly e := by
  cases e with
  | inbound addr now instant msg draw answered =>
    refine iff_of_true ?_ trivial
    simp only [LiveNode.step]
    rcases s.node.handleInbound hmac config addr now instant msg draw
      with ⟨node, response, _ | hello⟩
    · cases answered <;> exact h
    · cases answered with
      | false => exact h
      | true => exact LiveNode.Agrees.connect (s := { s with
          nonceCache := node.nonceCache
          written := s.written ++ [response] }) h addr hello
  | outbound addr now response =>
    refine iff_of_true ?_ trivial
    simp only [LiveNode.step]
    cases checkAck hmac config now response with
    | error e => exact h
    | ok hello => exact h.connect addr hello
  | receive k msg =>
    simp only [LiveNode.step, LiveNode.Orderly]
    cases hk : s.loops[k]? with
    | none => exact iff_of_true h fun _ => rfl
    | some nodeId =>
      by_cases hmsg : msg.kind = .notification .shuttingDown
      · refine iff_of_false (not_agrees_of_disconnected nodeId ?_ ?_) ?_
        · obtain ⟨id, kind⟩ := msg
          obtain rfl : kind = .notification .shuttingDown := hmsg
          exact fun hconnected => (PeerRegistry.isConnected_markDisconnected.1 hconnected).1 rfl
        · rw [loops_process]
          exact List.mem_of_getElem? hk
        · intro hnone
          cases hnone hmsg
      · refine iff_of_true (fun nodeId' => ?_) fun hshut => absurd hshut hmsg
        rw [isConnected_process hmsg, loops_process]
        exact h nodeId'
  | finish k =>
    simp only [LiveNode.step, LiveNode.Orderly]
    cases hk : s.loops[k]? with
    | none => exact iff_of_true h fun nodeId hnone => by cases hnone
    | some nodeId =>
      by_cases hother : nodeId ∈ s.loops.eraseIdx k
      · refine iff_of_false (not_agrees_of_disconnected nodeId ?_ hother) ?_
        · exact fun hconnected => (PeerRegistry.isConnected_markDisconnected.1 hconnected).1 rfl
        · exact fun hnone => hnone nodeId rfl hother
      · refine iff_of_true (fun nodeId' => ?_) ?_
        · rw [PeerRegistry.isConnected_markDisconnected, h nodeId', mem_eraseIdx_iff hk hother]
        · rintro _ ⟨rfl⟩
          exact hother

/-- All states of a run agree if and only if everything that happens is orderly. -/
theorem agrees_iff_orderly (hmac : String → List UInt8 → String) (config : PeerConfig)
    (handle : PeerHandle) (events : List (Happening α)) :
    (∀ k, (run (LiveNode.step hmac config handle) {} (events.take k)).Agrees) ↔
      Along (LiveNode.step hmac config handle) LiveNode.Orderly {} events :=
  forall_take_iff_along agrees_start (fun _ h => h) (fun _ e h => (agrees_step_iff h e).2)
    fun _ e h => (agrees_step_iff h e).1

/-! ### Two connections with one peer -/

/-- What the peer draws, for its ack and for its handshake. -/
def peerDraw : Draw where
  nonce := ⟨"5c8e7f10-2b4d-4e96-b1a3-0d6f9c2e8a05", by decide⟩
  timestamp := 1000
  agents := []

/-- Each of two nodes connects to the other, and the first of the two connections is closed. -/
def crossed (hmac : String → List UInt8 → String) (peer : PeerConfig) : List (Happening ℕ) :=
  [.outbound 9 1000 ⟨"1", .response (.handshakeAck (peer.hello hmac peerDraw))⟩,
    .inbound 7 1000 0 ⟨"2", .request (.handshake (peer.hello hmac peerDraw))⟩ peerDraw true,
    .finish 0]

/-- The peer is marked disconnected, while the second connection is running. -/
theorem crossed_not_agrees :
    ¬ ∀ (hmac : String → List UInt8 → String) (config : PeerConfig) (handle : PeerHandle)
      (events : List (Happening ℕ)), (run (LiveNode.step hmac config handle) {} events).Agrees := by
  intro h
  have hcrossed := h (fun secret _ => secret) ⟨"node-1", "kernel", "secret"⟩
    ⟨fun _ _ _ => .error "Agent not found", fun _ => [], 0⟩
    (crossed (fun secret _ => secret) ⟨"node-2", "kernel", "secret"⟩) "node-2"
  obtain ⟨p, hp, -, hstate⟩ := hcrossed.2 (List.mem_singleton.2 rfl)
  rw [List.mem_singleton.1 hp] at hstate
  cases hstate

end Wire
end RustyHand
