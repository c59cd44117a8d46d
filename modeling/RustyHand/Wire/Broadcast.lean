import Mathlib.Data.List.TakeWhile
import RustyHand.Wire.Connections

/-!
# Notifications to all peers

`broadcast_notification` of `rusty-hand-wire/src/peer.rs`: a new connection to each connected peer,
with the notification as its only message.  What the peer makes of it is `handle_inbound` and the
loop of the connection.

* `broadcastNotification`: the errors, and what is written to which peer;
* `Listening.notifications`: what a connection has `handle_notification` process;
* `notifies_iff`: which broadcasts are processed.
-/

namespace RustyHand
namespace Wire

open Runs

variable {α : Type*}

/-- `MAX_MESSAGE_SIZE`. -/
def maxMessageSize : ℕ := 16 * 1024 * 1024

/-- What becomes of the connection to a peer, and of the message on it. -/
inductive Attempt
  | timedOut
  | connectFailed (e : String)
  | writeFailed (e : String)
  | written
  deriving DecidableEq

/-- `WireError`, as far as a broadcast returns it. -/
inductive BroadcastError
  | io (e : String)
  | wire (e : WireError)

/-- The error that is reported, with an address as it is displayed. -/
def Attempt.error (address : String) : Attempt → Option BroadcastError
  | timedOut => some (.wire (.handshakeFailed ("connect to " ++ address ++ " timed out")))
  | connectFailed e => some (.io e)
  | writeFailed e => some (.io e)
  | written => none

/-- `broadcast_notification`: the errors, and the messages of the connections that were written. -/
def broadcastNotification (display : α → String) (draw : TrackedPeer α → String)
    (attempt : TrackedPeer α → Attempt) (registry : PeerRegistry α)
    (notification : WireNotification) :
    List (String × BroadcastError) × List (TrackedPeer α × List WireMessage) :=
  (registry.connectedPeers.filterMap fun p =>
      ((attempt p).error (display p.address)).map fun e => (p.nodeId, e),
    (registry.connectedPeers.filter fun p => attempt p = .written).map fun p =>
      (p, [{ id := draw p, kind := .notification notification }]))

/-- The notification that a message is. -/
def WireMessage.notification : WireMessage → Option WireNotification
  | ⟨_, .notification notification⟩ => some notification
  | _ => none

/-- What the loop of a connection has `handle_notification` process, until a message is too
large. -/
def loopNotifications (frameLen : WireMessage → ℕ) (messages : List WireMessage) :
    List WireNotification :=
  (messages.takeWhile fun msg => frameLen msg ≤ maxMessageSize).filterMap WireMessage.notification

/-- A node when it reads the first message of a connection. -/
structure Listening (α : Type*) where
  hmac : String → List UInt8 → String
  config : PeerConfig
  node : LiveNode α
  addr : α
  now : Int64
  instant : ℕ
  draw : Draw

/-- What a connection has `handle_notification` process, with the length of a message as JSON. -/
def Listening.notifications (l : Listening α) (frameLen : WireMessage → ℕ) :
    List WireMessage → List WireNotification
  | [] => []
  | msg :: messages =>
    if handshakeMaxSize < frameLen msg then []
    else
      match (l.node.node.handleInbound l.hmac l.config l.addr l.now l.instant msg l.draw).2.2 with
      | .error _ => []
      | .ok _ => loopNotifications frameLen messages

/-- Every connected peer without a reported error processes the notification. -/
def Notifies (display : α → String) (draw : TrackedPeer α → String)
    (attempt : TrackedPeer α → Attempt) (listening : TrackedPeer α → Listening α)
    (frameLen : WireMessage → ℕ) (registry : PeerRegistry α) (notification : WireNotification) :
    Prop :=
  let (errors, written) := broadcastNotification display draw attempt registry notification
  ∀ p ∈ registry.connectedPeers, p.nodeId ∉ errors.map Prod.fst →
    ∃ messages, (p, messages) ∈ written ∧
      notification ∈ (listening p).notifications frameLen messages

/-- The loop of a connection processes what `loopNotifications` says. -/
theorem notified_run {hmac : String → List UInt8 → String} {config : PeerConfig}
    {handle : PeerHandle} {s : LiveNode α} {k : ℕ} {nodeId : String}
    (hk : s.loops[k]? = some nodeId)
    {frameLen : WireMessage → ℕ} {messages : List WireMessage}
    (hlen : ∀ msg ∈ messages, frameLen msg ≤ maxMessageSize) :
    (run (LiveNode.step hmac config handle) s (messages.map (Happening.receive k))).notified =
      s.notified ++ (loopNotifications frameLen messages).map (nodeId, ·) := by
  have hall : messages.takeWhile (fun msg => frameLen msg ≤ maxMessageSize) = messages :=
    List.takeWhile_eq_self_iff.2 fun msg hmsg => decide_eq_true (hlen msg hmsg)
  rw [loopNotifications, hall]
  clear hall hlen
  induction messages generalizing s with
  | nil => simp
  | cons msg messages ih =>
    have hstep : s.step hmac config handle (.receive k msg) = s.process handle nodeId msg := by
      simp only [LiveNode.step, hk]
    rw [List.map_cons, run_cons, hstep, ih (by rw [loops_process]; exact hk)]
    obtain ⟨id, kind⟩ := msg
    cases kind with
    | request request => rfl
    | response response => rfl
    | notification notification =>
      exact List.append_assoc s.notified [(nodeId, notification)] _

/-- A connection that starts with a notification is rejected. -/
theorem notifications_eq_nil (l : Listening α) (frameLen : WireMessage → ℕ) (id : String)
    (notification : WireNotification) (messages : List WireMessage) :
    l.notifications frameLen (⟨id, .notification notification⟩ :: messages) = [] := by
  simp only [Listening.notifications, PeerNode.handleInbound, ite_self]

/-- An error is reported of the peers to which nothing was written, and of no other. -/
theorem mem_errors_iff (display : α → String) (draw : TrackedPeer α → String)
    (attempt : TrackedPeer α → Attempt) {registry : PeerRegistry α}
    (notification : WireNotification)
    {p : TrackedPeer α} (hp : p ∈ registry.connectedPeers) :
    p.nodeId ∈ (broadcastNotification display draw attempt registry notification).1.map Prod.fst ↔
      attempt p ≠ .written := by
  have hfind : ∀ q ∈ registry.connectedPeers, q.nodeId = p.nodeId → q = p := fun q hq hid =>
    registry.unique.eq (PeerRegistry.mem_connectedPeers.1 hq).1
      (PeerRegistry.mem_connectedPeers.1 hp).1 hid
  simp only [broadcastNotification, List.mem_map, List.mem_filterMap, Option.map_eq_some_iff]
  constructor
  · rintro ⟨x, ⟨q, hq, e, he, rfl⟩, hid⟩ hwritten
    rw [hfind q hq hid, hwritten] at he
    cases he
  · intro hne
    cases herror : (attempt p).error (display p.address) with
    | none =>
      cases hattempt : attempt p with
      | timedOut => rw [hattempt] at herror; cases herror
      | connectFailed e => rw [hattempt] at herror; cases herror
      | writeFailed e => rw [hattempt] at herror; cases herror
      | written => exact absurd hattempt hne
    | some e => exact ⟨(p.nodeId, e), ⟨p, hp, e, herror, rfl⟩, rfl⟩

/-- A peer to which a broadcast was written does not process it. -/
theorem Notifies.not_written {display : α → String} {draw : TrackedPeer α → String}
    {attempt : TrackedPeer α → Attempt} {listening : TrackedPeer α → Listening α}
    {frameLen : WireMessage → ℕ} {registry : PeerRegistry α} {notification : WireNotification}
    (h : Notifies display draw attempt listening frameLen registry notification)
    {p : TrackedPeer α} (hp : p ∈ registry.connectedPeers) : attempt p ≠ .written := by
  intro hwritten
  have hnone := mt (mem_errors_iff display draw attempt notification hp).1 (not_not_intro hwritten)
  obtain ⟨messages, hmem, hprocessed⟩ := h p hp hnone
  obtain ⟨q, -, hq⟩ := List.mem_map.1 hmem
  obtain ⟨rfl, rfl⟩ := Prod.mk.inj hq
  rw [notifications_eq_nil] at hprocessed
  exact List.not_mem_nil hprocessed

/-- A broadcast is what it should be if and only if nothing was written to any connected peer. -/
theorem notifies_iff (display : α → String) (draw : TrackedPeer α → String)
    (attempt : TrackedPeer α → Attempt) (listening : TrackedPeer α → Listening α)
    (frameLen : WireMessage → ℕ) (registry : PeerRegistry α) (notification : WireNotification) :
    Notifies display draw attempt listening frameLen registry notification ↔
      ∀ p ∈ registry.connectedPeers, attempt p ≠ .written := by
  constructor
  · exact fun h p hp => h.not_written hp
  · intro h p hp hnone
    exact absurd ((mem_errors_iff display draw attempt notification hp).2 (h p hp)) hnone

/-- A peer is connected, and the notification is written to it. -/
theorem broadcast_unprocessed :
    ¬ ∀ (display : ℕ → String) (draw : TrackedPeer ℕ → String) (attempt : TrackedPeer ℕ → Attempt)
      (listening : TrackedPeer ℕ → Listening ℕ) (frameLen : WireMessage → ℕ)
      (registry : PeerRegistry ℕ) (notification : WireNotification),
      Notifies display draw attempt listening frameLen registry notification := by
  intro h
  refine Notifies.not_written (h (fun port => toString port) (fun _ => "1") (fun _ => .written)
    (fun p => ⟨fun secret _ => secret, ⟨p.nodeId, "kernel", "secret"⟩, {}, 7, 1000, 0, peerDraw⟩)
    (fun _ => 90) _ .shuttingDown) (PeerRegistry.ofHello_mem_connectedPeers {} 9 ?_) rfl
  exact PeerConfig.hello (fun secret _ => secret) ⟨"node-2", "kernel", "secret"⟩ peerDraw

end Wire
end RustyHand
