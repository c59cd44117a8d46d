import RustyHand.Lib.Framing
import RustyHand.Lib.Table
import RustyHand.Wire.Frames

/-!
# Peers

`PeerNode` of `rusty-hand-wire/src/peer.rs`: the handshake of `connect_to_peer` and `send_to_peer`,
and the one of `handle_inbound`.  HMAC-SHA256, in hexadecimal, is an argument, and so are the clocks
and what is drawn at random.

* `handshakeSignedData`: what is signed, and `handshakeSignedData_inj`: that it can be told apart;
* `registerNonce`: the nonces that a node remembers;
* `checkAck`, `PeerNode.handleInbound`: what the two sides accept.
-/

namespace RustyHand
namespace Wire

open Framing

/-- What a signature is taken of. -/
structure Body where
  nonce : Nonce
  nodeId : String
  timestamp : Int64

/-- `WireError`, as far as handshakes return it. -/
inductive WireError
  | handshakeFailed (message : String)
  | versionMismatch (here there : UInt32)

/-- `handshake_signed_data`; a length is cast to `u32`. -/
def handshakeSignedData (b : Body) : List UInt8 :=
  framed (bigEndian 4) (utf8 b.nonce.1) ++ (framed (bigEndian 4) (utf8 b.nodeId) ++
    bigEndian 8 b.timestamp.toUInt64.toNat)

/-- `HANDSHAKE_FRESHNESS_SECS`. -/
def handshakeFreshnessSecs : Int64 := 60

/-- `timestamp_is_fresh`. -/
def timestampIsFresh (now timestamp : Int64) : Bool :=
  decide ((now - timestamp).abs ≤ handshakeFreshnessSecs)

/-- `NONCE_CACHE_TTL`, in nanoseconds. -/
def nonceCacheTtl : ℕ := 150 * 1000000000

/-- `PeerConfig`, without the address of the listener. -/
structure PeerConfig where
  nodeId : String
  nodeName : String
  sharedSecret : String

/-- `PeerEntry`, without the state of the connection. -/
structure PeerEntry (α : Type*) where
  nodeId : String
  nodeName : String
  address : α
  agents : List RemoteAgentInfo
  protocolVersion : UInt32

/-- What a `PeerNode` changes: the peers of its registry, and its `nonce_cache`. -/
structure PeerNode (α : Type*) where
  peers : List (PeerEntry α) := []
  nonceCache : List (String × ℕ) := []

/-- What a signing node draws at random and reads from its clock, and its agents. -/
structure Draw where
  nonce : Nonce
  timestamp : Int64
  agents : List RemoteAgentInfo

variable {α : Type*}

/-- `get_peer`. -/
def PeerNode.getPeer (node : PeerNode α) (nodeId : String) : Option (PeerEntry α) :=
  Table.lookup PeerEntry.nodeId nodeId node.peers

/-- `add_peer`, of a peer that has said hello. -/
def PeerNode.addPeer (node : PeerNode α) (address : α) (hello : Hello) : PeerNode α :=
  { node with
    peers := Table.upsert PeerEntry.nodeId
      { nodeId := hello.nodeId, nodeName := hello.nodeName, address := address
        agents := hello.agents, protocolVersion := hello.protocolVersion } node.peers }

/-- `register_nonce`, with the time of the monotonic clock. -/
def PeerNode.registerNonce (node : PeerNode α) (instant : ℕ) (nonce : String) :
    PeerNode α × Bool :=
  let cache := node.nonceCache.filter fun p => instant - p.2 < nonceCacheTtl
  if nonce ∈ cache.map Prod.fst then ({ node with nonceCache := cache }, false)
  else ({ node with nonceCache := cache ++ [(nonce, instant)] }, true)

section Code

variable (hmac : String → List UInt8 → String)

/-- `hmac_verify`, over the fields of a handshake or an ack. -/
def hmacVerify (secret : String) (data : List UInt8) (signature : String) : Bool :=
  decide (hmac secret data = signature)

/-- The fields that are signed. -/
def Hello.body (hello : Hello) : Body :=
  { nonce := hello.nonce, nodeId := hello.nodeId, timestamp := hello.timestamp }

/-- What a node signs with a draw. -/
def PeerConfig.body (config : PeerConfig) (draw : Draw) : Body :=
  { nonce := draw.nonce, nodeId := config.nodeId, timestamp := draw.timestamp }

/-- What a node sends, as a handshake or as an ack. -/
def PeerConfig.hello (config : PeerConfig) (draw : Draw) : Hello :=
  { nodeId := config.nodeId, nodeName := config.nodeName, protocolVersion := protocolVersion
    agents := draw.agents, nonce := draw.nonce, timestamp := draw.timestamp
    authHmac := hmac config.sharedSecret (handshakeSignedData (config.body draw)) }

/-- What `connect_to_peer` and `send_to_peer` check of what they read after their handshake. -/
def checkAck (config : PeerConfig) (now : Int64) (response : WireMessage) :
    Except WireError Hello :=
  match response.kind with
  | .response (.handshakeAck hello) =>
    if hello.protocolVersion ≠ protocolVersion then
      .error (.versionMismatch protocolVersion hello.protocolVersion)
    else if ¬ hmacVerify hmac config.sharedSecret
        (handshakeSignedData hello.body) hello.authHmac then
      .error (.handshakeFailed "HMAC verification failed on HandshakeAck")
    else if ¬ timestampIsFresh now hello.timestamp then
      .error (.handshakeFailed "HandshakeAck timestamp outside freshness window")
    else .ok hello
  | .response (.error code message) =>
    .error (.handshakeFailed ("Remote error " ++ toString code ++ ": " ++ message))
  | _ => .error (.handshakeFailed "Unexpected response to handshake")

/-- An error as a response. -/
def errorResponse (msg : WireMessage) (code : Int32) (message : String) : WireMessage :=
  { id := msg.id, kind := .response (.error code message) }

/-- `handle_inbound`, up to the dispatch loop: the node, the response, and whose handshake was
accepted. -/
def PeerNode.handleInbound (node : PeerNode α) (config : PeerConfig) (addr : α) (now : Int64)
    (instant : ℕ) (msg : WireMessage) (draw : Draw) :
    PeerNode α × WireMessage × Except WireError Hello :=
  match msg.kind with
  | .request (.handshake hello) =>
    if hello.protocolVersion ≠ protocolVersion then
      (node, errorResponse msg 1 ("Protocol version mismatch: expected " ++
          toString protocolVersion ++ ", got " ++ toString hello.protocolVersion),
        .error (.versionMismatch protocolVersion hello.protocolVersion))
    else if ¬ hmacVerify hmac config.sharedSecret
        (handshakeSignedData hello.body) hello.authHmac then
      (node, errorResponse msg 403 "HMAC authentication failed",
        .error (.handshakeFailed "HMAC verification failed on incoming Handshake"))
    else if ¬ timestampIsFresh now hello.timestamp then
      (node, errorResponse msg 403 "Stale or replayed handshake",
        .error (.handshakeFailed "Rejected stale/replayed handshake"))
    else
      match node.registerNonce instant hello.nonce.1 with
      | (node, false) =>
        (node, errorResponse msg 403 "Stale or replayed handshake",
          .error (.handshakeFailed "Rejected stale/replayed handshake"))
      | (node, true) =>
        (node.addPeer addr hello,
          { id := msg.id, kind := .response (.handshakeAck (config.hello hmac draw)) }, .ok hello)
  | _ =>
    (node, errorResponse msg 401 "Authentication required: complete HMAC handshake first",
      .error (.handshakeFailed "Rejected unauthenticated request — handshake required"))

end Code

/-! ### What is signed -/

/-- The values of a signature are told apart by its bytes. -/
theorem handshakeSignedData_inj {b b' : Body} (h : handshakeSignedData b = handshakeSignedData b') :
    b = b' := by
  have hpow : 256 ^ 4 = 2 ^ 32 := rfl
  have hnonce : ∀ n : Nonce, (utf8 n.1).length < 256 ^ 4 := by
    intro n
    rw [length_utf8, hpow]
    exact Nat.lt_of_le_of_lt n.2 (by decide)
  unfold handshakeSignedData at h
  obtain ⟨hn, hrest⟩ := framed_append_inj (length_bigEndian 4)
    (fun n m (hn : n < 256 ^ 4) (hm : m < 256 ^ 4) => bigEndian_inj hn hm) (hnonce _) (hnonce _) h
  -- eight bytes follow the node id, which is then all of what is left, whatever its length says
  obtain ⟨hid, htime⟩ := List.append_inj' hrest (by simp)
  have hid' : utf8 b.nodeId = utf8 b'.nodeId := by
    unfold framed at hid
    exact (List.append_inj hid (by simp)).2
  have htime' : b.timestamp.toUInt64 = b'.timestamp.toUInt64 :=
    UInt64.toNat_inj.1 (bigEndian_inj (UInt64.toNat_lt _) (UInt64.toNat_lt _) htime)
  cases b
  cases b'
  simp only [Body.mk.injEq]
  exact ⟨Subtype.ext (utf8_injective hn), utf8_injective hid', congrArg Int64.ofUInt64 htime'⟩

theorem checkAck_eq_ok {hmac : String → List UInt8 → String} {config : PeerConfig} {now : Int64}
    {response : WireMessage} {hello : Hello} (h : checkAck hmac config now response = .ok hello) :
    response.hello = some hello ∧
      hmacVerify hmac config.sharedSecret (handshakeSignedData hello.body) hello.authHmac =
          true := by
  obtain ⟨id, kind⟩ := response
  cases kind with
  | request request => cases h
  | notification notification => cases h
  | response response =>
    cases response with
    | handshakeAck found =>
      simp only [checkAck] at h
      split_ifs at h with hversion hverify hfresh
      cases h
      exact ⟨rfl, hverify⟩
    | discoverResult agents => cases h
    | agentResponse text => cases h
    | pong uptimeSecs => cases h
    | error code message => cases h

theorem handleInbound_eq_ok {hmac : String → List UInt8 → String} {node : PeerNode α}
    {config : PeerConfig} {addr : α} {now : Int64} {instant : ℕ} {msg : WireMessage} {draw : Draw}
    {hello : Hello}
    (h : (node.handleInbound hmac config addr now instant msg draw).2.2 = .ok hello) :
    msg.hello = some hello ∧
      hmacVerify hmac config.sharedSecret (handshakeSignedData hello.body) hello.authHmac = true ∧
      timestampIsFresh now hello.timestamp = true ∧
      (node.registerNonce instant hello.nonce.1).2 = true := by
  obtain ⟨id, kind⟩ := msg
  cases kind with
  | response response => cases h
  | notification notification => cases h
  | request request =>
    cases request with
    | handshake found =>
      simp only [PeerNode.handleInbound] at h
      split_ifs at h with hversion hverify hfresh
      split at h
      · cases h
      · rename_i node' hregister
        cases h
        exact ⟨rfl, hverify, hfresh, by rw [hregister]⟩
    | discover query => cases h
    | agentMessage agent message sender => cases h
    | ping => cases h

/-! ### What is accepted -/

/-- What a node with the secret has signed is accepted as an ack while it is fresh. -/
theorem checkAck_hello {hmac : String → List UInt8 → String} {config config' : PeerConfig}
    (hshared : config.sharedSecret = config'.sharedSecret) {now : Int64} {draw : Draw}
    (hfresh : timestampIsFresh now draw.timestamp = true) (id : String) :
    checkAck hmac config now ⟨id, .response (.handshakeAck (config'.hello hmac draw))⟩ =
      .ok (config'.hello hmac draw) := by
  have hverify : hmacVerify hmac config.sharedSecret
      (handshakeSignedData (config'.hello hmac draw).body) (config'.hello hmac draw).authHmac =
          true :=
    decide_eq_true (by rw [hshared]; rfl)
  simp only [checkAck]
  rw [if_neg (by simp [PeerConfig.hello]), if_neg (by simp [hverify]),
    if_neg (by simp [PeerConfig.hello, hfresh])]

/-- What a node with the secret has signed is accepted as a handshake while it is fresh, if its
nonce is not remembered. -/
theorem handleInbound_hello {hmac : String → List UInt8 → String} {node : PeerNode α}
    {config config' : PeerConfig}
    (hshared : config.sharedSecret = config'.sharedSecret) {now : Int64}
    {instant : ℕ} {draw draw' : Draw} (hfresh : timestampIsFresh now draw.timestamp = true)
    (hnonce : (node.registerNonce instant draw.nonce.1).2 = true) (addr : α) (id : String) :
    (node.handleInbound hmac config addr now instant
      ⟨id, .request (.handshake (config'.hello hmac draw))⟩ draw').2.2 =
      .ok (config'.hello hmac draw) := by
  have hverify : hmacVerify hmac config.sharedSecret
      (handshakeSignedData (config'.hello hmac draw).body) (config'.hello hmac draw).authHmac =
          true :=
    decide_eq_true (by rw [hshared]; rfl)
  simp only [PeerNode.handleInbound]
  rw [if_neg (by simp [PeerConfig.hello]), if_neg (by simp [hverify]),
    if_neg (by simp [PeerConfig.hello, hfresh])]
  cases hregister : node.registerNonce instant (config'.hello hmac draw).nonce.1 with
  | mk node' fresh =>
    obtain rfl : fresh = true := by
      rw [← hnonce]
      exact (congrArg Prod.snd hregister).symm
    rfl

end Wire
end RustyHand
