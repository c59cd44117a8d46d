import Mathlib.Logic.Function.Basic
import RustyHand.Lib.Runs
import RustyHand.Wire.Peer

/-!
# A network of peers

Any number of nodes that share a secret, and a network that delivers anything to anyone.

* `Network`: the nodes; `Net`: the state of all of them, with what they have signed and accepted;
* `Event`, `step`: handshakes that a node starts, and messages that are delivered to it;
* `Unforgeable`: a signature that holds is of something that a node has signed;
* `FreshNonces`: `Uuid::new_v4` does not draw a nonce again;
* `Sound`: what holds of every state then.
-/

namespace RustyHand
namespace Wire

open Runs

variable {ι α : Type*}

/-- Nodes that share a secret. -/
structure Network (ι α : Type*) where
  /-- `hmac_sign`. -/
  hmac : String → List UInt8 → String
  secret : String
  config : ι → PeerConfig
  shared : ∀ i, (config i).sharedSecret = secret
  /-- The node that listens at an address. -/
  listener : α → Option ι

/-- Why a node has started a handshake. -/
inductive Purpose
  | connect
  | send (nodeId : String)

/-- A handshake that a node has started, and that waits for an ack or has ended. -/
structure Session (ι α : Type*) where
  initiator : ι
  purpose : Purpose
  address : α
  body : Body
  ended : Bool := false

/-- What a node has signed: a handshake to an address, or the ack of a handshake. -/
inductive Signed (ι α : Type*)
  | handshake (node : ι) (address : α) (body : Body)
  | ack (node : ι) (answers : Body) (body : Body)

/-- The values of a signature. -/
def Signed.body : Signed ι α → Body
  | handshake _ _ body => body
  | ack _ _ body => body

/-- All nodes, with everything that they have signed, and the handshakes that they have accepted. -/
structure Net (ι α : Type*) where
  node : ι → PeerNode α := fun _ => {}
  sessions : List (Session ι α) := []
  signed : List (Signed ι α) := []
  accepted : List (ι × Body) := []

/-- What happens. -/
inductive Event (ι α : Type*)
  /-- A node calls `connect_to_peer`, up to the write of the handshake. -/
  | connect (i : ι) (address : α) (draw : Draw)
  /-- A node calls `send_to_peer`, up to the write of the handshake. -/
  | send (i : ι) (nodeId : String) (draw : Draw)
  /-- A message is delivered to the initiator of a session. -/
  | answer (session : ℕ) (now : Int64) (msg : WireMessage)
  /-- A node is started again. -/
  | restart (i : ι)
  /-- A message is delivered to a node, from some address. -/
  | inbound (i : ι) (addr : α) (now : Int64) (instant : ℕ) (msg : WireMessage) (draw : Draw)

/-- The start of a handshake. -/
def Net.start (N : Network ι α) (s : Net ι α) (i : ι) (purpose : Purpose) (address : α)
    (draw : Draw) : Net ι α :=
  let body := (N.config i).body draw
  { s with
    sessions := s.sessions ++
      [{ initiator := i, purpose := purpose, address := address, body := body }]
    signed := s.signed ++ [.handshake i address body] }

/-- The answer that ends a handshake, if it is accepted. -/
def Network.acceptsAck (N : Network ι α) (x : Session ι α) (now : Int64) (msg : WireMessage) :
    Option Hello :=
  (checkAck N.hmac (N.config x.initiator) now msg).toOption

/-- A session that has not ended. -/
def Net.openSession (s : Net ι α) (k : ℕ) : Option (Session ι α) :=
  s.sessions[k]?.filter fun x => !x.ended

/-- The message that an event delivers. -/
def Event.message : Event ι α → Option WireMessage
  | .connect .. => none
  | .send .. => none
  | .answer _ _ msg => some msg
  | .restart _ => none
  | .inbound _ _ _ _ msg _ => some msg

/-- What an event draws, to sign it. -/
def Event.draw : Event ι α → Option Draw
  | .connect _ _ draw => some draw
  | .send _ _ draw => some draw
  | .answer .. => none
  | .restart _ => none
  | .inbound _ _ _ _ _ draw => some draw

/-- A signature that holds is of something that a node has signed. -/
def Unforgeable (N : Network ι α) (s : Net ι α) (e : Event ι α) : Prop :=
  ∀ msg, e.message = some msg → ∀ hello, msg.hello = some hello →
    hmacVerify N.hmac N.secret (handshakeSignedData hello.body) hello.authHmac = true →
    handshakeSignedData hello.body ∈ s.signed.map fun g => handshakeSignedData g.body

/-- A nonce is not drawn again. -/
def FreshNonces (s : Net ι α) (e : Event ι α) : Prop :=
  ∀ draw, e.draw = some draw → ∀ g ∈ s.signed, g.body.nonce ≠ draw.nonce

/-- No node has signed the same values twice, and the accepted handshakes have been signed. -/
structure Sound (s : Net ι α) : Prop where
  nodup : (s.signed.map Signed.body).Nodup
  signed : ∀ a ∈ s.accepted, a.2 ∈ s.signed.map Signed.body

variable {N : Network ι α} {s : Net ι α} {e : Event ι α}

theorem mem_signed_of_unforgeable (h : Unforgeable N s e) {msg : WireMessage}
    (hmsg : e.message = some msg) {hello : Hello} (hhello : msg.hello = some hello)
    (hverify : hmacVerify N.hmac N.secret (handshakeSignedData hello.body) hello.authHmac = true) :
    hello.body ∈ s.signed.map Signed.body := by
  obtain ⟨g, hg, hdata⟩ := List.mem_map.1 (h msg hmsg hello hhello hverify)
  exact List.mem_map.2 ⟨g, hg, handshakeSignedData_inj hdata⟩

/-- The handshake that an event has a node accept. -/
def accepts (N : Network ι α) (s : Net ι α) : Event ι α → Option (ι × Body)
  | .inbound i addr now instant msg draw =>
    match (s.node i).handleInbound N.hmac (N.config i) addr now instant msg draw with
    | (_, _, .ok hello) => some (i, hello.body)
    | _ => none
  | _ => none

/-- The signature that an event adds. -/
def signs (N : Network ι α) (s : Net ι α) : Event ι α → Option (Signed ι α)
  | .connect i address draw => some (.handshake i address ((N.config i).body draw))
  | .send i nodeId draw =>
    ((s.node i).getPeer nodeId).map fun peer =>
      .handshake i peer.address ((N.config i).body draw)
  | .answer .. => none
  | .restart _ => none
  | .inbound i addr now instant msg draw =>
    (accepts N s (.inbound i addr now instant msg draw)).map fun a =>
      .ack i a.2 ((N.config i).body draw)


theorem mem_message_of_accepts {a : ι × Body} (h : accepts N s e = some a) :
    ∃ msg hello, e.message = some msg ∧ msg.hello = some hello ∧ hello.body = a.2 ∧
      hmacVerify N.hmac N.secret (handshakeSignedData hello.body) hello.authHmac = true := by
  cases e with
  | connect i address draw => cases h
  | send i nodeId draw => cases h
  | answer k now msg => cases h
  | restart i => cases h
  | inbound i addr now instant msg draw =>
    simp only [accepts] at h
    split at h
    · rename_i node reply hello hok
      cases h
      obtain ⟨hhello, hverify, -⟩ := handleInbound_eq_ok (congrArg (·.2.2) hok)
      rw [N.shared] at hverify
      exact ⟨msg, hello, rfl, hhello, rfl, hverify⟩
    · cases h

theorem mem_signed_of_accepts (h : Unforgeable N s e) {a : ι × Body}
    (ha : accepts N s e = some a) : a.2 ∈ s.signed.map Signed.body := by
  obtain ⟨msg, hello, hmsg, hhello, hbody, hverify⟩ := mem_message_of_accepts ha
  rw [← hbody]
  exact mem_signed_of_unforgeable h hmsg hhello hverify

theorem signs_fresh (h : FreshNonces s e) {g : Signed ι α} (hg : signs N s e = some g) :
    g.body ∉ s.signed.map Signed.body := by
  have hdraw : ∃ draw, e.draw = some draw ∧ g.body.nonce = draw.nonce := by
    cases e with
    | connect i address draw =>
      cases hg
      exact ⟨draw, rfl, rfl⟩
    | send i nodeId draw =>
      obtain ⟨peer, -, rfl⟩ := Option.map_eq_some_iff.1 hg
      exact ⟨draw, rfl, rfl⟩
    | answer k now msg => cases hg
    | restart i => cases hg
    | inbound i addr now instant msg draw =>
      obtain ⟨a, -, rfl⟩ := Option.map_eq_some_iff.1 hg
      exact ⟨draw, rfl, rfl⟩
  obtain ⟨draw, hdraw, hnonce⟩ := hdraw
  intro hmem
  obtain ⟨g', hg', hbody⟩ := List.mem_map.1 hmem
  exact h draw hdraw g' hg' (by rw [hbody, hnonce])

/-- What an event makes of the nodes. -/
def step [DecidableEq ι] (N : Network ι α) (s : Net ι α) : Event ι α → Net ι α
  | .connect i address draw => s.start N i .connect address draw
  | .send i nodeId draw =>
    match (s.node i).getPeer nodeId with
    | none => s
    | some peer => s.start N i (.send nodeId) peer.address draw
  | .answer k now msg =>
    match s.openSession k with
    | none => s
    | some x =>
      let s := { s with sessions := s.sessions.set k { x with ended := true } }
      match x.purpose, N.acceptsAck x now msg with
      | .connect, some hello =>
        { s with node := Function.update s.node x.initiator
                  ((s.node x.initiator).addPeer x.address hello) }
      | _, _ => s
  | .restart i =>
    { s with
      node := Function.update s.node i {}
      sessions := s.sessions.map fun x => if x.initiator = i then { x with ended := true } else x }
  | .inbound i addr now instant msg draw =>
    match (s.node i).handleInbound N.hmac (N.config i) addr now instant msg draw with
    | (node, _, .error _) => { s with node := Function.update s.node i node }
    | (node, _, .ok hello) =>
      { s with
        node := Function.update s.node i node
        signed := s.signed ++ [.ack i hello.body ((N.config i).body draw)]
        accepted := s.accepted ++ [(i, hello.body)] }

theorem step_adds [DecidableEq ι] (N : Network ι α) (s : Net ι α) (e : Event ι α) :
    (step N s e).signed = s.signed ++ (signs N s e).toList ∧
      (step N s e).accepted = s.accepted ++ (accepts N s e).toList := by
  cases e with
  | connect i address draw => exact ⟨rfl, (List.append_nil _).symm⟩
  | send i nodeId draw =>
    simp only [step, signs, accepts]
    cases (s.node i).getPeer nodeId with
    | none => simp
    | some peer => exact ⟨rfl, (List.append_nil _).symm⟩
  | answer k now msg =>
    simp only [step, signs, accepts, Option.toList_none, List.append_nil]
    cases s.openSession k with
    | none => exact ⟨rfl, rfl⟩
    | some x =>
      obtain ⟨i, purpose, address, body, ended⟩ := x
      cases purpose with
      | send nodeId => exact ⟨rfl, rfl⟩
      | connect =>
        dsimp only
        split <;> exact ⟨rfl, rfl⟩
  | restart i => exact ⟨(List.append_nil _).symm, (List.append_nil _).symm⟩
  | inbound i addr now instant msg draw =>
    simp only [step, signs, accepts]
    rcases (s.node i).handleInbound N.hmac (N.config i) addr now instant msg draw with
      ⟨node, reply, _ | hello⟩
    · simp
    · exact ⟨rfl, rfl⟩

theorem Sound.step [DecidableEq ι] (h : Sound s) (hforge : Unforgeable N s e)
    (hfresh : FreshNonces s e) :
    Sound (step N s e) := by
  obtain ⟨hsigned, haccepted⟩ := step_adds N s e
  refine ⟨?_, fun a ha => ?_⟩
  · rw [hsigned, List.map_append, List.nodup_append]
    refine ⟨h.nodup, ?_, ?_⟩
    · cases signs N s e <;> simp
    · rintro b hb b' hb' rfl
      obtain ⟨g, hg, rfl⟩ := List.mem_map.1 hb'
      exact signs_fresh hfresh (Option.mem_toList.1 hg) hb
  · rw [hsigned, List.map_append]
    rw [haccepted] at ha
    refine List.mem_append_left _ ?_
    rcases List.mem_append.1 ha with ha | ha
    · exact h.signed a ha
    · exact mem_signed_of_accepts hforge (Option.mem_toList.1 ha)

/-- No node has done anything. -/
theorem sound_start : Sound ({} : Net ι α) := ⟨List.nodup_nil, nofun⟩

/-- A signature is the only one of its values. -/
theorem Sound.eq (h : Sound s) {g g' : Signed ι α} (hg : g ∈ s.signed) (hg' : g' ∈ s.signed)
    (hbody : g.body = g'.body) : g = g' :=
  List.inj_on_of_nodup_map h.nodup hg hg' hbody

/-! ### Copies of what was signed -/

theorem acceptsAck_hello {x : Session ι α} {i : ι} {now : Int64} {draw : Draw}
    (hfresh : timestampIsFresh now draw.timestamp = true) (id : String) :
    N.acceptsAck x now ⟨id, .response (.handshakeAck ((N.config i).hello N.hmac draw))⟩ =
      some ((N.config i).hello N.hmac draw) := by
  have hshared : (N.config x.initiator).sharedSecret = (N.config i).sharedSecret :=
    (N.shared _).trans (N.shared _).symm
  rw [Network.acceptsAck, checkAck_hello hshared hfresh]
  rfl

theorem accepts_hello {i j : ι} {addr : α} {now : Int64} {instant : ℕ} {draw draw' : Draw}
    (hfresh : timestampIsFresh now draw.timestamp = true)
    (hnonce : ((s.node i).registerNonce instant draw.nonce.1).2 = true) (id : String) :
    accepts N s (.inbound i addr now instant
      ⟨id, .request (.handshake ((N.config j).hello N.hmac draw))⟩ draw') =
      some (i, (N.config j).body draw) := by
  have hshared : (N.config i).sharedSecret = (N.config j).sharedSecret :=
    (N.shared _).trans (N.shared _).symm
  have hok := @handleInbound_hello _ N.hmac (s.node i) _ _ hshared _ _ _ draw' hfresh hnonce addr id
  simp only [accepts]
  generalize (s.node i).handleInbound N.hmac (N.config i) addr now instant
    ⟨id, .request (.handshake ((N.config j).hello N.hmac draw))⟩ draw' = result at hok ⊢
  obtain ⟨node, reply, outcome⟩ := result
  obtain rfl : outcome = .ok ((N.config j).hello N.hmac draw) := hok
  rfl

/-- A message to a node leaves the handshakes that were started as they are. -/
theorem sessions_inbound [DecidableEq ι] (i : ι) (addr : α) (now : Int64) (instant : ℕ)
    (msg : WireMessage) (draw : Draw) :
    (step N s (.inbound i addr now instant msg draw)).sessions = s.sessions := by
  simp only [step]
  rcases (s.node i).handleInbound N.hmac (N.config i) addr now instant msg draw with
    ⟨node, reply, _ | hello⟩ <;> rfl

/-- A message to a node leaves the other nodes as they are. -/
theorem node_inbound [DecidableEq ι] {i j : ι} (hne : j ≠ i) (addr : α) (now : Int64) (instant : ℕ)
    (msg : WireMessage) (draw : Draw) :
    (step N s (.inbound i addr now instant msg draw)).node j = s.node j := by
  simp only [step]
  rcases (s.node i).handleInbound N.hmac (N.config i) addr now instant msg draw with
    ⟨node, reply, _ | hello⟩ <;> exact Function.update_of_ne hne _ _

/-- A copy of what was signed is no forgery. -/
theorem unforgeable_of_mem
    (h : ∀ msg, e.message = some msg → ∀ hello, msg.hello = some hello →
      hello.body ∈ s.signed.map Signed.body) : Unforgeable N s e := by
  intro msg hmsg hello hhello _
  obtain ⟨g, hg, hbody⟩ := List.mem_map.1 (h msg hmsg hello hhello)
  exact List.mem_map.2 ⟨g, hg, congrArg handshakeSignedData hbody⟩

/-! ### Three nodes -/

/-- Three nodes, at the addresses 0, 1 and 2, and a toy for HMAC. -/
def threeNodes : Network (Fin 3) ℕ where
  hmac secret data := secret ++ String.ofList (data.map fun b => Char.ofNat b.toNat)
  secret := "secret"
  config i := { nodeId := "node-" ++ toString i, nodeName := "kernel", sharedSecret := "secret" }
  shared _ := rfl
  listener a := if h : a < 3 then some ⟨a, h⟩ else none

/-- What a node draws, with its nonce. -/
def drawOf (nonce : Nonce) : Draw := { nonce := nonce, timestamp := 1000, agents := [] }

/-- A nonce. -/
def nonceA : Nonce := ⟨"6f1f0d5e-0a34-4c3e-9d55-3a1f3e1d6a01", by decide⟩

/-- Another nonce. -/
def nonceB : Nonce := ⟨"0b7c2a9e-91f4-4d0b-8f0e-5a4f0c7c7b02", by decide⟩

/-- A third nonce. -/
def nonceC : Nonce := ⟨"d2a9c0f4-5b1e-47f7-a0c3-77b1e2c95c03", by decide⟩

theorem nonceA_ne_nonceB : nonceA ≠ nonceB := by decide

/-- Node 0 connects to node 1, which accepts its handshake. -/
def connected : List (Event (Fin 3) ℕ) :=
  [.connect 0 1 (drawOf nonceA),
    .inbound 1 7 1000 0
      ⟨"1", .request (.handshake ((threeNodes.config 0).hello threeNodes.hmac (drawOf nonceA)))⟩
      (drawOf nonceB)]

/-- Node 0 connects to node 1, which answers. -/
def answered : List (Event (Fin 3) ℕ) :=
  connected ++ [.answer 0 1000
    ⟨"1", .response (.handshakeAck ((threeNodes.config 1).hello threeNodes.hmac (drawOf nonceB)))⟩]

/-- Node 0 connects to node 1, and reads its own handshake as an ack. -/
def reflected : List (Event (Fin 3) ℕ) :=
  [.connect 0 1 (drawOf nonceA),
    .answer 0 1000
      ⟨"1", .response (.handshakeAck ((threeNodes.config 0).hello threeNodes.hmac
        (drawOf nonceA)))⟩]

/-- The handshake of node 0 to node 1 is also delivered to node 2. -/
def replayed : List (Event (Fin 3) ℕ) :=
  connected ++ [.inbound 2 7 1000 0
    ⟨"1", .request (.handshake ((threeNodes.config 0).hello threeNodes.hmac (drawOf nonceA)))⟩
    (drawOf nonceC)]

theorem signed_connected : (run (step threeNodes) {} connected).signed =
    [.handshake 0 1 ((threeNodes.config 0).body (drawOf nonceA)),
      .ack 1 ((threeNodes.config 0).body (drawOf nonceA))
        ((threeNodes.config 1).body (drawOf nonceB))] := by
  rw [connected, run_cons, run_cons, run_nil]
  rw [(step_adds _ _ _).1, signs, accepts_hello (by decide) (by decide)]
  rfl

theorem accepted_connected : (run (step threeNodes) {} connected).accepted =
    [(1, (threeNodes.config 0).body (drawOf nonceA))] := by
  rw [connected, run_cons, run_cons, run_nil]
  rw [(step_adds _ _ _).2, accepts_hello (by decide) (by decide)]
  rfl

theorem connected_assumed : Along (step threeNodes)
    (fun s e => Unforgeable threeNodes s e ∧ FreshNonces s e) {} connected := by
  refine ⟨⟨unforgeable_of_mem nofun, fun draw _ => nofun⟩, ⟨?_, ?_⟩, trivial⟩
  · refine unforgeable_of_mem fun msg hmsg hello hhello => ?_
    cases hmsg
    cases hhello
    exact List.mem_singleton.2 rfl
  · rintro draw ⟨rfl⟩ g hg
    rw [List.mem_singleton.1 hg]
    exact nonceA_ne_nonceB

end Wire
end RustyHand
