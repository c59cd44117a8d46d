import Mathlib.Data.Nat.Notation
import RustyHand.Lib.ChunkedReader
import RustyHand.Lib.Framing

/-!
# Messages between peers, and their frames

`rusty-hand-wire/src/message.rs` and `read_framed` of `rusty-hand-wire/src/peer.rs`.
-/

/-!
## Messages between peers

`rusty-hand-wire/src/message.rs`.  A message that a handshake reads comes in a frame of at most
`handshakeMaxSize` bytes, so that its nonce is no longer than that.
-/

namespace RustyHand
namespace Wire

/-- `PROTOCOL_VERSION`. -/
def protocolVersion : UInt32 := 2

/-- `HANDSHAKE_MAX_SIZE`. -/
def handshakeMaxSize : ℕ := 1024 * 1024

/-- A nonce that fits in a frame. -/
abbrev Nonce : Type := { s : String // s.utf8ByteSize ≤ handshakeMaxSize }

/-- `RemoteAgentInfo`. -/
structure RemoteAgentInfo where
  id : String
  name : String
  description : String
  tags : List String
  tools : List String
  state : String

/-- The fields that a handshake and its ack share. -/
structure Hello where
  nodeId : String
  nodeName : String
  protocolVersion : UInt32
  agents : List RemoteAgentInfo
  nonce : Nonce
  timestamp : Int64
  authHmac : String

/-- `WireRequest`. -/
inductive WireRequest
  | handshake (hello : Hello)
  | discover (query : String)
  | agentMessage (agent message : String) (sender : Option String)
  | ping

/-- `WireResponse`. -/
inductive WireResponse
  | handshakeAck (hello : Hello)
  | discoverResult (agents : List RemoteAgentInfo)
  | agentResponse (text : String)
  | pong (uptimeSecs : UInt64)
  | error (code : Int32) (message : String)

/-- `WireNotification`. -/
inductive WireNotification
  | agentSpawned (agent : RemoteAgentInfo)
  | agentTerminated (agentId : String)
  | shuttingDown

/-- `WireMessageKind`. -/
inductive WireMessageKind
  | request (request : WireRequest)
  | response (response : WireResponse)
  | notification (notification : WireNotification)

/-- `WireMessage`. -/
structure WireMessage where
  id : String
  kind : WireMessageKind

/-- The fields of a handshake or of an ack, if a message is one. -/
def WireMessage.hello : WireMessage → Option Hello
  | ⟨_, .request (.handshake hello)⟩ => some hello
  | ⟨_, .response (.handshakeAck hello)⟩ => some hello
  | _ => none

end Wire
end RustyHand

/-!
## Frames

`encode_message`, `decode_length` and `decode_message` of `rusty-hand-wire/src/message.rs`, and
`read_framed` of `rusty-hand-wire/src/peer.rs`.  JSON is an argument, and so is the type of the
messages.

* `encodeMessage`: the length, which is cast to `u32`, and the JSON;
* `readFramed`: the reader, on a stream that arrives in pieces, stalls or fails;
* `ReadsBack`: the messages come one after the other, each with exactly its bytes;
* `readsBack_iff_length_le`: they do exactly if no JSON is longer than the reader lets pass.
-/

namespace RustyHand
namespace Wire

open ChunkedReader Framing

/-- `serde_json::to_vec` and `serde_json::from_slice`. -/
structure JsonCodec (Msg E : Type*) where
  toVec : Msg → Except E (List UInt8)
  fromSlice : List UInt8 → Except E Msg

/-- What is written is read back. -/
def JsonCodec.Lawful {Msg E : Type*} (serde : JsonCodec Msg E) : Prop :=
  ∀ msg json, serde.toVec msg = .ok json → serde.fromSlice json = .ok msg

/-- `WireError`, as far as a frame gives rise to it. -/
inductive FrameError (E ε : Type*)
  | io (e : ε)
  | json (e : E)
  | connectionClosed
  | messageTooLarge (size max : UInt32)

/-- `MAX_MESSAGE_SIZE`. -/
def Frames.maxMessageSize : UInt32 := 16 * 1024 * 1024

/-- `BODY_READ_CHUNK`. -/
def bodyReadChunk : ℕ := 64 * 1024

variable {Msg E ε : Type*} (serde : JsonCodec Msg E)

/-- `encode_message`. -/
def encodeMessage (msg : Msg) : Except E (List UInt8) :=
  (serde.toVec msg).map fun json => bigEndian 4 (UInt32.ofNat json.length).toNat ++ json

/-- `decode_length`. -/
def decodeLength (header : List UInt8) : UInt32 :=
  header.foldl (fun n b => n * 256 + b.toUInt32) 0

/-- The error of a read that stops. -/
def FrameError.ofStop : Stop ε → FrameError E ε
  | .eof => .connectionClosed
  | .elapsed => .connectionClosed
  | .failed e => .io e

/-- `read_framed`; it is `timed` if a timeout is given. -/
def readFramed (maxSize : UInt32) (timed : Bool) (stream : List (Arrival UInt8 ε)) :
    Except (FrameError E ε) Msg × List (Arrival UInt8 ε) :=
  match fill timed 4 4 stream with
  | (.error e, stream') => (.error (.ofStop e), stream')
  | (.ok header, stream') =>
    let len := decodeLength header
    if maxSize < len then (.error (.messageTooLarge len maxSize), stream')
    else
      match fill timed bodyReadChunk len.toNat stream' with
      | (.error e, stream'') => (.error (.ofStop e), stream'')
      | (.ok body, stream'') => ((serde.fromSlice body).mapError .json, stream'')

/-- `read_message`. -/
def readMessage (stream : List (Arrival UInt8 ε)) :
    Except (FrameError E ε) Msg × List (Arrival UInt8 ε) :=
  readFramed serde Frames.maxMessageSize false stream

/-- `read_message_bounded`. -/
def readMessageBounded (maxSize : UInt32) (stream : List (Arrival UInt8 ε)) :
    Except (FrameError E ε) Msg × List (Arrival UInt8 ε) :=
  readFramed serde maxSize true stream

/-- Reading again and again returns these messages, and each takes the bytes of its frame. -/
def ReadsBack (maxSize : UInt32) (timed : Bool) :
    List (Msg × List UInt8) → List (Arrival UInt8 ε) → Prop
  | [], _ => True
  | (msg, frame) :: sent, stream =>
    ∃ stream', readFramed serde maxSize timed stream = (.ok msg, stream') ∧
      bytes stream = frame ++ bytes stream' ∧ ReadsBack maxSize timed sent stream'

/-! ### Lengths -/

theorem foldl_bigEndian (w n : ℕ) :
    (bigEndian w n).foldl (fun m b => m * 256 + b.toUInt32) 0 = UInt32.ofNat (n % 256 ^ w) := by
  induction w generalizing n with
  | zero => simp [bigEndian, littleEndian, Nat.mod_one]
  | succ w ih =>
    have hlast : bigEndian (w + 1) n = bigEndian w (n / 256) ++ [UInt8.ofNat n] := by
      rw [bigEndian, littleEndian, List.reverse_cons]
      rfl
    have hmod : n % 256 ^ (w + 1) = n / 256 % 256 ^ w * 256 + n % 256 := by
      rw [pow_succ', Nat.mod_mul]
      omega
    have hbyte : (UInt8.ofNat n).toUInt32 = UInt32.ofNat (n % 256) :=
      UInt32.toNat_inj.1 (by simp; omega)
    rw [hlast, List.foldl_append, ih, hmod, UInt32.ofNat_add, UInt32.ofNat_mul, ← hbyte]
    rfl

theorem decodeLength_bigEndian (len : UInt32) : decodeLength (bigEndian 4 len.toNat) = len := by
  have hlt : len.toNat < 256 ^ 4 := len.toNat_lt
  rw [decodeLength, foldl_bigEndian, Nat.mod_eq_of_lt hlt, UInt32.ofNat_toNat]

/-! ### One frame -/

variable {serde} {maxSize : UInt32} {timed : Bool} {stream : List (Arrival UInt8 ε)} {msg : Msg}
  {frame json rest : List UInt8}

theorem encodeMessage_eq_ok_iff :
    encodeMessage serde msg = .ok frame ↔ ∃ json, serde.toVec msg = .ok json ∧
      frame = bigEndian 4 (UInt32.ofNat json.length).toNat ++ json := by
  rw [encodeMessage]
  cases serde.toVec msg with
  | error e => exact iff_of_false (by rintro ⟨⟩) (by rintro ⟨_, ⟨⟩, _⟩)
  | ok json => simp [Except.map, eq_comm]

/-- What is read where a frame begins.  The length in front of the JSON is that of the JSON up to
multiples of `2 ^ 32`. -/
theorem readFramed_frame (hdata : OnlyData stream)
    (hbytes : bytes stream = bigEndian 4 (UInt32.ofNat json.length).toNat ++ json ++ rest) :
    let len := UInt32.ofNat json.length
    ∃ stream', OnlyData stream' ∧
      if maxSize < len then
        readFramed serde maxSize timed stream = (.error (.messageTooLarge len maxSize), stream')
      else
        readFramed serde maxSize timed stream =
            ((serde.fromSlice (json.take len.toNat)).mapError .json, stream') ∧
          bytes stream' = json.drop len.toNat ++ rest := by
  intro len
  have hheader : (bigEndian 4 len.toNat).length = 4 := length_bigEndian 4 _
  have hlen : len.toNat ≤ json.length := by
    rw [UInt32.toNat_ofNat']
    exact Nat.mod_le _ _
  obtain ⟨stream', hfill, hdrop, hdata'⟩ :=
    @fill_of_onlyData _ _ timed 4 stream (by omega) 4 hdata (by rw [hbytes]; simp)
  rw [hbytes, List.append_assoc, List.take_left' hheader] at hfill
  rw [hbytes, List.append_assoc, List.drop_left' hheader] at hdrop
  rw [readFramed, hfill]
  dsimp only
  rw [decodeLength_bigEndian]
  by_cases hlarge : maxSize < len
  · rw [if_pos hlarge]
    exact ⟨stream', hdata', by rw [if_pos hlarge]⟩
  · obtain ⟨stream'', hfill', hdrop', hdata''⟩ :=
      @fill_of_onlyData _ _ timed bodyReadChunk stream' (by decide) len.toNat hdata'
        (by rw [hdrop, List.length_append]; omega)
    rw [hdrop, List.take_append_of_le_length hlen] at hfill'
    rw [hdrop, List.drop_append_of_le_length hlen] at hdrop'
    rw [if_neg hlarge, hfill']
    exact ⟨stream'', hdata'', by rw [if_neg hlarge]; exact ⟨rfl, hdrop'⟩⟩

/-- A frame is read and taken off exactly if the JSON is not too long. -/
theorem readFramed_eq_ok_iff (hserde : serde.Lawful) (hjson : serde.toVec msg = .ok json)
    (hdata : OnlyData stream)
    (hbytes : bytes stream = bigEndian 4 (UInt32.ofNat json.length).toNat ++ json ++ rest) :
    ∃ next, OnlyData next ∧ ∀ stream',
      readFramed serde maxSize timed stream = (.ok msg, stream') ∧ bytes stream' = rest ↔
        stream' = next ∧ json.length ≤ maxSize.toNat := by
  have hread := @readFramed_frame _ _ _ serde maxSize timed stream json rest hdata hbytes
  dsimp only at hread
  obtain ⟨next, hnext, hread⟩ := hread
  have hmod : (UInt32.ofNat json.length).toNat = json.length % 2 ^ 32 := UInt32.toNat_ofNat'
  have hmax := maxSize.toNat_lt
  have hlt : maxSize < UInt32.ofNat json.length ↔ maxSize.toNat < json.length % 2 ^ 32 := by
    rw [UInt32.lt_iff_toNat_lt, hmod]
  refine ⟨next, hnext, fun stream' => ⟨?_, ?_⟩⟩
  · rintro ⟨hok, hrest⟩
    split_ifs at hread with hlarge
    · rw [hread] at hok
      cases hok
    · rw [hread.1] at hok
      obtain ⟨-, rfl⟩ := Prod.mk.inj hok
      have hlength := congrArg List.length (hread.2.symm.trans hrest)
      rw [List.length_append, List.length_drop] at hlength
      have := mt hlt.2 hlarge
      exact ⟨rfl, by omega⟩
  · rintro ⟨rfl, hle⟩
    have hsame : (UInt32.ofNat json.length).toNat = json.length := by omega
    rw [if_neg (mt hlt.1 (by omega)), hsame, List.take_length, List.drop_length, List.nil_append,
      hserde msg json hjson] at hread
    exact hread

/-! ### All frames -/

/-- The messages come back, in order and each with exactly its bytes, if and only if the JSON of
none is longer than what the reader lets pass. -/
theorem readsBack_iff_length_le (hserde : serde.Lawful) {sent : List (Msg × List UInt8)}
    (hsent : ∀ p ∈ sent, encodeMessage serde p.1 = .ok p.2) (hdata : OnlyData stream)
    (hbytes : bytes stream = sent.flatMap Prod.snd ++ rest) :
    ReadsBack serde maxSize timed sent stream ↔
      ∀ p ∈ sent, ∀ json, serde.toVec p.1 = .ok json → json.length ≤ maxSize.toNat := by
  induction sent generalizing stream with
  | nil => exact iff_of_true trivial fun _ hp => absurd hp List.not_mem_nil
  | cons p sent ih =>
    obtain ⟨msg, frame⟩ := p
    obtain ⟨hframe, htail⟩ := List.forall_mem_cons.1 hsent
    obtain ⟨json, hjson, rfl⟩ := encodeMessage_eq_ok_iff.1 hframe
    rw [List.flatMap_cons, List.append_assoc] at hbytes
    obtain ⟨next, hnext, hfirst⟩ := @readFramed_eq_ok_iff _ _ _ serde maxSize timed stream msg json
      _ hserde hjson hdata hbytes
    have hone : (∀ json', serde.toVec msg = .ok json' → json'.length ≤ maxSize.toNat) ↔
        json.length ≤ maxSize.toNat :=
      ⟨fun h => h json hjson, fun h json' hjson' => Except.ok.inj (hjson.symm.trans hjson') ▸ h⟩
    rw [ReadsBack, List.forall_mem_cons, hone, hbytes]
    constructor
    · rintro ⟨stream', hread, htake, hback⟩
      obtain ⟨rfl, hle⟩ := (hfirst stream').1 ⟨hread, (List.append_cancel_left htake).symm⟩
      exact ⟨hle, (ih htail hnext (List.append_cancel_left htake).symm).1 hback⟩
    · rintro ⟨hle, hrest⟩
      obtain ⟨hread, htake⟩ := (hfirst next).2 ⟨rfl, hle⟩
      exact ⟨next, hread, by rw [htake], (ih htail hnext htake).2 hrest⟩

/-! ### Pings -/

/-- What stands around the identifier of a ping. -/
def pingFront : List UInt8 := utf8 "\x7b\"id\":\""

def pingBack : List UInt8 := utf8 "\",\"type\":\"request\",\"method\":\"ping\"\x7d"

/-- An identifier that JSON does not escape. -/
def isPlainId (id : String) : Bool := id.toList.all Char.isAlphanum

def pingJson (id : String) : List UInt8 := pingFront ++ utf8 id ++ pingBack

/-- JSON for the pings with a plain identifier. -/
def pingCodec : JsonCodec WireMessage String where
  toVec
    | ⟨id, .request .ping⟩ => if isPlainId id then .ok (pingJson id) else .error "not plain"
    | _ => .error "not a ping"
  fromSlice json :=
    match fromUtf8 ((json.drop pingFront.length).take
      (json.length - pingFront.length - pingBack.length)) with
    | some id =>
      if isPlainId id ∧ json = pingJson id then .ok ⟨id, .request .ping⟩ else .error "not a ping"
    | none => .error "not a ping"

theorem pingCodec_lawful : pingCodec.Lawful := by
  intro msg json h
  unfold pingCodec at h
  dsimp only at h
  split at h
  · split_ifs at h with hplain
    rename_i id
    obtain rfl := Except.ok.inj h
    have hid : ((pingJson id).drop pingFront.length).take
        ((pingJson id).length - pingFront.length - pingBack.length) = utf8 id := by
      rw [pingJson, List.append_assoc, List.drop_left, List.length_append, List.length_append,
        List.take_left' (by omega)]
    unfold pingCodec
    dsimp only
    rw [hid, fromUtf8_utf8]
    exact if_pos ⟨hplain, rfl⟩
  · cases h

def pingFrame (id : String) : List UInt8 :=
  bigEndian 4 (UInt32.ofNat (pingJson id).length).toNat ++ pingJson id

theorem toVec_ping {id : String} (h : isPlainId id = true) :
    pingCodec.toVec ⟨id, .request .ping⟩ = .ok (pingJson id) := if_pos h

theorem encodeMessage_ping {id : String} (h : isPlainId id = true) :
    encodeMessage pingCodec ⟨id, .request .ping⟩ = .ok (pingFrame id) :=
  encodeMessage_eq_ok_iff.2 ⟨_, toVec_ping h, rfl⟩

/-- Two pings come back, where the second arrives cut in the middle of its length. -/
theorem readsBack_two_pings :
    ReadsBack pingCodec Frames.maxMessageSize false
      [(⟨"a", .request .ping⟩, pingFrame "a"), (⟨"b", .request .ping⟩, pingFrame "b")]
      [.data (pingFrame "a" ++ (pingFrame "b").take 2),
        (.data ((pingFrame "b").drop 2) : Arrival UInt8 String)] := by
  have hplain : ∀ id ∈ ["a", "b"], isPlainId id = true ∧
      (pingJson id).length ≤ Frames.maxMessageSize.toNat := by decide
  obtain ⟨ha, hb⟩ := (List.forall_mem_cons.1 hplain).imp_right (fun h => h "b" (by simp))
  refine (readsBack_iff_length_le pingCodec_lawful (List.forall_mem_cons.2
    ⟨encodeMessage_ping ha.1, List.forall_mem_singleton.2 (encodeMessage_ping hb.1)⟩)
    (List.forall_mem_cons.2 ⟨⟨_, rfl⟩, List.forall_mem_singleton.2 ⟨_, rfl⟩⟩)
    (show _ = _ ++ [] by simp [bytes])).2 ?_
  refine List.forall_mem_cons.2 ⟨fun json hjson => ?_,
    List.forall_mem_singleton.2 fun json hjson => ?_⟩
  · exact Except.ok.inj ((toVec_ping ha.1).symm.trans hjson) ▸ ha.2
  · exact Except.ok.inj ((toVec_ping hb.1).symm.trans hjson) ▸ hb.2

theorem length_utf8_replicate (n : ℕ) :
    (utf8 (String.ofList (List.replicate n 'a'))).length = n := by
  rw [utf8, String.toList_ofList]
  induction n with
  | zero => rfl
  | succ n ih =>
    rw [List.replicate_succ, List.flatMap_cons, List.length_append, ih]
    exact Nat.add_comm 1 n

theorem exists_long_ping (n : ℕ) : ∃ id, isPlainId id = true ∧ n < (pingJson id).length := by
  have hfront : 0 < pingFront.length := by decide
  refine ⟨String.ofList (List.replicate n 'a'), ?_, ?_⟩
  · rw [isPlainId, String.toList_ofList, List.all_replicate]
    simp
  · rw [pingJson, List.length_append, List.length_append, length_utf8_replicate]
    omega

/-- A message is written that is not read. -/
theorem readFramed_rejects_long_ping :
    ¬ ∀ serde : JsonCodec WireMessage String, serde.Lawful →
      ∀ (sent : List (WireMessage × List UInt8)) (stream : List (Arrival UInt8 String)),
        (∀ p ∈ sent, encodeMessage serde p.1 = .ok p.2) → OnlyData stream →
          bytes stream = sent.flatMap Prod.snd →
            ReadsBack serde Frames.maxMessageSize false sent stream := by
  intro h
  obtain ⟨id, hplain, hlong⟩ := exists_long_ping Frames.maxMessageSize.toNat
  have hdata : OnlyData [(.data (pingFrame id) : Arrival UInt8 String)] :=
    List.forall_mem_singleton.2 ⟨_, rfl⟩
  obtain ⟨stream', hread, hbytes, -⟩ := h pingCodec pingCodec_lawful
    [(⟨id, .request .ping⟩, pingFrame id)] [.data (pingFrame id)]
    (List.forall_mem_singleton.2 (encodeMessage_ping hplain)) hdata (by simp [bytes])
  obtain ⟨next, -, hok⟩ := @readFramed_eq_ok_iff _ _ _ pingCodec Frames.maxMessageSize false
    [.data (pingFrame id)] ⟨id, .request .ping⟩ _ [] pingCodec_lawful
    (toVec_ping hplain) hdata (by simp [bytes, pingFrame])
  have hrest : bytes stream' = [] := by
    rw [bytes_cons, bytes_nil, bytes_data] at hbytes
    exact (List.append_cancel_left hbytes).symm
  exact absurd ((hok stream').1 ⟨hread, hrest⟩).2 (Nat.not_le_of_lt hlong)

end Wire
end RustyHand
