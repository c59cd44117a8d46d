import RustyHand.Lib.Runs
import RustyHand.Lib.SeenCache
import RustyHand.Wire.Peer

/-!
# Replays of a handshake

`handle_inbound`, in any number of tasks at once.  A task reads the clock to see whether a handshake
is fresh, and reads it again when it has got the lock of the nonces; other tasks may run in between,
and as much time may pass there as the scheduler and the lock let it.

* `checkHandshake`, `PeerNode.registerHandshake`: the two parts of `handleInbound`;
* `Door`, `Arrival`, `Door.step`: the tasks of a node, and what they do in any order;
* `Door.NoReplay`: no two accepted handshakes share a nonce and a timestamp;
* `noReplay_iff`: how far apart the two readings of a task may be.
-/

namespace RustyHand
namespace Wire

open Runs

variable {α : Type*}

/-- `DateTime::<Utc>::MAX_UTC`, in seconds.  `Utc::now` panics at later times. -/
def maxUtcSecs : ℕ := 8210266876799

/-- A reading of the clock, in nanoseconds since 1970. -/
abbrev Reading : Type := { t : ℕ // t / 1000000000 ≤ maxUtcSecs }

/-- `Utc::now().timestamp()`. -/
def Reading.timestamp (t : Reading) : Int64 := Int64.ofInt (t.1 / 1000000000 : ℕ)

/-! ### The two parts of `handle_inbound` -/

section Code

variable (hmac : String → List UInt8 → String)

/-- `handle_inbound`, until it asks for the lock of the nonces. -/
def checkHandshake (config : PeerConfig) (now : Int64) (msg : WireMessage) :
    Except (WireMessage × WireError) Hello :=
  match msg.kind with
  | .request (.handshake hello) =>
    if hello.protocolVersion ≠ protocolVersion then
      .error (errorResponse msg 1 ("Protocol version mismatch: expected " ++
          toString protocolVersion ++ ", got " ++ toString hello.protocolVersion),
        .versionMismatch protocolVersion hello.protocolVersion)
    else if ¬ hmacVerify hmac config.sharedSecret
        (handshakeSignedData hello.body) hello.authHmac then
      .error (errorResponse msg 403 "HMAC authentication failed",
        .handshakeFailed "HMAC verification failed on incoming Handshake")
    else if ¬ timestampIsFresh now hello.timestamp then
      .error (errorResponse msg 403 "Stale or replayed handshake",
        .handshakeFailed "Rejected stale/replayed handshake")
    else .ok hello
  | _ =>
    .error (errorResponse msg 401 "Authentication required: complete HMAC handshake first",
      .handshakeFailed "Rejected unauthenticated request — handshake required")

/-- `handle_inbound`, from the lock of the nonces to the dispatch loop. -/
def PeerNode.registerHandshake (node : PeerNode α) (config : PeerConfig) (addr : α) (instant : ℕ)
    (msg : WireMessage) (hello : Hello) (draw : Draw) :
    PeerNode α × WireMessage × Except WireError Hello :=
  match node.registerNonce instant hello.nonce.1 with
  | (node, false) =>
    (node, errorResponse msg 403 "Stale or replayed handshake",
      .error (.handshakeFailed "Rejected stale/replayed handshake"))
  | (node, true) =>
    (node.addPeer addr hello,
      { id := msg.id, kind := .response (.handshakeAck (config.hello hmac draw)) }, .ok hello)

end Code

variable {hmac : String → List UInt8 → String} {config : PeerConfig}

/-- `handle_inbound` is its two parts, when no other task comes in between. -/
theorem handleInbound_eq (node : PeerNode α) (addr : α) (now : Int64) (instant : ℕ)
    (msg : WireMessage) (draw : Draw) :
    node.handleInbound hmac config addr now instant msg draw =
      match checkHandshake hmac config now msg with
      | .error (response, e) => (node, response, .error e)
      | .ok hello => node.registerHandshake hmac config addr instant msg hello draw := by
  obtain ⟨id, kind⟩ := msg
  cases kind with
  | response response => rfl
  | notification notification => rfl
  | request request =>
    cases request with
    | handshake hello =>
      simp only [PeerNode.handleInbound, checkHandshake]
      split_ifs with hversion hverify hfresh
      · rfl
      · rfl
      · rfl
      · rfl
    | discover query => rfl
    | agentMessage agent message sender => rfl
    | ping => rfl

theorem fresh_of_checkHandshake {now : Int64} {msg : WireMessage} {hello : Hello}
    (h : checkHandshake hmac config now msg = .ok hello) :
    timestampIsFresh now hello.timestamp = true := by
  obtain ⟨id, kind⟩ := msg
  cases kind with
  | response response => cases h
  | notification notification => cases h
  | request request =>
    cases request with
    | handshake found =>
      simp only [checkHandshake] at h
      split_ifs at h with hversion hverify hfresh
      cases h
      exact hfresh
    | discover query => cases h
    | agentMessage agent message sender => cases h
    | ping => cases h

/-- What the node has signed itself gets to the nonces while it is fresh. -/
theorem checkHandshake_hello {now : Int64} {draw : Draw}
    (hfresh : timestampIsFresh now draw.timestamp = true) (id : String) :
    checkHandshake hmac config now ⟨id, .request (.handshake (config.hello hmac draw))⟩ =
      .ok (config.hello hmac draw) := by
  have hverify : hmacVerify hmac config.sharedSecret
      (handshakeSignedData (config.hello hmac draw).body) (config.hello hmac draw).authHmac =
          true :=
    decide_eq_true rfl
  simp only [checkHandshake]
  rw [if_neg (by simp [PeerConfig.hello]), if_neg (by simp [hverify]),
    if_neg (by simp [PeerConfig.hello, hfresh])]

theorem registerNonce_eq (node : PeerNode α) (instant : ℕ) (nonce : String) :
    node.registerNonce instant nonce =
      ({ node with
          nonceCache := (SeenCache.register nonceCacheTtl instant nonce node.nonceCache).1 },
        (SeenCache.register nonceCacheTtl instant nonce node.nonceCache).2) := by
  unfold PeerNode.registerNonce SeenCache.register
  dsimp only
  split <;> rfl

/-! ### The window of the freshness check -/

theorem toInt_timestamp (t : Reading) : t.timestamp.toInt = (t.1 / 1000000000 : ℕ) := by
  obtain ⟨t, ht⟩ := t
  have hmax : maxUtcSecs = 8210266876799 := rfl
  have hsize : Int64.size = 2 ^ 64 := rfl
  unfold Reading.timestamp
  rw [Int64.toInt_ofInt, Int.bmod_def, hsize]
  dsimp only
  omega

/-- The difference to a fresh timestamp is small, or the one number whose absolute value
overflows. -/
theorem toInt_of_timestampIsFresh {now timestamp : Int64}
    (h : timestampIsFresh now timestamp = true) :
    (now - timestamp).toInt = -9223372036854775808 ∨
      -60 ≤ (now - timestamp).toInt ∧ (now - timestamp).toInt ≤ 60 := by
  have hle : (now - timestamp).abs.toInt ≤ 60 := by
    have hdec := of_decide_eq_true h
    rw [Int64.le_iff_toInt_le] at hdec
    exact hdec
  generalize now - timestamp = d at hle ⊢
  have habs : d.abs.toInt = d.toBitVec.abs.toInt := rfl
  have hd : d.toInt = d.toBitVec.toInt := rfl
  rw [habs, BitVec.toInt_abs_eq_natAbs] at hle
  rw [hd]
  split at hle
  · rename_i hmin
    exact Or.inl (by rw [hmin]; rfl)
  · exact Or.inr (by omega)

/-- Two readings at which one timestamp is fresh are less than 121 seconds apart. -/
theorem lt_of_timestampIsFresh {t t' : Reading} {timestamp : Int64}
    (h : timestampIsFresh t.timestamp timestamp = true)
    (h' : timestampIsFresh t'.timestamp timestamp = true) : t'.1 < t.1 + 121 * 1000000000 := by
  have hsecs := toInt_of_timestampIsFresh h
  have hsecs' := toInt_of_timestampIsFresh h'
  rw [Int64.toInt_sub, toInt_timestamp, Int.bmod_def] at hsecs hsecs'
  have hmax : maxUtcSecs = 8210266876799 := rfl
  have ht := t.2
  have ht' := t'.2
  have hlow : -2 ^ 63 ≤ timestamp.toInt := Int64.le_toInt timestamp
  have hhigh : timestamp.toInt < 2 ^ 63 := Int64.toInt_lt timestamp
  omega

/-! ### The tasks of a node -/

/-- A task that has found its handshake fresh, and waits for the lock of the nonces. -/
structure Waiting (α : Type*) where
  addr : α
  msg : WireMessage
  hello : Hello
  checked : Reading

/-- A handshake that was accepted, with the two readings of the clock. -/
structure Accepted where
  hello : Hello
  checked : Reading
  registered : Reading

/-- A node with its tasks, what it has accepted so far, and the last reading of its clock. -/
structure Door (α : Type*) where
  node : PeerNode α := {}
  waiting : List (Waiting α) := []
  accepted : List Accepted := []
  clock : ℕ := 0

/-- What happens at a node. -/
inductive Arrival (α : Type*)
  /-- A new task reads its first message, and the clock. -/
  | check (addr : α) (msg : WireMessage) (t : Reading)
  /-- A waiting task gets the lock of the nonces, and reads the clock. -/
  | register (k : ℕ) (t : Reading) (draw : Draw)

/-- The reading of the clock. -/
def Arrival.time : Arrival α → ℕ
  | check _ _ t => t.1
  | register _ t _ => t.1

/-- What an arrival makes of a node. -/
def Door.step (hmac : String → List UInt8 → String) (config : PeerConfig) (s : Door α) :
    Arrival α → Door α
  | .check addr msg t =>
    match checkHandshake hmac config t.timestamp msg with
    | .error _ => { s with clock := t.1 }
    | .ok hello =>
      { s with
        waiting := s.waiting ++ [{ addr := addr, msg := msg, hello := hello, checked := t }]
        clock := t.1 }
  | .register k t draw =>
    match s.waiting[k]? with
    | none => { s with clock := t.1 }
    | some x =>
      match s.node.registerHandshake hmac config x.addr t.1 x.msg x.hello draw with
      | (node, _, .error _) =>
        { s with node := node, waiting := s.waiting.eraseIdx k, clock := t.1 }
      | (node, _, .ok hello) =>
        { node := node
          waiting := s.waiting.eraseIdx k
          accepted := s.accepted ++ [{ hello := hello, checked := x.checked, registered := t }]
          clock := t.1 }

/-- The clock of a node does not run backwards. -/
def Door.Monotone (s : Door α) (e : Arrival α) : Prop := s.clock ≤ e.time

/-- A task gets the lock of the nonces no later than `delay` after it has looked at the
timestamp. -/
def Door.Within (delay : ℕ) (s : Door α) : Arrival α → Prop
  | .check .. => True
  | .register k t _ => ∀ x, s.waiting[k]? = some x → t.1 ≤ x.checked.1 + delay

/-- No two accepted handshakes share their nonce and their timestamp. -/
def Door.NoReplay (s : Door α) : Prop :=
  s.accepted.Pairwise fun a b =>
    ¬ (a.hello.nonce = b.hello.nonce ∧ a.hello.timestamp = b.hello.timestamp)

/-- What was let in, as the cache of the nonces knows it. -/
def Accepted.entry (a : Accepted) : String × ℕ := (a.hello.nonce.1, a.registered.1)

/-- A node whose tasks have found their handshakes fresh, and whose cache knows what was
accepted. -/
structure Door.Guarded (delay : ℕ) (s : Door α) : Prop where
  waiting : ∀ x ∈ s.waiting, timestampIsFresh x.checked.timestamp x.hello.timestamp = true ∧
    x.checked.1 ≤ s.clock
  accepted : ∀ a ∈ s.accepted, timestampIsFresh a.checked.timestamp a.hello.timestamp = true ∧
    a.checked.1 ≤ a.registered.1 ∧ a.registered.1 ≤ a.checked.1 + delay
  remembers : SeenCache.Remembers nonceCacheTtl s.node.nonceCache (s.accepted.map Accepted.entry)
    s.clock

theorem guarded_start (delay : ℕ) : ({} : Door α).Guarded delay :=
  ⟨fun _ hx => absurd hx List.not_mem_nil, fun _ ha => absurd ha List.not_mem_nil,
    SeenCache.remembers_nil⟩

/-- What `registerHandshake` does to the nonces, and when it accepts. -/
theorem registerHandshake_eq (node : PeerNode α) (addr : α) (instant : ℕ) (msg : WireMessage)
    (hello : Hello) (draw : Draw) :
    let admitted := SeenCache.register nonceCacheTtl instant hello.nonce.1 node.nonceCache
    (node.registerHandshake hmac config addr instant msg hello draw).1.nonceCache = admitted.1 ∧
      (node.registerHandshake hmac config addr instant msg hello draw).2.2 =
        if admitted.2 then .ok hello
        else .error (.handshakeFailed "Rejected stale/replayed handshake") := by
  unfold PeerNode.registerHandshake
  rw [registerNonce_eq]
  dsimp only
  cases (SeenCache.register nonceCacheTtl instant hello.nonce.1 node.nonceCache).2 <;>
    exact ⟨rfl, rfl⟩

/-- What a task does that gets the lock. -/
theorem Door.step_register {s : Door α} {k : ℕ} {x : Waiting α} (hx : s.waiting[k]? = some x)
    (t : Reading) (draw : Draw) :
    let admitted := SeenCache.register nonceCacheTtl t.1 x.hello.nonce.1 s.node.nonceCache
    (s.step hmac config (.register k t draw)).node.nonceCache = admitted.1 ∧
      (s.step hmac config (.register k t draw)).waiting = s.waiting.eraseIdx k ∧
      (s.step hmac config (.register k t draw)).accepted =
        (if admitted.2 then s.accepted ++ [⟨x.hello, x.checked, t⟩] else s.accepted) ∧
      (s.step hmac config (.register k t draw)).clock = t.1 := by
  obtain ⟨hcache, hresult⟩ := @registerHandshake_eq _ hmac config s.node x.addr t.1 x.msg
      x.hello draw
  simp only [Door.step, hx]
  generalize s.node.registerHandshake hmac config x.addr t.1 x.msg x.hello draw = result at *
  obtain ⟨node, response, result⟩ := result
  dsimp only at hcache hresult
  subst hresult
  split_ifs with hnew
  · exact ⟨hcache, rfl, rfl, rfl⟩
  · exact ⟨hcache, rfl, rfl, rfl⟩

theorem Door.Guarded.step {delay : ℕ} {s : Door α} {e : Arrival α} (h : s.Guarded delay)
    (hclock : s.Monotone e) (hwithin : s.Within delay e) :
    (s.step hmac config e).Guarded delay := by
  cases e with
  | check addr msg t =>
    have hle : s.clock ≤ t.1 := hclock
    have hwaiting : ∀ x ∈ s.waiting, timestampIsFresh x.checked.timestamp x.hello.timestamp = true ∧
        x.checked.1 ≤ t.1 := fun x hx => ⟨(h.waiting x hx).1, Nat.le_trans (h.waiting x hx).2 hle⟩
    simp only [Door.step]
    cases hcheck : checkHandshake hmac config t.timestamp msg with
    | error e => exact ⟨hwaiting, h.accepted, h.remembers.mono hle⟩
    | ok hello =>
      refine ⟨fun x hx => ?_, h.accepted, h.remembers.mono hle⟩
      rcases List.mem_append.1 hx with hx | hx
      · exact hwaiting x hx
      · obtain rfl := List.mem_singleton.1 hx
        exact ⟨fresh_of_checkHandshake hcheck, le_refl _⟩
  | register k t draw =>
    have hle : s.clock ≤ t.1 := hclock
    cases hx : s.waiting[k]? with
    | none =>
      simp only [Door.step, hx]
      exact ⟨fun x hx => ⟨(h.waiting x hx).1, Nat.le_trans (h.waiting x hx).2 hle⟩, h.accepted,
        h.remembers.mono hle⟩
    | some x =>
      obtain ⟨hcache, hwaiting, haccepted, hnow⟩ :=
          @Door.step_register _ hmac config s k x hx t draw
      obtain ⟨hfresh, hchecked⟩ := h.waiting x (List.mem_of_getElem? hx)
      refine ⟨fun y hy => ?_, fun a ha => ?_, ?_⟩
      · rw [hwaiting] at hy
        obtain ⟨hyfresh, hychecked⟩ := h.waiting y (List.mem_of_mem_eraseIdx hy)
        exact ⟨hyfresh, hnow ▸ Nat.le_trans hychecked hle⟩
      · rw [haccepted] at ha
        split_ifs at ha with hnew
        · rcases List.mem_append.1 ha with ha | ha
          · exact h.accepted a ha
          · obtain rfl := List.mem_singleton.1 ha
            exact ⟨hfresh, Nat.le_trans hchecked hle, hwithin x hx⟩
        · exact h.accepted a ha
      · rw [hcache, haccepted, hnow, apply_ite (List.map Accepted.entry), List.map_append]
        exact (h.remembers.mono hle).register x.hello.nonce.1

/-- Two copies of a handshake cannot both have been accepted, when their tasks were fast enough. -/
theorem Door.Guarded.noReplay {delay : ℕ} {s : Door α} (h : s.Guarded delay)
    (hdelay : delay ≤ 29 * 1000000000) : s.NoReplay := by
  have hapart := List.pairwise_map.1 h.remembers.apart
  refine hapart.imp_of_mem fun {a b} ha hb hab ⟨hnonce, htimestamp⟩ => ?_
  obtain ⟨hfresh, hle, -⟩ := h.accepted a ha
  obtain ⟨hfresh', -, hwithin⟩ := h.accepted b hb
  have hforgotten : a.registered.1 + nonceCacheTtl ≤ b.registered.1 :=
    hab (congrArg Subtype.val hnonce)
  have hwindow : b.checked.1 < a.checked.1 + 121 * 1000000000 :=
    lt_of_timestampIsFresh hfresh (by rw [htimestamp]; exact hfresh')
  have httl : nonceCacheTtl = 150 * 1000000000 := rfl
  omega

/-! ### A task that is too slow -/

/-- What is drawn for a handshake, at the second 1000. -/
def signedDraw : Draw where
  nonce := ⟨"a3d0c1b2-6e0f-4a57-8c2d-9f3b5e7a1d04", by decide⟩
  timestamp := 1000
  agents := []

/-- A handshake of a node that knows the secret. -/
def signedHandshake (hmac : String → List UInt8 → String) (config : PeerConfig) : WireMessage :=
  ⟨"1", .request (.handshake (config.hello hmac signedDraw))⟩

/-- A handshake arrives a minute early and is accepted.  Its copy is found fresh within the last
nanosecond of the window, and gets the lock 29 seconds and a nanosecond later. -/
def lateRun (hmac : String → List UInt8 → String) (config : PeerConfig) (addr : α) (draw : Draw) :
    List (Arrival α) :=
  [.check addr (signedHandshake hmac config) ⟨940000000000, by decide⟩,
    .register 0 ⟨940000000000, by decide⟩ draw,
    .check addr (signedHandshake hmac config) ⟨1060999999999, by decide⟩,
    .register 0 ⟨1090000000000, by decide⟩ draw]

/-- The late task finds its nonce forgotten. -/
theorem accepted_lateRun (addr : α) (draw : Draw) :
    (run (Door.step hmac config) {} (lateRun hmac config addr draw)).accepted =
      [⟨config.hello hmac signedDraw, ⟨940000000000, by decide⟩, ⟨940000000000, by decide⟩⟩,
        ⟨config.hello hmac signedDraw, ⟨1060999999999, by decide⟩,
          ⟨1090000000000, by decide⟩⟩] := by
  have hearly : timestampIsFresh (Reading.timestamp ⟨940000000000, by decide⟩)
      signedDraw.timestamp = true := by decide
  have hlate : timestampIsFresh (Reading.timestamp ⟨1060999999999, by decide⟩)
      signedDraw.timestamp = true := by decide
  simp only [lateRun, signedHandshake, run_cons, run_nil, Door.step, checkHandshake_hello hearly,
    checkHandshake_hello hlate]
  rfl

/-- The clock of the late task does not run backwards, and all other tasks are fast. -/
theorem along_lateRun (addr : α) (draw : Draw) {delay : ℕ} (hlong : 29 * 1000000000 < delay) :
    Along (Door.step hmac config) (fun s e => s.Monotone e ∧ s.Within delay e) {}
      (lateRun hmac config addr draw) := by
  have hearly : timestampIsFresh (Reading.timestamp ⟨940000000000, by decide⟩)
      signedDraw.timestamp = true := by decide
  have hlate : timestampIsFresh (Reading.timestamp ⟨1060999999999, by decide⟩)
      signedDraw.timestamp = true := by decide
  simp only [lateRun, signedHandshake, along_cons, Door.step, checkHandshake_hello hearly,
    checkHandshake_hello hlate]
  refine ⟨⟨Nat.zero_le _, trivial⟩, ⟨Nat.le_refl _, ?_⟩, ⟨?_, trivial⟩, ⟨?_, ?_⟩, trivial⟩
  · intro x hx
    cases hx
    exact Nat.le_add_right _ _
  · show 940000000000 ≤ 1060999999999
    omega
  · show 1060999999999 ≤ 1090000000000
    omega
  · intro x hx
    cases hx
    show 1090000000000 ≤ 1060999999999 + delay
    omega

/-- A captured handshake is accepted again: its copy waits 30 seconds for the lock of the nonces. -/
theorem replay_accepted :
    ¬ ∀ (hmac : String → List UInt8 → String) (config : PeerConfig) (events : List (Arrival ℕ)),
      Along (Door.step hmac config) (fun s e => s.Monotone e) {} events →
      (run (Door.step hmac config) {} events).NoReplay := by
  intro h
  have hlate := h (fun secret _ => secret) ⟨"node-1", "kernel", "secret"⟩ (lateRun _ _ 7 signedDraw)
    ((along_lateRun 7 signedDraw (Nat.lt_succ_self _)).mono fun s e h => h.1)
  rw [Door.NoReplay, accepted_lateRun] at hlate
  exact (List.pairwise_pair.1 hlate) ⟨rfl, rfl⟩

/-- In every run in which each task reads the clock of the nonces at most `delay` after the clock of
the timestamp, no handshake is accepted twice; and 29 seconds are the longest such delay. -/
theorem noReplay_iff (hmac : String → List UInt8 → String) (config : PeerConfig) (addr : α)
    (delay : ℕ) :
    (∀ events : List (Arrival α),
      Along (Door.step hmac config) (fun s e => s.Monotone e ∧ s.Within delay e) {} events →
      (run (Door.step hmac config) {} events).NoReplay) ↔ delay ≤ 29 * 1000000000 := by
  constructor
  · intro h
    by_contra hlong
    have hreplay := h _ (along_lateRun addr signedDraw (Nat.lt_of_not_le hlong))
    rw [Door.NoReplay, accepted_lateRun] at hreplay
    exact (List.pairwise_pair.1 hreplay) ⟨rfl, rfl⟩
  · intro hdelay events h
    refine Door.Guarded.noReplay (h.invariant (guarded_start delay) ?_) hdelay
    rintro s e hs ⟨hclock, hwithin⟩
    exact hs.step hclock hwithin

end Wire
end RustyHand
