import RustyHand.Lib.Matching
import RustyHand.Wire.Network

/-!
# Who is at the other end

What the initiator of a handshake knows when it accepts an ack, and what the nodes that accept
handshakes know together.
-/

/-!
## Who has answered a handshake

What the initiator knows when `connect_to_peer` or `send_to_peer` accepts an ack.

* `Authentic`: a node that suits has generated the ack, in answer to this handshake;
* `NotMisplaced`: the values of the ack have not been signed for anything else;
* `authentic_iff`: in every run the one is the other.
-/

namespace RustyHand
namespace Wire

open Runs

variable {ι α : Type*}

/-- The nodes that may answer a handshake: for `connect_to_peer` any but the initiator, for
`send_to_peer` the one that was asked for. -/
def Session.Suits (N : Network ι α) (x : Session ι α) (i : ι) : Prop :=
  match x.purpose with
  | .connect => i ≠ x.initiator
  | .send nodeId => (N.config i).nodeId = nodeId

/-- An ack that a step accepts has been generated by a node that suits, in answer to this
handshake. -/
def Authentic (N : Network ι α) (s : Net ι α) (e : Event ι α) : Prop :=
  ∀ k now msg, e = .answer k now msg → ∀ x, s.openSession k = some x →
    ∀ hello, N.acceptsAck x now msg = some hello →
      ∃ i, x.Suits N i ∧ .ack i x.body hello.body ∈ s.signed

/-- A signature that is no ack to this handshake by a node that suits. -/
def Signed.Misplaced (N : Network ι α) (x : Session ι α) : Signed ι α → Prop
  | .handshake _ _ _ => True
  | .ack i answers _ => answers ≠ x.body ∨ ¬ x.Suits N i

/-- An ack that a step accepts does not have the values of a misplaced signature. -/
def NotMisplaced (N : Network ι α) (s : Net ι α) (e : Event ι α) : Prop :=
  ∀ k now msg, e = .answer k now msg → ∀ x, s.openSession k = some x →
    ∀ hello, N.acceptsAck x now msg = some hello →
      ∀ g ∈ s.signed, g.body = hello.body → ¬ g.Misplaced N x

variable {N : Network ι α} {s : Net ι α} {e : Event ι α}

theorem acceptsAck_eq_some {x : Session ι α} {now : Int64} {msg : WireMessage} {hello : Hello}
    (h : N.acceptsAck x now msg = some hello) :
    checkAck N.hmac (N.config x.initiator) now msg = .ok hello := by
  unfold Network.acceptsAck at h
  cases hcheck : checkAck N.hmac (N.config x.initiator) now msg with
  | error err => rw [hcheck] at h; cases h
  | ok found =>
    rw [hcheck] at h
    cases h
    rfl

theorem mem_signed_of_acceptsAck {k : ℕ} {now : Int64} {msg : WireMessage}
    (h : Unforgeable N s (.answer k now msg)) {x : Session ι α} {hello : Hello}
    (hack : N.acceptsAck x now msg = some hello) : ∃ g ∈ s.signed, g.body = hello.body := by
  obtain ⟨hhello, hverify⟩ := checkAck_eq_ok (acceptsAck_eq_some hack)
  rw [N.shared] at hverify
  exact List.mem_map.1 (mem_signed_of_unforgeable h rfl hhello hverify)

/-- One step. -/
theorem authentic_iff_notMisplaced (hs : Sound s) (hforge : Unforgeable N s e) :
    Authentic N s e ↔ NotMisplaced N s e := by
  constructor
  · rintro h k now msg rfl x hx hello hack g hg hbody hmisplaced
    obtain ⟨i, hsuits, hsigned⟩ := h k now msg rfl x hx hello hack
    rw [hs.eq hg hsigned hbody] at hmisplaced
    rcases hmisplaced with hne | hne
    · exact hne rfl
    · exact hne hsuits
  · rintro h k now msg rfl x hx hello hack
    obtain ⟨g, hg, hbody⟩ := mem_signed_of_acceptsAck hforge hack
    have hplaced := h k now msg rfl x hx hello hack g hg hbody
    cases g with
    | handshake node address body => exact absurd trivial hplaced
    | ack i answers body =>
      obtain ⟨hanswers, hsuits⟩ := not_or.1 hplaced
      obtain rfl : answers = x.body := not_not.1 hanswers
      obtain rfl : body = hello.body := hbody
      exact ⟨i, not_not.1 hsuits, hg⟩

/-- In every run, the accepted acks are authentic if and only if none of them has the values of a
handshake, of an ack to another handshake, or of an ack by a node that does not suit. -/
theorem authentic_iff [DecidableEq ι] {events : List (Event ι α)}
    (h : Along (step N) (fun s e => Unforgeable N s e ∧ FreshNonces s e) {} events) :
    Along (step N) (Authentic N) {} events ↔ Along (step N) (NotMisplaced N) {} events :=
  along_congr h sound_start (fun _ _ hs hP => hs.step hP.1 hP.2)
    fun _ _ hs hP => authentic_iff_notMisplaced hs hP.1

/-! ### An ack, and a handshake that comes back as one -/

/-- The handshake that node 0 has started. -/
theorem openSession_connected :
    (run (step threeNodes) {} connected).openSession 0 =
      some ⟨0, .connect, 1, (threeNodes.config 0).body (drawOf nonceA), false⟩ := by
  rw [connected, run_cons, run_cons, run_nil]
  rw [Net.openSession, sessions_inbound]
  rfl

theorem answered_assumed : Along (step threeNodes)
    (fun s e => Unforgeable threeNodes s e ∧ FreshNonces s e) {} answered := by
  refine along_append.2 ⟨connected_assumed, ⟨?_, nofun⟩, trivial⟩
  refine unforgeable_of_mem fun msg hmsg hello hhello => ?_
  cases hmsg
  cases hhello
  rw [signed_connected]
  exact List.mem_cons_of_mem _ (List.mem_singleton.2 rfl)

theorem answered_authentic : Along (step threeNodes) (Authentic threeNodes) {} answered := by
  refine (authentic_iff answered_assumed).2 (along_append.2 ⟨⟨nofun, nofun, trivial⟩, ?_, trivial⟩)
  rintro k now msg ⟨rfl⟩ x hx hello hhello g hg hbody
  have hx' : some x = some _ := hx.symm.trans openSession_connected
  have hhello' : some hello = some _ := hhello.symm.trans (acceptsAck_hello (by decide) _)
  cases hx'
  cases hhello'
  rw [signed_connected] at hg
  rcases List.mem_cons.1 hg with rfl | hg
  · exact absurd (congrArg Body.nonce hbody) nonceA_ne_nonceB
  · rw [List.mem_singleton.1 hg]
    rintro (hne | hne)
    · exact hne rfl
    · exact hne (by decide : (1 : Fin 3) ≠ 0)

theorem reflected_accepted :
    ¬ ∀ (ι α : Type) [DecidableEq ι] (N : Network ι α) (events : List (Event ι α)),
      Along (step N) (fun s e => Unforgeable N s e ∧ FreshNonces s e) {} events →
      Along (step N) (Authentic N) {} events := by
  intro h
  have hassumed : Along (step threeNodes)
      (fun s e => Unforgeable threeNodes s e ∧ FreshNonces s e) {} reflected := by
    refine ⟨⟨unforgeable_of_mem nofun, fun draw _ => nofun⟩, ⟨?_, nofun⟩, trivial⟩
    refine unforgeable_of_mem fun msg hmsg hello hhello => ?_
    cases hmsg
    cases hhello
    exact List.mem_singleton.2 rfl
  obtain ⟨-, hauthentic, -⟩ := h _ _ threeNodes reflected hassumed
  obtain ⟨i, -, hsigned⟩ := hauthentic 0 1000 _ rfl _ rfl _ (acceptsAck_hello (by decide) _)
  cases List.mem_singleton.1 hsigned

end Wire
end RustyHand

/-!
## Whose handshakes are accepted

What all nodes together know of the handshakes that `handle_inbound` accepts.

* `Matched`: they map injectively to handshakes that were generated for the nodes that accepted
  them;
* `NotReplayed`: the values of an accepted handshake have been signed for nothing else, and have not
  been accepted before;
* `matched_iff`: a run ends matched if and only if none of its steps is a replay.
-/

namespace RustyHand
namespace Wire

open Matching Runs

variable {ι α : Type*}

/-- A handshake that was generated for a node. -/
def Signed.IsFor (N : Network ι α) (i : ι) : Signed ι α → Prop
  | .handshake _ address _ => N.listener address = some i
  | .ack _ _ _ => False

/-- The accepted handshakes map injectively to handshakes, generated for the nodes that accepted
them. -/
def Matched (N : Network ι α) (s : Net ι α) : Prop :=
  Matches (fun a g => a.2 = g.body ∧ g.IsFor N a.1) s.accepted s.signed

/-- The values of a handshake that a step accepts have been signed in no ack and in no handshake for
another node, and no node has accepted them before. -/
def NotReplayed (N : Network ι α) (s : Net ι α) (e : Event ι α) : Prop :=
  ∀ a, accepts N s e = some a →
    (∀ g ∈ s.signed, g.body = a.2 → g.IsFor N a.1) ∧ a.2 ∉ s.accepted.map Prod.snd

/-- Handshakes that are accepted once each, and were generated for the nodes that accepted them. -/
structure EachFor (N : Network ι α) (s : Net ι α) : Prop where
  nodup : (s.accepted.map Prod.snd).Nodup
  isFor : ∀ a ∈ s.accepted, ∃ g ∈ s.signed, a.2 = g.body ∧ g.IsFor N a.1

variable {N : Network ι α} {s : Net ι α} {e : Event ι α}

theorem matched_iff_eachFor (hs : Sound s) : Matched N s ↔ EachFor N s := by
  rw [Matched, @matches_iff _ _ _ _ _ _ Prod.snd Signed.body (fun _ _ h => h.1) hs.nodup]
  exact ⟨fun h => ⟨h.1, h.2⟩, fun h => ⟨h.nodup, h.isFor⟩⟩

theorem eachFor_step [DecidableEq ι] (hs : Sound s) (hforge : Unforgeable N s e)
    (hfresh : FreshNonces s e) : EachFor N (step N s e) ↔ EachFor N s ∧ NotReplayed N s e := by
  obtain ⟨hsigned, haccepted⟩ := step_adds N s e
  -- what was accepted before does not have the values of a new signature
  have hold : ∀ a : ι × Body, a.2 ∈ s.signed.map Signed.body →
      ((∃ g ∈ (step N s e).signed, a.2 = g.body ∧ g.IsFor N a.1) ↔
        ∃ g ∈ s.signed, a.2 = g.body ∧ g.IsFor N a.1) := by
    intro a ha
    constructor
    · rintro ⟨g, hg, hbody, hfor⟩
      rw [hsigned] at hg
      rcases List.mem_append.1 hg with hg | hg
      · exact ⟨g, hg, hbody, hfor⟩
      · exact absurd (hbody ▸ ha) (signs_fresh hfresh (Option.mem_toList.1 hg))
    · rintro ⟨g, hg, h⟩
      exact ⟨g, by rw [hsigned]; exact List.mem_append_left _ hg, h⟩
  constructor
  · intro h
    have hbefore : EachFor N s := by
      refine ⟨?_, fun a ha => (hold a (hs.signed a ha)).1 (h.isFor a ?_)⟩
      · have hnodup := h.nodup
        rw [haccepted, List.map_append] at hnodup
        exact (List.nodup_append.1 hnodup).1
      · rw [haccepted]
        exact List.mem_append_left _ ha
    refine ⟨hbefore, fun a ha => ⟨fun g hg hbody => ?_, ?_⟩⟩
    · have hmem : a ∈ (step N s e).accepted := by
        rw [haccepted, ha]
        simp
      obtain ⟨g', hg', hbody', hfor⟩ :=
        (hold a (mem_signed_of_accepts hforge ha)).1 (h.isFor a hmem)
      rw [hs.eq hg hg' (hbody.trans hbody')]
      exact hfor
    · have hnodup := h.nodup
      rw [haccepted, ha, List.map_append, List.nodup_append] at hnodup
      exact fun hmem => hnodup.2.2 _ hmem a.2 (by simp) rfl
  · rintro ⟨h, hreplay⟩
    refine ⟨?_, fun a ha => ?_⟩
    · rw [haccepted, List.map_append, List.nodup_append]
      refine ⟨h.nodup, ?_, ?_⟩
      · cases accepts N s e <;> simp
      · rintro b hb b' hb' rfl
        obtain ⟨a, ha, rfl⟩ := List.mem_map.1 hb'
        exact (hreplay a (Option.mem_toList.1 ha)).2 hb
    · rw [haccepted] at ha
      rcases List.mem_append.1 ha with ha | ha
      · exact (hold a (hs.signed a ha)).2 (h.isFor a ha)
      · have hnew := Option.mem_toList.1 ha
        have hmem := mem_signed_of_accepts hforge hnew
        obtain ⟨g, hg, hbody⟩ := List.mem_map.1 hmem
        exact (hold a hmem).2 ⟨g, hg, hbody.symm, (hreplay a hnew).1 g hg hbody⟩

/-- In every run, the accepted handshakes map injectively to handshakes that were generated for the
nodes that accepted them, if and only if each of them has values that were signed in no ack and in
no handshake for another node, and that no node had accepted before. -/
theorem matched_iff [DecidableEq ι] {events : List (Event ι α)}
    (h : Along (step N) (fun s e => Unforgeable N s e ∧ FreshNonces s e) {} events) :
    Matched N (run (step N) {} events) ↔ Along (step N) (NotReplayed N) {} events := by
  have hend : Sound (run (step N) {} events) :=
    h.invariant sound_start fun _ _ hs hP => hs.step hP.1 hP.2
  rw [matched_iff_eachFor hend]
  have hrun := along_accumulates (G := EachFor N) (Q := NotReplayed N) h sound_start
    (fun _ _ hs hP => hs.step hP.1 hP.2) fun _ _ hs hP => eachFor_step hs hP.1 hP.2
  exact hrun.trans (and_iff_right ⟨List.nodup_nil, nofun⟩)

/-! ### A handshake, and the same one at two nodes -/

theorem connected_matched : Matched threeNodes (run (step threeNodes) {} connected) := by
  refine (matched_iff connected_assumed).2 ⟨nofun, fun a ha => ?_, trivial⟩
  have ha' : some a = some _ := ha.symm.trans (accepts_hello (by decide) (by decide) _)
  cases ha'
  refine ⟨fun g hg _ => ?_, List.not_mem_nil⟩
  rw [List.mem_singleton.1 hg]
  rfl

theorem replayed_assumed : Along (step threeNodes)
    (fun s e => Unforgeable threeNodes s e ∧ FreshNonces s e) {} replayed := by
  refine along_append.2 ⟨connected_assumed, ⟨?_, ?_⟩, trivial⟩
  · refine unforgeable_of_mem fun msg hmsg hello hhello => ?_
    cases hmsg
    cases hhello
    rw [signed_connected]
    exact List.mem_cons_self
  · rintro draw ⟨rfl⟩ g hg
    rw [signed_connected] at hg
    rcases List.mem_cons.1 hg with rfl | hg
    · decide
    · rw [List.mem_singleton.1 hg]
      decide

theorem replayed_accepted :
    ¬ ∀ (ι α : Type) [DecidableEq ι] (N : Network ι α) (events : List (Event ι α)),
      Along (step N) (fun s e => Unforgeable N s e ∧ FreshNonces s e) {} events →
      Matched N (run (step N) {} events) := by
  intro h
  have hend : Sound (run (step threeNodes) {} replayed) :=
    replayed_assumed.invariant sound_start fun _ _ hs hP => hs.step hP.1 hP.2
  have hnodup := ((matched_iff_eachFor hend).1 (h _ _ threeNodes replayed replayed_assumed)).nodup
  have hnode : (run (step threeNodes) {} connected).node 2 = {} := by
    rw [connected, run_cons, run_cons, run_nil]
    rw [node_inbound (by decide)]
    rfl
  have haccepts : accepts threeNodes (run (step threeNodes) {} connected) (.inbound 2 7 1000 0
      ⟨"1", .request (.handshake ((threeNodes.config 0).hello threeNodes.hmac (drawOf nonceA)))⟩
      (drawOf nonceC)) = some (2, (threeNodes.config 0).body (drawOf nonceA)) :=
    accepts_hello (by decide) (by rw [hnode]; decide) _
  rw [replayed, run_append, run_cons, run_nil, (step_adds _ _ _).2, accepted_connected,
    haccepts] at hnodup
  exact (List.nodup_cons.1 hnodup).1 List.mem_cons_self

end Wire
end RustyHand
