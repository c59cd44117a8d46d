import Mathlib.Logic.Function.Basic
import RustyHand.Lib.Runs
import RustyHand.Lib.Table

/-!
# Approvals

`ApprovalManager` of `rusty-hand-kernel/src/approval.rs`, as a machine whose steps are what one
party does between two points at which another one can come in: a lock of the pending map, the
oneshot channel, a poll of the future.  A request is known by its id, which `Uuid::new_v4` draws
once.

* `Phase`: how far a call of `request_approval` has come;
* `Manager`, `Step`, `Manager.step`: the pending map, the calls, and the calls of `resolve`;
* `Manager.Agrees`: a decision that `resolve` has reported is the one that the request returns;
* `agrees_iff_prompt`: the runs in which that is so, and what holds in all of them;
* `Manager.Owned`: each entry of the map is that of a call that is still waiting;
* `owned_iff_patient`: the runs in which that is so.
-/

namespace RustyHand
namespace Approval

open Runs

/-- `ApprovalDecision`. -/
inductive Decision
  | approved
  | denied
  | timedOut
  deriving DecidableEq

/-- `MAX_PENDING_PER_AGENT`. -/
def maxPendingPerAgent : ℕ := 5

/-- How far a call of `request_approval` has come. -/
inductive Phase (κ : Type*)
  /-- There is no such call. -/
  | absent
  /-- Trust mode was off. -/
  | checked (agent : κ)
  /-- The agent has room for the request. -/
  | counted (agent : κ)
  /-- The call waits for a decision, or has been sent one. -/
  | waiting (sent : Option Decision)
  /-- The time is over, and the receiver is dropped. -/
  | expired
  /-- The future was dropped. -/
  | dropped
  | returned (decision : Decision)
  deriving DecidableEq

/-- `PendingRequest`, as far as the manager reads it. -/
structure PendingRequest (ι κ : Type*) where
  id : ι
  agent : κ
  deriving DecidableEq

/-- The manager with all calls. -/
structure Manager (ι κ : Type*) where
  autoApprove : Bool
  pending : List (PendingRequest ι κ) := []
  phase : ι → Phase κ := fun _ => .absent
  /-- Whether trust mode was on when a request read the policy. -/
  trust : ι → Bool := fun _ => false
  /-- The decision of the call of `resolve` that has the sender of a request. -/
  taken : ι → Option Decision := fun _ => none
  /-- The calls of `resolve` that have returned `Ok`. -/
  resolved : List (ι × Decision) := []

/-- What one party does. -/
inductive Step (ι κ : Type*)
  | updatePolicy (autoApprove : Bool)
  /-- `request_approval` is called, and reads the policy. -/
  | request (id : ι) (agent : κ)
  /-- It counts the agent's requests. -/
  | count (id : ι)
  /-- It puts its request into the map. -/
  | submit (id : ι)
  /-- It is polled and finds a decision. -/
  | receive (id : ι)
  /-- It is polled, finds no decision, and its time is over. -/
  | expire (id : ι)
  /-- It removes its request from the map. -/
  | cleanUp (id : ι)
  /-- Its caller drops the future where it waits. -/
  | cancel (id : ι)
  /-- `resolve` is called, and takes the request out of the map, if it is there. -/
  | take (id : ι) (decision : Decision)
  /-- It sends the decision, whether or not the receiver is there, and returns `Ok`. -/
  | send (id : ι)

variable {ι κ : Type*} [DecidableEq ι] [DecidableEq κ]

/-- A call goes on. -/
def Manager.move (s : Manager ι κ) (id : ι) (phase : Phase κ) : Manager ι κ :=
  { s with phase := Function.update s.phase id phase }

/-- The map without an id. -/
def Manager.remove (s : Manager ι κ) (id : ι) : Manager ι κ :=
  { s with pending := Table.erase PendingRequest.id id s.pending }

/-- What a step makes of the manager. -/
def Manager.step (s : Manager ι κ) : Step ι κ → Manager ι κ
  | .updatePolicy autoApprove => { s with autoApprove := autoApprove }
  | .request id agent =>
    match s.phase id with
    | .absent =>
      { s.move id (if s.autoApprove then .returned .approved else .checked agent) with
        trust := Function.update s.trust id s.autoApprove }
    | _ => s
  | .count id =>
    match s.phase id with
    | .checked agent =>
      if maxPendingPerAgent ≤ (s.pending.filter fun r => r.agent = agent).length then
        s.move id (.returned .denied)
      else s.move id (.counted agent)
    | _ => s
  | .submit id =>
    match s.phase id with
    | .counted agent =>
      { s.move id (.waiting none) with
        pending := Table.upsert PendingRequest.id ⟨id, agent⟩ s.pending }
    | _ => s
  | .receive id =>
    match s.phase id with
    | .waiting (some decision) => s.move id (.returned decision)
    | _ => s
  | .expire id =>
    match s.phase id with
    | .waiting none => s.move id .expired
    | _ => s
  | .cleanUp id =>
    match s.phase id with
    | .expired => (s.remove id).move id (.returned .timedOut)
    | _ => s
  | .cancel id =>
    match s.phase id with
    | .waiting _ => s.move id .dropped
    | _ => s
  | .take id decision =>
    if id ∈ s.pending.map PendingRequest.id then
      { s.remove id with taken := Function.update s.taken id (some decision) }
    else s
  | .send id =>
    match s.taken id with
    | none => s
    | some decision =>
      let s := { s with
        taken := Function.update s.taken id none
        resolved := s.resolved ++ [(id, decision)] }
      match s.phase id with
      | .waiting none => s.move id (.waiting (some decision))
      | _ => s

/-- The request that a step is about. -/
def Step.subject : Step ι κ → Option ι
  | updatePolicy _ => none
  | request id _ => some id
  | count id => some id
  | submit id => some id
  | receive id => some id
  | expire id => some id
  | cleanUp id => some id
  | cancel id => some id
  | take id _ => some id
  | send id => some id

/-- The call returns a decision, unless it is dropped before. -/
def Phase.Returns (decision : Decision) : Phase κ → Prop
  | waiting sent => sent = some decision
  | expired => decision = .timedOut
  | dropped => True
  | returned decision' => decision' = decision
  | _ => False

/-- The time of the call was over before a decision came. -/
def Phase.Overdue : Phase κ → Prop
  | expired => True
  | returned decision => decision = .timedOut
  | _ => False

/-- A decision that `resolve` has reported is the one that the request returns; and a request that
has returned `Approved` has met trust mode, or was reported as approved. -/
structure Manager.Agrees (s : Manager ι κ) : Prop where
  reported : ∀ p ∈ s.resolved, (s.phase p.1).Returns p.2
  approved : ∀ id, s.phase id = .returned .approved →
    s.trust id = true ∨ (id, .approved) ∈ s.resolved

/-- The same, but for the requests whose time was over. -/
structure Manager.Answers (s : Manager ι κ) : Prop where
  reported : ∀ p ∈ s.resolved, (s.phase p.1).Returns p.2 ∨ (s.phase p.1).Overdue
  approved : ∀ id, s.phase id = .returned .approved →
    s.trust id = true ∨ (id, .approved) ∈ s.resolved

/-- A decision is not sent to a request whose time is over. -/
def Manager.Prompt (s : Manager ι κ) : Step ι κ → Prop
  | .send id => ∀ decision, s.taken id = some decision → decision ≠ .timedOut →
    ¬ (s.phase id).Overdue
  | _ => True

/-- A call of `request_approval` that has not returned and whose future is there, after it has put
its request into the map. -/
def Phase.Waits : Phase κ → Prop
  | waiting _ => True
  | expired => True
  | _ => False

/-- Each entry of the map is that of a call that is still waiting. -/
def Manager.Owned (s : Manager ι κ) : Prop := ∀ r ∈ s.pending, (s.phase r.id).Waits

/-- A future is not dropped where it waits while its request is in the map. -/
def Manager.Patient (s : Manager ι κ) : Step ι κ → Prop
  | .cancel id => ∀ sent, s.phase id = .waiting sent → id ∉ s.pending.map PendingRequest.id
  | _ => True

/-! ### One request -/

/-- What the manager and the calls have of one request. -/
@[ext]
structure View (κ : Type*) where
  phase : Phase κ
  pending : Prop
  taken : Option Decision
  resolved : Decision → Prop
  trust : Bool

def Manager.view (s : Manager ι κ) (id : ι) : View κ where
  phase := s.phase id
  pending := id ∈ s.pending.map PendingRequest.id
  taken := s.taken id
  resolved decision := (id, decision) ∈ s.resolved
  trust := s.trust id

/-- What a step makes of the request it is about, if it does anything. -/
inductive Change (v : View κ) (id : ι) : Step ι κ → View κ → Prop
  | trusted (agent : κ) (h : v.phase = .absent) :
      Change v id (.request id agent) { v with phase := .returned .approved, trust := true }
  | checked (agent : κ) (h : v.phase = .absent) :
      Change v id (.request id agent) { v with phase := .checked agent, trust := false }
  | refused (agent : κ) (h : v.phase = .checked agent) :
      Change v id (.count id) { v with phase := .returned .denied }
  | counted (agent : κ) (h : v.phase = .checked agent) :
      Change v id (.count id) { v with phase := .counted agent }
  | submitted (agent : κ) (h : v.phase = .counted agent) :
      Change v id (.submit id) { v with phase := .waiting none, pending := True }
  | received (decision : Decision) (h : v.phase = .waiting (some decision)) :
      Change v id (.receive id) { v with phase := .returned decision }
  | expired (h : v.phase = .waiting none) :
      Change v id (.expire id) { v with phase := .expired }
  | cleanedUp (h : v.phase = .expired) :
      Change v id (.cleanUp id) { v with phase := .returned .timedOut, pending := False }
  | cancelled (sent : Option Decision) (h : v.phase = .waiting sent) :
      Change v id (.cancel id) { v with phase := .dropped }
  | taken (decision : Decision) (h : v.pending) :
      Change v id (.take id decision) { v with pending := False, taken := some decision }
  | heard (decision : Decision) (h : v.taken = some decision) (hphase : v.phase = .waiting none) :
      Change v id (.send id) { v with
        phase := .waiting (some decision)
        taken := none
        resolved := fun d => v.resolved d ∨ d = decision }
  | unheard (decision : Decision) (h : v.taken = some decision)
      (hphase : v.phase ≠ .waiting none) :
      Change v id (.send id) { v with
        taken := none
        resolved := fun d => v.resolved d ∨ d = decision }

variable {s : Manager ι κ} {id id' : ι} {e : Step ι κ} {decision : Decision}

omit [DecidableEq κ] in
@[simp] theorem view_move (phase : Phase κ) :
    (s.move id phase).view id = { s.view id with phase := phase } := by
  simp [Manager.view, Manager.move]

omit [DecidableEq κ] in
theorem view_move_of_ne (h : id' ≠ id) (phase : Phase κ) :
    (s.move id phase).view id' = s.view id' := by
  simp [Manager.view, Manager.move, h]

omit [DecidableEq κ] in
@[simp] theorem view_remove : (s.remove id).view id = { s.view id with pending := False } := by
  simp [Manager.view, Manager.remove, Table.keys_erase]

omit [DecidableEq κ] in
theorem view_remove_of_ne (h : id' ≠ id) : (s.remove id).view id' = s.view id' := by
  simp [Manager.view, Manager.remove, Table.keys_erase, h]

omit [DecidableEq κ] in
theorem mem_upsert_ids {r : PendingRequest ι κ} {rows : List (PendingRequest ι κ)} :
    id ∈ (Table.upsert PendingRequest.id r rows).map PendingRequest.id ↔
      id = r.id ∨ id ∈ rows.map PendingRequest.id := by
  rw [Table.keys_upsert]
  split_ifs with h
  · constructor
    · exact Or.inr
    · rintro (rfl | h')
      · exact h
      · exact h'
  · rw [List.mem_append, List.mem_singleton, or_comm]

/-- A step leaves the other requests as they are. -/
theorem view_step_of_ne (h : e.subject ≠ some id') : (s.step e).view id' = s.view id' := by
  have hne : ∀ {id : ι}, some id ≠ some id' → id' ≠ id := fun hid heq => hid (by rw [heq])
  cases e with
  | updatePolicy autoApprove => rfl
  | request id agent =>
    simp only [Manager.step]
    split
    · simp [Manager.view, Manager.move, hne h]
    · rfl
  | count id =>
    simp only [Manager.step]
    split
    · split
      · exact view_move_of_ne (hne h) _
      · exact view_move_of_ne (hne h) _
    · rfl
  | submit id =>
    simp only [Manager.step]
    split
    · simp only [Manager.view, Manager.move, Function.update_of_ne (hne h), mem_upsert_ids,
        or_iff_right (hne h)]
    · rfl
  | receive id =>
    simp only [Manager.step]
    split
    · exact view_move_of_ne (hne h) _
    · rfl
  | expire id =>
    simp only [Manager.step]
    split
    · exact view_move_of_ne (hne h) _
    · rfl
  | cleanUp id =>
    simp only [Manager.step]
    split
    · rw [view_move_of_ne (hne h), view_remove_of_ne (hne h)]
    · rfl
  | cancel id =>
    simp only [Manager.step]
    split
    · exact view_move_of_ne (hne h) _
    · rfl
  | take id decision =>
    simp only [Manager.step]
    split
    · simp [Manager.view, Manager.remove, Table.keys_erase, hne h]
    · rfl
  | send id =>
    simp only [Manager.step]
    split
    · rfl
    · split
      · rw [view_move_of_ne (hne h)]
        simp [Manager.view, hne h]
      · simp [Manager.view, hne h]

/-- A step changes the request it is about as `Change` says, or leaves it as it is. -/
theorem view_step_cases (s : Manager ι κ) (e : Step ι κ) (id : ι) :
    (s.step e).view id = s.view id ∨ Change (s.view id) id e ((s.step e).view id) := by
  by_cases hsubject : e.subject = some id
  swap
  · exact Or.inl (view_step_of_ne hsubject)
  cases e with
  | updatePolicy autoApprove => cases hsubject
  | request _ agent =>
    obtain rfl := (Option.some.inj hsubject).symm
    simp only [Manager.step]
    split
    case h_1 hphase =>
      right
      cases s.autoApprove with
      | true =>
        simpa [Manager.view, Manager.move] using Change.trusted (v := s.view id) agent hphase
      | false =>
        simpa [Manager.view, Manager.move] using Change.checked (v := s.view id) agent hphase
    · exact Or.inl rfl
  | count _ =>
    obtain rfl := (Option.some.inj hsubject).symm
    simp only [Manager.step]
    split
    case h_1 agent hphase =>
      right
      split
      · rw [view_move]
        exact .refused agent hphase
      · rw [view_move]
        exact .counted agent hphase
    · exact Or.inl rfl
  | submit _ =>
    obtain rfl := (Option.some.inj hsubject).symm
    simp only [Manager.step]
    split
    case h_1 agent hphase =>
      right
      simpa [Manager.view, Manager.move, mem_upsert_ids] using
        Change.submitted (v := s.view id) agent hphase
    · exact Or.inl rfl
  | receive _ =>
    obtain rfl := (Option.some.inj hsubject).symm
    simp only [Manager.step]
    split
    case h_1 decision hphase =>
      rw [view_move]
      exact Or.inr (.received decision hphase)
    · exact Or.inl rfl
  | expire _ =>
    obtain rfl := (Option.some.inj hsubject).symm
    simp only [Manager.step]
    split
    case h_1 hphase =>
      rw [view_move]
      exact Or.inr (.expired hphase)
    · exact Or.inl rfl
  | cleanUp _ =>
    obtain rfl := (Option.some.inj hsubject).symm
    simp only [Manager.step]
    split
    case h_1 hphase =>
      rw [view_move, view_remove]
      exact Or.inr (.cleanedUp hphase)
    · exact Or.inl rfl
  | cancel _ =>
    obtain rfl := (Option.some.inj hsubject).symm
    simp only [Manager.step]
    split
    case h_1 sent hphase =>
      rw [view_move]
      exact Or.inr (.cancelled sent hphase)
    · exact Or.inl rfl
  | take _ decision =>
    obtain rfl := (Option.some.inj hsubject).symm
    simp only [Manager.step]
    split
    case isTrue hmem =>
      right
      simpa [Manager.view, Manager.remove, Table.keys_erase] using
        Change.taken (v := s.view id) decision hmem
    · exact Or.inl rfl
  | send _ =>
    obtain rfl := (Option.some.inj hsubject).symm
    simp only [Manager.step]
    split
    · exact Or.inl rfl
    case h_2 decision htaken =>
      right
      split
      case h_1 hphase =>
        simpa [Manager.view, Manager.move] using
          Change.heard (v := s.view id) decision htaken hphase
      case h_2 hphase =>
        simpa [Manager.view] using Change.unheard (v := s.view id) decision htaken hphase

/-! ### The requests in every state -/

/-- What the parts have to do with each other. -/
structure View.Fits (v : View κ) : Prop where
  /-- A request in the map has no decision, and its call has not come to an end. -/
  pending_open : v.pending → v.phase = .waiting none ∨ v.phase = .expired ∨ v.phase = .dropped
  pending_free : v.pending → v.taken = none ∧ ∀ d, ¬ v.resolved d
  /-- So it is with one that was taken out of the map, but its time may be over by now. -/
  taken_open : ∀ d, v.taken = some d → v.phase = .waiting none ∨ v.phase = .dropped ∨
    v.phase.Overdue
  taken_free : ∀ d, v.taken = some d → ∀ d', ¬ v.resolved d'
  answered : ∀ d, v.resolved d → v.phase.Returns d ∨ v.phase.Overdue
  sent : ∀ d, v.phase = .waiting (some d) → v.resolved d
  approved : v.phase = .returned .approved → v.trust = true ∨ v.resolved .approved

/-- What there is of each request fits. -/
def Manager.Sound (s : Manager ι κ) : Prop := ∀ id, (s.view id).Fits

variable {v v' : View κ}

omit [DecidableEq ι] [DecidableEq κ] in
/-- A request that has not been submitted is nowhere else. -/
theorem View.Fits.early (h : v.Fits) (hearly : v.phase = .absent ∨
    (∃ agent, v.phase = .checked agent) ∨
    ∃ agent, v.phase = .counted agent) : ¬ v.pending ∧ v.taken = none ∧ ∀ d, ¬ v.resolved d := by
  refine ⟨fun hpending => ?_, ?_, fun d hd => ?_⟩
  · rcases hearly with hp | ⟨agent, hp⟩ | ⟨agent, hp⟩ <;>
      simpa [hp] using h.pending_open hpending
  · refine Option.eq_none_iff_forall_ne_some.2 fun d hd => ?_
    rcases hearly with hp | ⟨agent, hp⟩ | ⟨agent, hp⟩ <;>
      simpa [hp, Phase.Overdue] using h.taken_open d hd
  · rcases hearly with hp | ⟨agent, hp⟩ | ⟨agent, hp⟩ <;>
      simpa [hp, Phase.Returns, Phase.Overdue] using h.answered d hd

omit [DecidableEq ι] [DecidableEq κ] in
theorem Change.fits (h : Change v id e v') (hv : v.Fits) : v'.Fits := by
  cases h with
  | trusted agent hp =>
    obtain ⟨hpending, htaken, hresolved⟩ := hv.early (Or.inl hp)
    constructor <;> simp [hpending, htaken, hresolved]
  | checked agent hp =>
    obtain ⟨hpending, htaken, hresolved⟩ := hv.early (Or.inl hp)
    constructor <;> simp [hpending, htaken, hresolved]
  | refused agent hp =>
    obtain ⟨hpending, htaken, hresolved⟩ := hv.early (Or.inr (Or.inl ⟨agent, hp⟩))
    constructor <;> simp [hpending, htaken, hresolved]
  | counted agent hp =>
    obtain ⟨hpending, htaken, hresolved⟩ := hv.early (Or.inr (Or.inl ⟨agent, hp⟩))
    constructor <;> simp [hpending, htaken, hresolved]
  | submitted agent hp =>
    obtain ⟨hpending, htaken, hresolved⟩ := hv.early (Or.inr (Or.inr ⟨agent, hp⟩))
    constructor <;> simp [htaken, hresolved]
  | received decision hp =>
    have hresolved := hv.sent decision hp
    have htaken : ∀ d, v.taken ≠ some d := fun d h => hv.taken_free d h _ hresolved
    exact
      { pending_open := fun h => absurd hresolved ((hv.pending_free h).2 _)
        pending_free := hv.pending_free
        taken_open := fun d h => absurd h (htaken d)
        taken_free := hv.taken_free
        answered := fun d hd => by
          have hanswered := hv.answered d hd
          rw [hp] at hanswered
          exact Or.inl (Option.some.inj (hanswered.resolve_right fun h => h))
        sent := by simp
        approved := fun heq => Or.inr (by
          obtain rfl : decision = .approved := by simpa using heq
          exact hresolved) }
  | expired hp =>
    exact
      { pending_open := fun _ => Or.inr (Or.inl rfl)
        pending_free := hv.pending_free
        taken_open := fun _ _ => Or.inr (Or.inr trivial)
        taken_free := hv.taken_free
        answered := fun _ _ => Or.inr trivial
        sent := by simp
        approved := by simp }
  | cleanedUp hp =>
    exact
      { pending_open := False.elim
        pending_free := False.elim
        taken_open := fun _ _ => Or.inr (Or.inr rfl)
        taken_free := hv.taken_free
        answered := fun _ _ => Or.inr rfl
        sent := by simp
        approved := by simp }
  | cancelled sent hp =>
    exact
      { pending_open := fun _ => Or.inr (Or.inr rfl)
        pending_free := hv.pending_free
        taken_open := fun _ _ => Or.inr (Or.inl rfl)
        taken_free := hv.taken_free
        answered := fun _ _ => Or.inl trivial
        sent := by simp
        approved := by simp }
  | taken decision hpending =>
    have hfree := (hv.pending_free hpending).2
    exact
      { pending_open := False.elim
        pending_free := False.elim
        taken_open := fun _ _ => (hv.pending_open hpending).imp_right fun h =>
          h.symm.imp_right fun h => by
            rw [h]
            trivial
        taken_free := fun _ _ => hfree
        answered := hv.answered
        sent := hv.sent
        approved := hv.approved }
  | heard decision htaken hp =>
    have hpending : ¬ v.pending := fun h => by simpa [htaken] using (hv.pending_free h).1
    exact
      { pending_open := fun h => absurd h hpending
        pending_free := fun h => absurd h hpending
        taken_open := by simp
        taken_free := by simp
        answered := fun d hd => Or.inl (by
          rw [hd.resolve_left (hv.taken_free decision htaken d)]
          rfl)
        sent := fun d hd => Or.inr (by simpa using hd.symm)
        approved := by simp }
  | unheard decision htaken hp =>
    have hpending : ¬ v.pending := fun h => by simpa [htaken] using (hv.pending_free h).1
    have hopen := (hv.taken_open decision htaken).resolve_left hp
    exact
      { pending_open := fun h => absurd h hpending
        pending_free := fun h => absurd h hpending
        taken_open := by simp
        taken_free := by simp
        answered := fun d _ => hopen.imp_left fun h => by
          rw [h]
          trivial
        sent := fun d h => Or.inl (hv.sent d h)
        approved := fun h => (hv.approved h).imp_right Or.inl }

theorem Manager.Sound.step (h : s.Sound) (e : Step ι κ) : (s.step e).Sound := by
  intro id
  rcases view_step_cases s e id with heq | hchange
  · rw [heq]
    exact h id
  · exact hchange.fits (h id)

/-- The manager before the first call. -/
def Manager.start (autoApprove : Bool) : Manager ι κ := { autoApprove }

omit [DecidableEq ι] [DecidableEq κ] in
theorem sound_start (autoApprove : Bool) : (Manager.start autoApprove : Manager ι κ).Sound := by
  intro id
  constructor <;> simp [Manager.view, Manager.start]

/-! ### A decision that arrives too late -/

omit [DecidableEq ι] [DecidableEq κ] in
theorem Manager.Sound.answers (h : s.Sound) : s.Answers :=
  ⟨fun p hp => (h p.1).answered p.2 hp, fun id => (h id).approved⟩

omit [DecidableEq ι] [DecidableEq κ] in
theorem returns_of_overdue {phase : Phase κ} (h : phase.Overdue) : phase.Returns decision ↔
    decision = .timedOut := by
  cases phase with
  | expired => exact Iff.rfl
  | returned d =>
    rw [show d = .timedOut from h]
    exact eq_comm
  | _ => exact h.elim

omit [DecidableEq ι] [DecidableEq κ] in
/-- A prompt step keeps what was reported. -/
theorem Change.reported (h : Change (s.view id) id e v') (hfits : (s.view id).Fits)
    (hreturns : ∀ d, (s.view id).resolved d → (s.view id).phase.Returns d) (hprompt : s.Prompt e) :
    ∀ d, v'.resolved d → v'.phase.Returns d := by
  intro d hd
  cases h with
  | trusted agent hp => exact absurd hd ((hfits.early (Or.inl hp)).2.2 d)
  | checked agent hp => exact absurd hd ((hfits.early (Or.inl hp)).2.2 d)
  | refused agent hp => exact absurd hd ((hfits.early (Or.inr (Or.inl ⟨agent, hp⟩))).2.2 d)
  | counted agent hp => exact absurd hd ((hfits.early (Or.inr (Or.inl ⟨agent, hp⟩))).2.2 d)
  | submitted agent hp => exact absurd hd ((hfits.early (Or.inr (Or.inr ⟨agent, hp⟩))).2.2 d)
  | received decision hp =>
    have hsent := hreturns d hd
    rw [hp] at hsent
    exact Option.some.inj hsent
  | expired hp =>
    have hsent := hreturns d hd
    rw [hp] at hsent
    cases hsent
  | cleanedUp hp =>
    have htime := hreturns d hd
    rw [hp] at htime
    exact htime.symm
  | cancelled sent hp => trivial
  | taken decision hpending => exact hreturns d hd
  | heard decision htaken hp =>
    rw [hd.resolve_left (hfits.taken_free decision htaken d)]
    rfl
  | unheard decision htaken hp =>
    obtain rfl : d = decision := hd.resolve_left (hfits.taken_free decision htaken d)
    rcases (hfits.taken_open d htaken).resolve_left hp with hdropped | hoverdue
    · rw [hdropped]
      trivial
    · refine (returns_of_overdue hoverdue).2 ?_
      by_contra htime
      exact hprompt d htaken htime hoverdue

theorem Manager.Agrees.step (h : s.Agrees) (hsound : s.Sound) (hprompt : s.Prompt e) :
    (s.step e).Agrees := by
  refine ⟨fun p hp => ?_, (hsound.step e).answers.approved⟩
  have hreturns : ∀ d, (s.view p.1).resolved d → (s.view p.1).phase.Returns d :=
    fun d hd => h.reported (p.1, d) hd
  have hreported : ∀ d, ((s.step e).view p.1).resolved d →
      ((s.step e).view p.1).phase.Returns d := by
    rcases view_step_cases s e p.1 with heq | hchange
    · rw [heq]
      exact hreturns
    · exact hchange.reported (hsound p.1) hreturns hprompt
  exact hreported p.2 hp

/-- A decision that is sent to a request whose time is over is not the one it returns. -/
theorem prompt_of_agrees (h : (s.step e).Agrees) : s.Prompt e := by
  cases e with
  | send id =>
    intro decision htaken htime hoverdue
    have hphase : s.phase id ≠ .waiting none := by
      intro hp
      rw [hp] at hoverdue
      exact hoverdue
    have hreported := h.reported (id, decision)
    simp only [Manager.step, htaken] at hreported
    exact htime ((returns_of_overdue hoverdue).1
      (hreported (List.mem_append_right _ List.mem_cons_self)))
  | _ => trivial

/-- The request is taken out of the map, its time comes to be over, and the decision is sent. -/
def late : List (Step ℕ ℕ) :=
  [.request 1 0, .count 1, .submit 1, .take 1 .approved, .expire 1, .send 1, .cleanUp 1]

/-- `resolve` reports that it has approved what was not. -/
theorem late_not_agrees :
    ¬ ∀ (autoApprove : Bool) (steps : List (Step ℕ ℕ)),
      (run Manager.step (Manager.start autoApprove) steps).Agrees := by
  intro h
  have hreturns := (h false late).reported (1, .approved) (by decide)
  have hphase : (run Manager.step (Manager.start false) late).phase 1 = .returned .timedOut := by
    decide
  rw [hphase] at hreturns
  cases hreturns

theorem Manager.Sound.run (h : s.Sound) (steps : List (Step ι κ)) :
    (Runs.run Manager.step s steps).Sound :=
  (along_of_forall (Q := fun _ _ => True) fun _ _ => trivial).invariant h fun _ e h _ => h.step e

/-- A request returns what was reported of it, unless its time was over; and in every state of a run
it returns just that, if and only if no decision is sent to a request whose time is over. -/
theorem agrees_iff_prompt (autoApprove : Bool) (steps : List (Step ι κ)) :
    (run Manager.step (Manager.start autoApprove) steps).Answers ∧
      ((∀ k, (run Manager.step (Manager.start autoApprove) (steps.take k)).Agrees) ↔
        Along Manager.step Manager.Prompt (Manager.start autoApprove) steps) := by
  refine ⟨((sound_start autoApprove).run steps).answers, ?_⟩
  have hstart : (Manager.start autoApprove : Manager ι κ).Agrees :=
    ⟨by simp [Manager.start], by simp [Manager.start]⟩
  exact forall_take_iff_along (I := fun s => s.Sound ∧ s.Agrees) ⟨sound_start _, hstart⟩
    (fun _ h => h.2) (fun _ e h hprompt => ⟨h.1.step e, h.2.step h.1 hprompt⟩)
    fun _ _ _ => prompt_of_agrees

/-! ### A future that is dropped -/

omit [DecidableEq ι] [DecidableEq κ] in
theorem owned_iff : s.Owned ↔ ∀ id, (s.view id).pending → (s.view id).phase.Waits := by
  constructor
  · intro h id hpending
    obtain ⟨r, hr, rfl⟩ := List.mem_map.1 hpending
    exact h r hr
  · exact fun h r hr => h r.id (List.mem_map_of_mem hr)

omit [DecidableEq ι] [DecidableEq κ] in
/-- A patient step keeps an entry with a call that is waiting. -/
theorem Change.owned (h : Change (s.view id) id e v') (hfits : (s.view id).Fits)
    (howned : (s.view id).pending → (s.view id).phase.Waits) (hpatient : s.Patient e) :
    v'.pending → v'.phase.Waits := by
  intro hpending
  cases h with
  | trusted agent hp => exact absurd hpending (hfits.early (Or.inl hp)).1
  | checked agent hp => exact absurd hpending (hfits.early (Or.inl hp)).1
  | refused agent hp => exact absurd hpending (hfits.early (Or.inr (Or.inl ⟨agent, hp⟩))).1
  | counted agent hp => exact absurd hpending (hfits.early (Or.inr (Or.inl ⟨agent, hp⟩))).1
  | submitted agent hp => trivial
  | received decision hp =>
    exact absurd (hfits.sent decision hp) ((hfits.pending_free hpending).2 _)
  | expired hp => trivial
  | cleanedUp hp => exact hpending.elim
  | cancelled sent hp => exact absurd hpending (hpatient sent hp)
  | taken decision _ => exact hpending.elim
  | heard decision htaken hp => trivial
  | unheard decision htaken hp => exact howned hpending

theorem Manager.Owned.step (h : s.Owned) (hsound : s.Sound) (hpatient : s.Patient e) :
    (s.step e).Owned := by
  refine owned_iff.2 fun id => ?_
  have howned := owned_iff.1 h id
  rcases view_step_cases s e id with heq | hchange
  · rw [heq]
    exact howned
  · exact hchange.owned (hsound id) howned hpatient

/-- A future that is dropped while its request is in the map leaves the request there. -/
theorem patient_of_owned (h : (s.step e).Owned) : s.Patient e := by
  cases e with
  | cancel id =>
    intro sent hp hpending
    have hwaits := owned_iff.1 h id
    simp only [Manager.step, hp, view_move] at hwaits
    exact hwaits hpending
  | _ => trivial

/-- A request is submitted, and the tool that has called for it is given up. -/
def abandoned : List (Step ℕ ℕ) := [.request 1 0, .count 1, .submit 1, .cancel 1]

/-- The request stays in the map. -/
theorem abandoned_not_owned :
    ¬ ∀ (autoApprove : Bool) (steps : List (Step ℕ ℕ)),
      (run Manager.step (Manager.start autoApprove) steps).Owned := by
  intro h
  have hphase : (run Manager.step (Manager.start false) abandoned).phase 1 = .dropped := by decide
  have hwaits := h false abandoned ⟨1, 0⟩ (by decide)
  rw [hphase] at hwaits
  exact hwaits

/-- In every state of a run each entry of the map is that of a call that is still waiting, if and
only if no future is dropped while its request is in the map. -/
theorem owned_iff_patient (autoApprove : Bool) (steps : List (Step ι κ)) :
    (∀ k, (run Manager.step (Manager.start autoApprove) (steps.take k)).Owned) ↔
      Along Manager.step Manager.Patient (Manager.start autoApprove) steps := by
  have hstart : (Manager.start autoApprove : Manager ι κ).Owned := by
    simp [Manager.Owned, Manager.start]
  exact forall_take_iff_along (I := fun s => s.Sound ∧ s.Owned) ⟨sound_start _, hstart⟩
    (fun _ h => h.2) (fun _ e h hpatient => ⟨h.1.step e, h.2.step h.1 hpatient⟩)
    fun _ _ _ => patient_of_owned

end Approval
end RustyHand
