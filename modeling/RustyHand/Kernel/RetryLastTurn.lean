import RustyHand.Kernel.Kernel
import RustyHand.Session.Pairing

/-!
# Retry of the last turn

`retry_last_turn` of `rusty-hand-kernel/src/kernel.rs`.

* `rposition`, `messageText`, `retryLastTurn`: the function;
* `retryLastTurn_eq`: the last message of role user goes, and all behind it;
* `Paired`: every use is answered and every result answers one;
* `Retries`, `retryLastTurn_retries_iff`: when the message that goes is the user's own;
* `retryLastTurn_paired_iff`: when what is left is paired.
-/

namespace RustyHand
namespace RetryLastTurn

open Pairing

/-! ### The function -/

section Position

variable {α : Type*} {p : α → Bool}

/-- `iter().rposition(p)`. -/
def rposition (p : α → Bool) : List α → Option ℕ
  | [] => none
  | a :: as =>
    match rposition p as with
    | some i => some (i + 1)
    | none => if p a then some 0 else none

theorem rposition_eq_none {as : List α} (h : ∀ a ∈ as, p a = false) : rposition p as = none := by
  induction as with
  | nil => rfl
  | cons a as ih =>
    obtain ⟨ha, has⟩ := List.forall_mem_cons.1 h
    rw [rposition, ih has]
    exact if_neg (by simp [ha])

theorem rposition_append {before after : List α} {a : α} (ha : p a = true)
    (hafter : ∀ b ∈ after, p b = false) :
    rposition p (before ++ a :: after) = some before.length := by
  induction before with
  | nil =>
    rw [List.nil_append, rposition, rposition_eq_none hafter]
    exact if_pos ha
  | cons b before ih => rw [List.cons_append, rposition, ih, List.length_cons]

/-- A list with the property somewhere has it at a last place. -/
theorem exists_last {as : List α} (h : ∃ a ∈ as, p a = true) :
    ∃ before b after, as = before ++ b :: after ∧ p b = true ∧ ∀ c ∈ after, p c = false := by
  induction as with
  | nil =>
    obtain ⟨a, ha, -⟩ := h
    cases ha
  | cons c as ih =>
    by_cases hlater : ∃ b ∈ as, p b = true
    · obtain ⟨before, b, after, rfl, hb, hafter⟩ := ih hlater
      exact ⟨c :: before, b, after, rfl, hb, hafter⟩
    · have has : ∀ b ∈ as, p b = false := fun b hb =>
        Bool.eq_false_of_not_eq_true fun hpb => hlater ⟨b, hb, hpb⟩
      obtain ⟨a, ha, hpa⟩ := h
      rcases List.mem_cons.1 ha with rfl | ha
      · exact ⟨[], a, as, rfl, hpa, has⟩
      · exact absurd ⟨a, ha, hpa⟩ hlater

end Position

/-- The text of a message: its text blocks, with a blank between two of them. -/
def messageText (m : Message) : String :=
  match m.content with
  | .text t => t
  | .blocks bs => " ".intercalate (bs.filterMap fun
      | .text t => some t
      | _ => none)

/-- Is the message of role user? -/
def fromUser (m : Message) : Bool := m.role = .user

/-- `retry_last_turn`. -/
def retryLastTurn (k : Kernel) (agentId : AgentId) :
    Except RustyHandError (Option String) × Kernel :=
  match k.registry.get agentId with
  | none => (.error (.agentNotFound agentId), k)
  | some entry =>
    match k.memory.getSession entry.sessionId with
    | none => (.ok none, k)
    | some session =>
      match rposition fromUser session.messages with
      | none => (.ok none, k)
      | some idx =>
        let session' := { session with messages := session.messages.take idx }
        (.ok (session.messages[idx]?.map messageText),
          { k with memory := k.memory.saveSession session' })

/-- The current session of an agent. -/
def currentSession (k : Kernel) (agentId : AgentId) : Option Session :=
  (k.registry.get agentId).bind fun entry => k.memory.getSession entry.sessionId

variable {k : Kernel} {agentId : AgentId} {session : Session} {before after : List Message}
  {m : Message}

/-- The last message of role user goes, and all behind it. -/
theorem retryLastTurn_eq (hsession : currentSession k agentId = some session)
    (hmessages : session.messages = before ++ m :: after) (hm : fromUser m = true)
    (hafter : ∀ n ∈ after, fromUser n = false) :
    (retryLastTurn k agentId).1 = .ok (some (messageText m)) ∧
      currentSession (retryLastTurn k agentId).2 agentId =
        some { session with messages := before } := by
  obtain ⟨entry, hentry, hget⟩ := Option.bind_eq_some_iff.1 hsession
  have hid : session.id = entry.sessionId := (Table.mem_of_lookup hget).2
  unfold retryLastTurn
  rw [hentry]
  dsimp only
  rw [hget]
  dsimp only
  rw [hmessages, rposition_append hm hafter]
  dsimp only
  refine ⟨by simp, ?_⟩
  rw [currentSession, hentry, Option.bind_some, MemorySubstrate.getSession,
    MemorySubstrate.saveSession, Table.lookup_upsert, if_pos hid.symm, List.take_left, hid, hget]
  rfl

/-! ### What is left -/

/-- Every use is answered in the next message, and every result answers a use of the message before
it. -/
def Paired (messages : List Message) : Prop := Answered [] messages ∧ ResultsFollow [] messages

/-- In front of a message without results nothing waits for one. -/
theorem answered_front {prev : List String} (hm : m.resultIds = [])
    (h : Answered prev (before ++ m :: after)) : Answered prev before := by
  induction before generalizing prev with
  | nil =>
    refine List.eq_nil_iff_forall_not_mem.2 fun id hid => ?_
    have hanswer := h.1 id hid
    rw [hm] at hanswer
    cases hanswer
  | cons n before ih => exact ⟨h.1, ih h.2⟩

theorem resultsFollow_front {prev : List String} (h : ResultsFollow prev (before ++ after)) :
    ResultsFollow prev before := by
  induction before generalizing prev with
  | nil => trivial
  | cons n before ih => exact ⟨h.1, ih h.2⟩

/-- In front of a message with results something waits for them. -/
theorem not_answered_front {prev : List String} (hm : m.resultIds ≠ [])
    (h : ResultsFollow prev (before ++ m :: after)) : ¬ Answered prev before := by
  induction before generalizing prev with
  | nil =>
    rintro rfl
    refine hm (List.eq_nil_iff_forall_not_mem.2 fun id hid => ?_)
    exact List.not_mem_nil (h.1 id hid)
  | cons n before ih => exact fun hanswered => ih h.2 hanswered.2

theorem Paired.front (hm : m.resultIds = []) (h : Paired (before ++ m :: after)) : Paired before :=
  ⟨answered_front hm h.1, resultsFollow_front h.2⟩

theorem wellPaired_front (hm : m.resultIds = []) (h : WellPaired (before ++ m :: after)) :
    WellPaired before := by
  obtain ⟨hanswered, hfollow, halternate⟩ := wellPaired_iff.1 h
  have hroles := List.IsChain.prefix halternate (List.prefix_append before _)
  exact wellPaired_iff.2 ⟨answered_front hm hanswered, resultsFollow_front hfollow, hroles⟩

/-! ### The turn that goes -/

/-- The text of this message is returned, and what stood before it is left, which is paired, and
with roles that alternate if they did. -/
structure Retries (k : Kernel) (agentId : AgentId) (session : Session) (before : List Message)
    (m : Message) : Prop where
  text : (retryLastTurn k agentId).1 = .ok (some (messageText m))
  left : currentSession (retryLastTurn k agentId).2 agentId =
    some { session with messages := before }
  paired : Paired before
  wellPaired : WellPaired session.messages → WellPaired before

theorem fromUser_iff : fromUser m = true ↔ m.role = .user := decide_eq_true_iff

theorem retries_of_no_user_behind (hsession : currentSession k agentId = some session)
    (hmessages : session.messages = before ++ m :: after) (hpaired : Paired session.messages)
    (hm : m.role = .user ∧ m.resultIds = []) (hafter : ∀ n ∈ after, n.role ≠ .user) :
    Retries k agentId session before m := by
  have hbehind : ∀ n ∈ after, fromUser n = false := fun n hn =>
    Bool.eq_false_of_not_eq_true fun h => hafter n hn (fromUser_iff.1 h)
  obtain ⟨htext, hleft⟩ := retryLastTurn_eq hsession hmessages (fromUser_iff.2 hm.1) hbehind
  refine ⟨htext, hleft, (hmessages ▸ hpaired).front hm.2, fun hwell => ?_⟩
  rw [hmessages] at hwell
  exact wellPaired_front hm.2 hwell

/-- Tool results behind the user's last message take its place: their message goes, and what is left
waits for them. -/
theorem left_of_user_behind (hsession : currentSession k agentId = some session)
    (hmessages : session.messages = before ++ m :: after) (hpaired : Paired session.messages)
    (hlast : ∀ n ∈ after, n.role = .user → n.resultIds ≠ [])
    (h : ∃ n ∈ after, n.role = .user) :
    ∃ between, currentSession (retryLastTurn k agentId).2 agentId =
        some { session with messages := before ++ m :: between } ∧
      ¬ Paired (before ++ m :: between) := by
  obtain ⟨n, hn, hrole⟩ := h
  obtain ⟨between, results, rest, rfl, hresults, hrest⟩ :=
    exists_last ⟨n, hn, fromUser_iff.2 hrole⟩
  have hsplit : session.messages = (before ++ m :: between) ++ results :: rest := by
    rw [hmessages, List.append_assoc, List.cons_append]
  have hids := hlast results (by simp) (fromUser_iff.1 hresults)
  refine ⟨between, (retryLastTurn_eq hsession hsplit hresults hrest).2, fun hleft => ?_⟩
  rw [hsplit] at hpaired
  exact not_answered_front hids hpaired.2 hleft.1

/-- The function comes to the last message that the user sent exactly if no message of role user
stands behind it, which tool results do. -/
theorem retryLastTurn_retries_iff (hsession : currentSession k agentId = some session)
    (hmessages : session.messages = before ++ m :: after) (hpaired : Paired session.messages)
    (hm : m.role = .user ∧ m.resultIds = [])
    (hlast : ∀ n ∈ after, n.role = .user → n.resultIds ≠ []) :
    Retries k agentId session before m ↔ ∀ n ∈ after, n.role ≠ .user := by
  refine ⟨fun h => ?_, retries_of_no_user_behind hsession hmessages hpaired hm⟩
  by_contra hbehind
  obtain ⟨n, hn, hrole⟩ : ∃ n ∈ after, n.role = .user := by
    by_contra hnone
    exact hbehind fun n hn hrole => hnone ⟨n, hn, hrole⟩
  obtain ⟨between, hleft, hunpaired⟩ :=
    left_of_user_behind hsession hmessages hpaired hlast ⟨n, hn, hrole⟩
  have hsame : before = before ++ m :: between :=
    congrArg Session.messages (Option.some.inj (h.left.symm.trans hleft))
  rw [← hsame] at hunpaired
  exact hunpaired h.paired

/-- An agent with this history. -/
def talked (messages : List Message) : Kernel :=
  { registry := { agents := [{ id := 1, name := "hand", manifest := { name := "hand" },
                               state := .running, mode := .full, parent := none, children := [],
                               sessionId := 2 }] }
    memory := { sessions := [{ id := 2, agentId := 1, messages := messages }] } }

/-- A turn without tools. -/
theorem retryLastTurn_retries_iff_plain :
    Retries (talked [.user "hi", .assistant "hello"]) 1
        { id := 2, agentId := 1, messages := [.user "hi", .assistant "hello"] } [] (.user "hi") ↔
      ∀ n ∈ [Message.assistant "hello"], n.role ≠ .user :=
  retryLastTurn_retries_iff rfl rfl ⟨by simp [Message.useIds, Message.resultIds, Message.user,
    Message.assistant, ContentBlock.useId?, ContentBlock.resultId?], by simp [Message.useIds,
    Message.resultIds, Message.user, Message.assistant, ContentBlock.useId?,
    ContentBlock.resultId?]⟩ ⟨rfl, rfl⟩ (by simp [Message.assistant])

/-- A call of a tool, and its result. -/
def toolRound : List Message :=
  [⟨.assistant, .blocks [.toolUse "c1" "clock" .null]⟩,
    ⟨.user, .blocks [.toolResult "c1" "noon" false]⟩, .assistant "It is noon."]

/-- A turn with tools: the tool results go, and the call of the tool stays. -/
theorem retryLastTurn_tool_round :
    ¬ ∀ (k : Kernel) (agentId : AgentId) (session : Session) (before after : List Message)
        (m : Message), currentSession k agentId = some session →
      session.messages = before ++ m :: after → Paired session.messages →
      m.role = .user ∧ m.resultIds = [] → (∀ n ∈ after, n.role = .user → n.resultIds ≠ []) →
      Retries k agentId session before m := by
  intro h
  have hretries := h (talked (.user "What time is it?" :: toolRound)) 1
    { id := 2, agentId := 1, messages := .user "What time is it?" :: toolRound } [] toolRound
    (.user "What time is it?") rfl rfl ?_ ⟨rfl, rfl⟩ ?_
  · have htext : some "" = some "What time is it?" := Except.ok.inj hretries.text
    exact absurd htext (by decide)
  · exact ⟨by simp [toolRound, Message.useIds, Message.resultIds, Message.user, Message.assistant,
      ContentBlock.useId?, ContentBlock.resultId?], by simp [toolRound, Message.useIds,
      Message.resultIds, Message.user, Message.assistant, ContentBlock.useId?,
      ContentBlock.resultId?]⟩
  · simp [toolRound, Message.resultIds, Message.assistant, ContentBlock.resultId?]

end RetryLastTurn
end RustyHand
