import RustyHand.Runtime.LoopStreaming
import RustyHand.Runtime.RoundSays

/-!
# The sessions that the agent loop saves

When the sessions passed to `save_session` have each `ToolUse` answered by exactly one `ToolResult`
of the next message and no other `ToolResult`.  Three things break it: the circuit breaker saves the
session while the calls of a response are unanswered, results for one id are pushed twice when a
response uses it twice, and `prune_heartbeat_turns` takes away the results in front of a
`NO_REPLY` turn.

* `PairedOnce`: the property of a session;
* `Received.Sound`, `FitsPairing`: the responses of a run that keep it;
* `saves_pairedOnce`: every save of such a run is paired.
-/

namespace RustyHand
namespace LoopRun

open Effects LlmDriver Pairing

variable {σ : Type}

/-- Each `ToolUse` is answered by exactly one `ToolResult` of the next message, and there is no
other `ToolResult`. -/
structure PairedOnce (messages : List Message) : Prop where
  answered : ∀ i m, messages[i]? = some m → ∀ id ∈ m.useIds,
    ∃ n, messages[i + 1]? = some n ∧ n.resultIds.count id = 1
  follow : ∀ j n, messages[j]? = some n → ∀ id ∈ n.resultIds,
    ∃ i m, j = i + 1 ∧ messages[i]? = some m ∧ id ∈ m.useIds

theorem pairedOnce_iff {l : List Message} : PairedOnce l ↔
    Answered [] l ∧ ResultsFollow [] l ∧ ∀ m ∈ l, m.resultIds.Nodup := by
  rw [answered_iff, resultsFollow_nil_iff]
  constructor
  · rintro ⟨ha, hf⟩
    refine ⟨⟨by simp, fun i m hm id hid => ?_⟩, hf, fun n hn => ?_⟩
    · obtain ⟨n, hn, hone⟩ := ha i m hm id hid
      exact ⟨n, hn, List.count_pos_iff.1 (by omega)⟩
    · rw [List.nodup_iff_count_le_one]
      intro id
      by_cases hid : id ∈ n.resultIds
      · obtain ⟨j, hj⟩ := List.mem_iff_getElem?.1 hn
        obtain ⟨i, m, rfl, hm, hidm⟩ := hf j n hj id hid
        obtain ⟨n', hn', hone⟩ := ha i m hm id hidm
        obtain rfl : n = n' := Option.some.inj (hj.symm.trans hn')
        omega
      · rw [List.count_eq_zero_of_not_mem hid]
        omega
  · rintro ⟨⟨-, ha⟩, hf, hd⟩
    refine ⟨fun i m hm id hid => ?_, hf⟩
    obtain ⟨n, hn, hidn⟩ := ha i m hm id hid
    exact ⟨n, hn, List.count_eq_one_of_mem (hd n (List.mem_of_getElem? hn)) hidn⟩

theorem PairedOnce.append {l l' : List Message} (h : PairedOnce l) (h' : PairedOnce l') :
    PairedOnce (l ++ l') := by
  rw [pairedOnce_iff] at h h' ⊢
  refine ⟨h.1.append h'.1, h.2.1.append h'.2.1, fun m hm => ?_⟩
  rcases List.mem_append.1 hm with hm | hm
  · exact h.2.2 m hm
  · exact h'.2.2 m hm

/-- A text message neither uses tools nor answers. -/
theorem pairedOnce_text (role : Role) (s : String) : PairedOnce [⟨role, .text s⟩] := by
  rw [pairedOnce_iff]
  have huse : (⟨role, .text s⟩ : Message).useIds = [] := rfl
  have hres : (⟨role, .text s⟩ : Message).resultIds = [] := rfl
  simp [Answered, ResultsFollow, huse, hres]

/-! ### A turn with tool calls -/

theorem filterMap_resultId_eq_nil {bs : List ContentBlock} (h : ∀ b ∈ bs, b.resultId? = none) :
    bs.filterMap ContentBlock.resultId? = [] := by
  rw [List.filterMap_eq_nil_iff]
  exact h

/-- The response and the results of its calls, when it uses each id once. -/
theorem pairedOnce_turn {content results : List ContentBlock} {calls : List ToolCall}
    (hcalls : content.filterMap blockCall? = calls) (hres : ∀ b ∈ content, b.resultId? = none)
    (hd : (calls.map ToolCall.id).Nodup) (h : ResultsOf calls results) :
    PairedOnce [⟨.assistant, .blocks content⟩, ⟨.user, .blocks results⟩] := by
  have huse : (⟨.assistant, .blocks content⟩ : Message).useIds = calls.map ToolCall.id := by
    rw [← hcalls]
    exact filterMap_useId content
  have hnone : (⟨.assistant, .blocks content⟩ : Message).resultIds = [] :=
    filterMap_resultId_eq_nil hres
  have hids : (⟨.user, .blocks results⟩ : Message).resultIds = calls.map ToolCall.id := h.ids.1
  have hnil : (⟨.user, .blocks results⟩ : Message).useIds = [] := h.ids.2
  rw [pairedOnce_iff]
  simp [Answered, ResultsFollow, huse, hnone, hids, hnil, hd]

/-! ### Pruning -/

/-- No message with results stands right before a `NO_REPLY` turn that the next answer prunes. -/
def PruneSafe (session : List Message) : Prop :=
  ∀ i u a, i + AgentLoop.keepRecent < session.length → session[i]? = some u →
    session[i + 1]? = some a → u.role = .user → a.role = .assistant →
    AgentLoop.isNoReply a.content = true → u.resultIds = []

/-- A message of the user before a text of the assistant uses no tool. -/
theorem PairedOnce.useIds_eq_nil {l : List Message} (h : PairedOnce l) {i : ℕ} {u a : Message}
    (hu : l[i]? = some u) (ha : l[i + 1]? = some a) (hres : a.resultIds = []) : u.useIds = [] := by
  rw [List.eq_nil_iff_forall_not_mem]
  intro id hid
  obtain ⟨n, hn, hone⟩ := h.answered i u hu id hid
  obtain rfl : a = n := Option.some.inj (ha.symm.trans hn)
  rw [hres] at hone
  simp at hone

theorem PairedOnce.eraseIdx {l : List Message} {k : ℕ} {m : Message} (hk : l[k]? = some m)
    (hm : m.useIds = [] ∧ m.resultIds = []) (h : PairedOnce l) : PairedOnce (l.eraseIdx k) := by
  obtain ⟨hlt, rfl⟩ := List.getElem?_eq_some_iff.1 hk
  have hsplit : l = l.take k ++ l[k] :: l.drop (k + 1) := by
    rw [List.cons_getElem_drop_succ, List.take_append_drop]
  rw [pairedOnce_iff] at h ⊢
  have ha := h.1
  have hf := h.2.1
  rw [hsplit] at ha hf
  rw [List.eraseIdx_eq_take_drop_succ]
  refine ⟨ha.erase hm.1 hm.2, hf.erase hm.1, fun n hn => h.2.2 n ?_⟩
  rcases List.mem_append.1 hn with hn | hn
  · exact List.mem_of_mem_take hn
  · exact List.mem_of_mem_drop hn

/-- Pruning after an answer keeps the pairs of a session in which it is safe. -/
theorem pairedOnce_prune {session : List Message} (h : PairedOnce session)
    (hsafe : PruneSafe session) (text : String) :
    PairedOnce (AgentLoop.pruneHeartbeatTurns (session ++ [.assistant text])
      AgentLoop.keepRecent) := by
  have hpushed : PairedOnce (session ++ [.assistant text]) := h.append (pairedOnce_text _ text)
  unfold AgentLoop.pruneHeartbeatTurns
  split_ifs
  · exact hpushed
  · refine DescendingErase.eraseAll_induction
      (q := fun m => m.useIds = [] ∧ m.resultIds = []) hpushed (fun k hk m hm => ?_)
      fun l' k m hm hq hl' => hl'.eraseIdx hm hq
    -- what is pruned is a `NO_REPLY` turn, or the message of the user before one
    obtain ⟨i, hi, hki⟩ := List.mem_flatMap.1 hk
    rw [List.mem_range, List.length_append, List.length_singleton, AgentLoop.keepRecent] at hi
    unfold AgentLoop.heartbeatAt at hki
    split at hki
    · cases hki
    · next a ha =>
      split_ifs at hki with hno hprev
      · rcases List.mem_cons.1 hki with rfl | hki
        · obtain rfl : a = m := Option.some.inj (ha.symm.trans hm)
          exact AgentLoop.isNoReply_ids hno.2
        · obtain rfl := List.mem_singleton.1 hki
          obtain ⟨j, rfl⟩ : ∃ j, i = j + 1 := ⟨i - 1, by omega⟩
          rw [Nat.add_sub_cancel] at hm hprev
          rw [hm] at hprev
          have huser : m.role = .user := by simpa using hprev.2
          have hanswer := AgentLoop.isNoReply_ids hno.2
          refine ⟨hpushed.useIds_eq_nil hm ha hanswer.2, ?_⟩
          rw [List.getElem?_append_left (by omega)] at hm ha
          exact hsafe j m a (by rw [AgentLoop.keepRecent]; omega) hm ha huser hno.1 hno.2
      · obtain rfl := List.mem_singleton.1 hki
        obtain rfl : a = m := Option.some.inj (ha.symm.trans hm)
        exact AgentLoop.isNoReply_ids hno.2
      · cases hki

/-! ### Runs -/

/-- The calls that the loop executes for a response. -/
def Received.callCount (r : Received) : ℕ :=
  if r.response.stopReason = .toolUse then r.response.toolCalls.length else 0

/-- A response with tool calls uses each id once and holds no result, and a final answer finds a
session in which pruning is safe. -/
structure Received.Sound (r : Received) : Prop where
  distinct : r.response.stopReason = .toolUse → (r.response.toolCalls.map ToolCall.id).Nodup
  noResults : r.response.stopReason = .toolUse →
    ∀ b ∈ r.response.content, b.resultId? = none
  pruneSafe : r.IsFinal → PruneSafe r.session

/-- The responses of a run are sound, and their calls stay within the circuit breaker. -/
structure FitsPairing (cfg : Config) (received : List Received) : Prop where
  sound : ∀ r ∈ received, r.Sound
  calls : (received.map Received.callCount).sum ≤ cfg.loopGuardConfig.globalCircuitBreaker

theorem FitsPairing.init {cfg : Config} {received : List Received} {r : Received}
    (h : FitsPairing cfg (received ++ [r])) : FitsPairing cfg received where
  sound := fun r' hr' => h.sound r' (List.mem_append_left _ hr')
  calls := by
    have := h.calls
    rw [List.map_append, List.sum_append] at this
    omega

theorem FitsPairing.last {cfg : Config} {received : List Received} {r : Received}
    (h : FitsPairing cfg (received ++ [r])) : r.Sound :=
  h.sound r (List.mem_append_right _ (List.mem_singleton.2 rfl))

/-- The `ToolUse` blocks of every response of the driver are its calls. -/
def CallsAreBlocks (w : World σ) : Prop :=
  ∀ request s response, (w.answer request s).1 = .ok response →
    response.toolUses = response.toolCalls

theorem toolUses_of_goesOn {w : World σ} (hw : CallsAreBlocks w)
    {request : LlmDriver.CompletionRequest}
    {response response' : CompletionResponse} (h : Answers w request response)
    (hgo : GoesOn response response') : response'.toolUses = response'.toolCalls := by
  obtain ⟨s, hs⟩ := h
  cases hgo with
  | same => exact hw request s response hs
  | recovered calls _ => exact filterMap_blockCall?_block calls

/-- What holds before each round: the guard has counted no more calls than there were, and if the
responses so far fit, session and saves are paired. -/
structure PairingInv (cfg : Config) (st : LoopState) (t : Trace σ) : Prop where
  config : st.loopGuard.config = cfg.loopGuardConfig
  counted : st.loopGuard.totalCalls ≤ (t.received.map Received.callCount).sum
  session : FitsPairing cfg t.received → PairedOnce t.session.messages
  saves : FitsPairing cfg t.received → ∀ saved ∈ t.saves, PairedOnce saved

theorem PairingInv.saves_add {cfg : Config} {st : LoopState} {t t' : Trace σ}
    {q : List LlmDriver.CompletionRequest} {r : Received} {messages : List Message}
    {saves : List (List Message)} (hinv : PairingInv cfg st t) (h : Adds t t' q [r] messages saves)
    (hnew : FitsPairing cfg t'.received → ∀ saved ∈ saves, PairedOnce saved) :
    FitsPairing cfg t'.received → ∀ saved ∈ t'.saves, PairedOnce saved := by
  intro hfits saved hsaved
  rw [h.saves] at hsaved
  rcases List.mem_append.1 hsaved with hsaved | hsaved
  · rw [h.received] at hfits
    exact hinv.saves hfits.init saved hsaved
  · exact hnew hfits saved hsaved

theorem callCount_of_ne {r : Received} (h : r.response.stopReason ≠ .toolUse) : r.callCount = 0 :=
  if_neg h

/-- The count of the guard after a round with one response. -/
theorem PairingInv.counted_add {cfg : Config} {st : LoopState} {t t' : Trace σ}
    {q : List LlmDriver.CompletionRequest} {r : Received} {messages : List Message}
    {saves : List (List Message)} (hinv : PairingInv cfg st t)
    (h : Adds t t' q [r] messages saves) :
    st.loopGuard.totalCalls + r.callCount ≤ (t'.received.map Received.callCount).sum := by
  rw [h.received, List.map_append, List.sum_append]
  have hle := hinv.counted
  simpa using hle

/-- The invariant does not see that a round is entered. -/
theorem PairingInv.enter {cfg : Config} {st : LoopState} {t : Trace σ}
    (h : PairingInv cfg st t) (entered : List LoopState) :
    PairingInv cfg st { t with entered := entered } := ⟨h.config, h.counted, h.session, h.saves⟩

/-- A round that goes on keeps the invariant. -/
theorem PairingInv.next {w : World σ} (hw : CallsAreBlocks w) {cfg : Config}
    {systemPrompt : String} {iteration : ℕ} {st st' : LoopState} {t t' : Trace σ}
    (hinv : PairingInv cfg st t)
    (hdoes : RoundSays w cfg systemPrompt iteration st t (.ok (.next st')) t') :
    PairingInv cfg st' t' := by
  cases hdoes with
  | silent q r _ _ hgot hend h => exact absurd rfl (hend st')
  | answered q r text _ _ hgot hfinal hend h => exact absurd rfl (hend st')
  | again q r _ hgot hans h =>
    have hne : r.response.stopReason ≠ .toolUse := by
      rcases hans with hstop | hstop <;> simp [hstop]
    refine ⟨?_, ?_, fun hfits => ?_, hinv.saves_add h fun _ _ h => absurd h List.not_mem_nil⟩
    · exact (congrArg LoopGuard.State.config hgot.loopGuard).trans hinv.config
    · exact (congrArg LoopGuard.State.totalCalls hgot.loopGuard).trans_le
        ((Nat.le_add_right _ _).trans (hinv.counted_add h))
    · rw [h.received] at hfits
      rw [h.messages]
      exact hinv.session hfits.init
  | ran q r g results _ hgot hstop hresults hcount _ h =>
    have hturn : FitsPairing cfg t'.received → PairedOnce (t.session.messages ++
        [⟨.assistant, .blocks r.response.content⟩, ⟨.user, .blocks results⟩]) := by
      intro hfits
      rw [h.received] at hfits
      obtain ⟨response, hans, hgo⟩ := hgot.answered
      exact (hinv.session hfits.init).append (pairedOnce_turn (toolUses_of_goesOn hw hans hgo)
        (hfits.last.noResults hstop) (hfits.last.distinct hstop) hresults)
    refine ⟨hcount.config.trans hinv.config, ?_, fun hfits => ?_, hinv.saves_add h ?_⟩
    · refine hcount.totalCalls_le.trans ?_
      have hsum := hinv.counted_add h
      rwa [Received.callCount, if_pos hstop] at hsum
    · rw [h.messages]
      exact hturn hfits
    · intro hfits saved hsaved
      rw [List.mem_singleton.1 hsaved]
      exact hturn hfits
  | continued q r _ hgot hstop hfew h =>
    refine ⟨?_, ?_, fun hfits => ?_, hinv.saves_add h fun _ _ h => absurd h List.not_mem_nil⟩
    · exact (congrArg LoopGuard.State.config hgot.loopGuard).trans hinv.config
    · exact (congrArg LoopGuard.State.totalCalls hgot.loopGuard).trans_le
        ((Nat.le_add_right _ _).trans (hinv.counted_add h))
    · rw [h.received] at hfits
      rw [h.messages]
      exact (hinv.session hfits.init).append (pairedOnce_text _ _)

/-- A round that ends the run has saved a paired session, if its response fits. -/
theorem PairingInv.ends {w : World σ} {cfg : Config} {systemPrompt : String} {iteration : ℕ}
    {st : LoopState} {t t' : Trace σ} {result : Except RustyHandError Flow}
    (hinv : PairingInv cfg st t) (hend : Ends result)
    (hdoes : RoundSays w cfg systemPrompt iteration st t result t') :
    FitsPairing cfg t'.received → ∀ saved ∈ t'.saves, PairedOnce saved := by
  have htext : ∀ {q : List LlmDriver.CompletionRequest} {r : Received} {text : String},
      Adds t t' q [r] (t.session.messages ++ [.assistant text])
        [t.session.messages ++ [.assistant text]] →
      FitsPairing cfg t'.received → ∀ saved ∈ t'.saves, PairedOnce saved := by
    intro q r text h
    refine hinv.saves_add h fun hfits saved hsaved => ?_
    rw [h.received] at hfits
    rw [List.mem_singleton.1 hsaved]
    exact (hinv.session hfits.init).append (pairedOnce_text _ _)
  cases hdoes with
  | failed n e _ h =>
    intro hfits saved hsaved
    rw [h.received, List.append_nil] at hfits
    rw [h.saves, List.append_nil] at hsaved
    exact hinv.saves hfits saved hsaved
  | silent q r _ _ hgot _ h => exact htext h
  | answered q r text _ _ hgot hfinal _ h =>
    refine hinv.saves_add h fun hfits saved hsaved => ?_
    rw [h.received] at hfits
    rw [List.mem_singleton.1 hsaved]
    have hsafe := hfits.last.pruneSafe hfinal
    rw [hgot.session] at hsafe
    exact pairedOnce_prune (hinv.session hfits.init) hsafe text
  | broken q r e _ hgot hstop hlimit h =>
    -- the calls so far exceed the circuit breaker
    intro hfits
    exfalso
    have hsum := hinv.counted_add h
    rw [Received.callCount, if_pos hstop] at hsum
    have := hfits.calls
    rw [hinv.config] at hlimit
    omega
  | cutShort q r text _ _ hgot h => exact htext h
  | again _ _ _ _ _ _ => exact absurd rfl (hend _)
  | ran _ _ _ _ _ _ _ _ _ _ _ => exact absurd rfl (hend _)
  | continued _ _ _ _ _ _ _ => exact absurd rfl (hend _)

/-- **The saved sessions are paired**, in a run of either loop from a paired session whose responses
fit. -/
theorem saves_pairedOnce (w : World σ) (hw : CallsAreBlocks w) (cfg : Config)
    (userMessage : String) (world : σ) (session : Session)
    (hsession : PairedOnce session.messages)
    (hfits : FitsPairing cfg (runOn (runAgentLoop w cfg userMessage) world session).2.received) :
    (∀ saved ∈ (runOn (runAgentLoop w cfg userMessage) world session).2.saves,
        PairedOnce saved) ∧
      ∀ saved ∈ (runOn (runAgentLoopStreaming w cfg userMessage) world session).2.saves,
        PairedOnce saved := by
  obtain ⟨-, hsame⟩ := same_runOn w cfg userMessage world session
  rw [← hsame.saves, and_self]
  obtain ⟨st, t, hbegin, hrun⟩ := runAgentLoop_does w cfg userMessage world session
  rw [hrun] at hfits ⊢
  refine iterate_induction (I := fun _ => PairingInv cfg)
    (F := fun t => FitsPairing cfg t.received → ∀ saved ∈ t.saves, PairedOnce saved)
    (fun iteration st t t' st' hinv _ hdoes => (hinv.enter _).next hw hdoes)
    (fun iteration st t t' result hinv _ hend hdoes => (hinv.enter _).ends hend hdoes)
    (fun _ st t s hinv hfits saved hsaved => ?_) cfg.maxIterations 0 (Nat.zero_add _) st t ?_ hfits
  · rcases List.mem_append.1 hsaved with hsaved | hsaved
    · exact hinv.saves hfits saved hsaved
    · rw [List.mem_singleton.1 hsaved]
      exact hinv.session hfits
  · refine ⟨by rw [hbegin.loopGuard], by rw [hbegin.loopGuard, hbegin.received]; rfl,
      fun _ => ?_, fun _ saved hsaved => ?_⟩
    · rw [hbegin.session]
      exact hsession.append (pairedOnce_text _ _)
    · rw [hbegin.saves] at hsaved
      cases hsaved

/-- A driver that always stops at its token limit. -/
def alwaysMaxTokens : ℕ → Except LlmError CompletionResponse :=
  fun _ => .ok ⟨[.text "more"], .maxTokens, [], ⟨1, 1⟩⟩

theorem fits_alwaysMaxTokens (cfg : Config) (userMessage : String) (world : ℕ)
    (session : Session) :
    FitsPairing cfg
      (runOn (runAgentLoop (World.scripted alwaysMaxTokens) cfg userMessage) world
        session).2.received := by
  have hstop : ∀ r ∈ (runOn (runAgentLoop (World.scripted alwaysMaxTokens) cfg userMessage) world
      session).2.received, r.response.stopReason = .maxTokens := by
    intro r hr
    obtain ⟨request, response, ⟨s, hs⟩, hgo⟩ := received_goesOn _ _ _ _ _ r hr
    have hresponse : response = ⟨[.text "more"], .maxTokens, [], ⟨1, 1⟩⟩ := by
      have : Except.ok (ε := LlmError) (⟨[.text "more"], .maxTokens, [], ⟨1, 1⟩⟩ :
        CompletionResponse) = .ok response := hs
      exact (Except.ok.inj this).symm
    subst hresponse
    generalize hr' : r.response = response' at hgo
    cases hgo with
    | same => rfl
    | recovered calls hans _ => simp at hans
  refine ⟨fun r hr => ⟨fun h => ?_, fun h => ?_, fun h => ?_⟩, ?_⟩
  · simp [hstop r hr] at h
  · simp [hstop r hr] at h
  · rcases h.1 with h | h <;> simp [hstop r hr] at h
  · rw [List.sum_eq_zero fun n hn => ?_]
    · exact Nat.zero_le _
    · obtain ⟨r, hr, rfl⟩ := List.mem_map.1 hn
      exact callCount_of_ne (by simp [hstop r hr])

/-- A run that is cut short at the token limit. -/
theorem saves_pairedOnce_maxTokens :
    (∀ saved ∈ (runOn (runAgentLoop (World.scripted alwaysMaxTokens) .sample "hi") 0
        ⟨1, 1, [], 0, none⟩).2.saves, PairedOnce saved) ∧
      ∀ saved ∈ (runOn (runAgentLoopStreaming (World.scripted alwaysMaxTokens) .sample "hi") 0
        ⟨1, 1, [], 0, none⟩).2.saves, PairedOnce saved :=
  saves_pairedOnce (World.scripted alwaysMaxTokens)
    (fun request s response h => by
      obtain rfl : (⟨[.text "more"], .maxTokens, [], ⟨1, 1⟩⟩ : CompletionResponse) = response :=
        Except.ok.inj h
      rfl)
    .sample "hi" 0 ⟨1, 1, [], 0, none⟩ ⟨by simp, by simp⟩
    (fits_alwaysMaxTokens .sample "hi" 0 ⟨1, 1, [], 0, none⟩)

/-! ### The circuit breaker -/

/-- More calls than the circuit breaker allows: the session is saved with none of them answered. -/
theorem toolUse_breaks (w : World σ) (cfg : Config) (st : LoopState) (response : CompletionResponse)
    (t : Trace σ) (hne : response.toolCalls ≠ [])
    (hsmall : st.loopGuard.totalCalls + response.toolCalls.length < 2 ^ 32)
    (hlimit : st.loopGuard.config.globalCircuitBreaker <
      st.loopGuard.totalCalls + response.toolCalls.length) :
    ∃ e t', run (toolUse w cfg st response) t = (.error e, t') ∧
      t'.saves = t.saves ++ [t.session.messages ++ [⟨.assistant, .blocks response.content⟩]] := by
  rw [toolUse, run_push_bind]
  rcases hrun : run (executeCalls w cfg response.toolCalls st.loopGuard []) _ with ⟨r, t'⟩
  rcases executeCalls_does w cfg response.toolCalls st.loopGuard [] _ with
    ⟨_, _, _, _, _, _, hwithin⟩ | ⟨e, hres, hadds, -⟩
  · exact absurd hlimit (hwithin hne hsmall).not_gt
  · rw [hrun] at hres hadds
    obtain rfl : r = .error e := hres
    rw [run_bind_of_error hrun]
    exact ⟨e, t', rfl, hadds.saves⟩

/-- One call more than the circuit breaker allows. -/
def tooManyCalls : List ToolCall := (List.range 31).map fun i => ⟨toString i, "tool", .null⟩

/-- A driver whose first response has too many calls. -/
def breaksCircuit : ℕ → Except LlmError CompletionResponse :=
  fun _ => .ok ⟨tooManyCalls.map ToolCall.block, .toolUse, tooManyCalls, ⟨1, 1⟩⟩

/-- The defaults with thirty rounds, for which the circuit breaker stays at thirty calls. -/
def thirtyRounds : Config := { Config.sample with autonomousMaxIterations := some 30 }

/-- The session that is saved when 31 calls break the circuit has uses without results. -/
theorem saves_pairedOnce_fails :
    ¬ ∀ (w : World ℕ) (cfg : Config) (userMessage : String) (world : ℕ) (session : Session),
      CallsAreBlocks w → PairedOnce session.messages →
      ∀ saved ∈ (runOn (runAgentLoop w cfg userMessage) world session).2.saves,
        PairedOnce saved := by
  intro hall
  have hblocks : CallsAreBlocks (World.scripted breaksCircuit) := by
    intro request s response h
    obtain rfl : (⟨tooManyCalls.map ToolCall.block, .toolUse, tooManyCalls, ⟨1, 1⟩⟩ :
      CompletionResponse) = response := Except.ok.inj h
    exact filterMap_blockCall?_block tooManyCalls
  have hpaired := hall (World.scripted breaksCircuit) thirtyRounds "hi" 0
    ⟨1, 1, [], 0, none⟩ hblocks ⟨by simp, by simp⟩
  obtain ⟨st, t, hbegin, hrun⟩ := runAgentLoop_does (World.scripted breaksCircuit)
    thirtyRounds "hi" 0 ⟨1, 1, [], 0, none⟩
  generalize systemPromptOf (World.scripted breaksCircuit) thirtyRounds "hi" 0 =
      systemPrompt at hrun
  obtain ⟨st', t', hround, -, hguard, -, hadds, -⟩ := round_scripted breaksCircuit _
    thirtyRounds systemPrompt "hi" 0 st t rfl (Or.inl rfl)
  obtain ⟨e, t'', htool, hsaves⟩ := toolUse_breaks (World.scripted breaksCircuit) thirtyRounds st'
    ⟨tooManyCalls.map ToolCall.block, .toolUse, tooManyCalls, ⟨1, 1⟩⟩ t' (by decide)
    (by rw [hguard, hbegin.loopGuard]; decide) (by rw [hguard, hbegin.loopGuard]; decide)
  have hiter : run (iterate (World.scripted breaksCircuit) thirtyRounds systemPrompt "hi" 30 0 st)
      t =
      (.error e, t'') := by
    rw [iterate]
    exact run_bind_of_error (hround.trans htool)
  rw [hrun] at hpaired
  have hsaved : t'.session.messages ++ [⟨.assistant, .blocks (tooManyCalls.map ToolCall.block)⟩] ∈
      (run (iterate (World.scripted breaksCircuit) thirtyRounds systemPrompt "hi"
        thirtyRounds.maxIterations 0 st) t).2.saves := by
    show _ ∈ (run (iterate (World.scripted breaksCircuit) thirtyRounds systemPrompt "hi" 30 0 st)
      t).2.saves
    rw [hiter, hsaves]
    exact List.mem_append_right _ (List.mem_singleton.2 rfl)
  have hsession : t'.session.messages = [.user "hi"] := by
    rw [hadds.messages, hbegin.session]
    rfl
  rw [hsession] at hsaved
  obtain ⟨n, hn, -⟩ := (hpaired _ hsaved).answered 1
    ⟨.assistant, .blocks (tooManyCalls.map ToolCall.block)⟩ rfl "0" (by decide)
  simp at hn

end LoopRun
end RustyHand
