import RustyHand.Runtime.LoopKeeps
import RustyHand.Runtime.LoopStreaming

/-!
# What becomes of tool calls

The agent loop branches on the stop reason of a response, not on its calls
(`run_agent_loop` and `run_agent_loop_streaming` of `rusty-hand-runtime/src/agent_loop.rs`): calls
that come with `EndTurn` or `StopSequence` are passed over, and so are those behind the one that
breaks the circuit.

* `World.logged`: a world with a log of the calls that are executed; `agree_logged`: the log changes
  nothing;
* `Settles`: every call is executed once or refused with an error, and has one result;
* `NoneIgnored`, `Received.Settled`: what a run owes to its calls, and when it pays;
* `noneIgnored_of_settled`.
-/

namespace RustyHand
namespace LoopRun

open Effects LlmDriver

variable {σ α : Type}

/-! ### The log -/

/-- What the world does, with the log left as it is. -/
def keepLog (f : σ → α × σ) (s : σ × List ToolCall) : α × σ × List ToolCall :=
  ((f s.1).1, (f s.1).2, s.2)

/-- The world, with a log of the calls that are executed. -/
def World.logged (w : World σ) : World (σ × List ToolCall) where
  toLowercase := w.toLowercase
  isAlphanumeric := w.isAlphanumeric
  sha256 := w.sha256
  parseJson := w.parseJson
  now := keepLog w.now
  recallMemories text := keepLog (w.recallMemories text)
  remember text s := (w.remember text s.1, s.2)
  fire event data := keepLog (w.fire event data)
  cooldown provider := keepLog (w.cooldown provider)
  recordSuccess provider s := (w.recordSuccess provider s.1, s.2)
  recordFailure provider billing s := (w.recordFailure provider billing s.1, s.2)
  answer request := keepLog (w.answer request)
  sent request s := w.sent request s.1
  newIds := keepLog w.newIds
  executeTool call s := ((w.executeTool call s.1).1, (w.executeTool call s.1).2, s.2 ++ [call])
  progress call s := w.progress call s.1
  saveSession session := keepLog (w.saveSession session)
  setSessionLabel id label := keepLog (w.setSessionLabel id label)

@[simp] theorem logged_toLowercase (w : World σ) : w.logged.toLowercase = w.toLowercase := rfl

@[simp] theorem logged_isAlphanumeric (w : World σ) :
    w.logged.isAlphanumeric = w.isAlphanumeric := rfl

@[simp] theorem logged_hashing (w : World σ) : w.logged.hashing = w.hashing := rfl

/-- The calls that have been executed. -/
def executed (t : Trace (σ × List ToolCall)) : List ToolCall := t.world.2

theorem blind_executed (w : World σ) : Blind w.logged (executed (σ := σ)) := by
  constructor <;> intros <;> rfl

/-- The trace without the log. -/
def unlog (t : Trace (σ × List ToolCall)) : Trace σ :=
  { world := t.world.1, session := t.session, requests := t.requests, saves := t.saves,
    events := t.events, entered := t.entered, received := t.received }

/-- The computations do the same, but for the log. -/
def Unlogs (x : Run (σ × List ToolCall) α) (y : Run σ α) : Prop :=
  Agree (fun t t' => unlog t = t') x y

section Unlogs

variable (w : World σ) (cfg : Config)

theorem unlogs_keepLog (f : σ → α × σ) : Unlogs (effect (keepLog f)) (effect f) := by
  rintro t _ rfl
  exact ⟨rfl, rfl⟩

theorem unlogs_push (m : Message) : Unlogs (σ := σ) (push m) (push m) := by
  rintro t _ rfl
  exact ⟨rfl, rfl⟩

theorem unlogs_saveSession : Unlogs (saveSession w.logged) (saveSession w) := by
  rintro t _ rfl
  exact ⟨rfl, rfl⟩

theorem unlogs_executeTool (call : ToolCall) :
    Unlogs (effect (w.logged.executeTool call)) (effect (w.executeTool call)) := by
  rintro t _ rfl
  exact ⟨rfl, rfl⟩

theorem unlogs_afterComplete (provider : String)
    {again : Option (Run (σ × List ToolCall) CompletionResponse)}
    {again' : Option (Run σ CompletionResponse)} (h : Option.Rel Unlogs again again')
    (result : Except LlmError CompletionResponse) :
    Unlogs (afterComplete w.logged provider again result)
      (afterComplete w provider again' result) := by
  have hgetD : ∀ {o : Option (Run (σ × List ToolCall) CompletionResponse)}
      {o' : Option (Run σ CompletionResponse)} (isBilling : Bool) (message : String),
      Option.Rel Unlogs o o' → Unlogs (o.getD (giveUp w.logged provider isBilling message))
        (o'.getD (giveUp w provider isBilling message)) := by
    intro o o' isBilling message ho
    cases ho with
    | none =>
      rintro t _ rfl
      exact ⟨rfl, rfl⟩
    | some hx => exact hx
  have hif : ∀ retry : Bool, Option.Rel Unlogs again again' →
      Option.Rel Unlogs (if retry then again else none) (if retry then again' else none) := by
    intro retry h
    cases retry with
    | true => exact h
    | false => exact .none
  cases result with
  | ok response =>
    rintro t _ rfl
    exact ⟨rfl, rfl⟩
  | error e =>
    cases e with
    | rateLimited | overloaded => exact hgetD _ _ h
    | http | api | parse | missingApiKey =>
      exact hgetD _ _ (hif _ h)

theorem unlogs_completeAttempts (provider : String) (request : LlmDriver.CompletionRequest)
    (retries : ℕ) : Unlogs (completeAttempts w.logged provider request retries)
      (completeAttempts w provider request retries) := by
  have hcomplete : Unlogs (complete w.logged request) (complete w request) := by
    rintro t _ rfl
    exact ⟨rfl, rfl⟩
  induction retries with
  | zero => exact hcomplete.bind fun result => unlogs_afterComplete w provider .none result
  | succ retries ih =>
    exact hcomplete.bind fun result => unlogs_afterComplete w provider (.some ih) result

theorem unlogs_callWithRetry (provider : String) (request : LlmDriver.CompletionRequest) :
    Unlogs (callWithRetry w.logged provider request) (callWithRetry w provider request) := by
  refine (unlogs_keepLog (w.cooldown provider)).bind fun verdict => ?_
  cases verdict with
  | reject reason secs => exact Agree.throw _
  | allow | allowProbe => exact unlogs_completeAttempts w provider request maxRetries

theorem unlogs_promote (response : CompletionResponse) :
    Unlogs (promote w.logged cfg response) (promote w cfg response) := by
  refine Agree.ite ?_ (Agree.pure _)
  refine Agree.bind ((unlogs_keepLog w.newIds).bind fun _ => Agree.pure _) fun recovered => ?_
  exact Agree.ite (Agree.pure _) (Agree.pure _)

theorem unlogs_runTool (call : ToolCall) (warning : Option String) (g : LoopGuard.State) :
    Unlogs (runTool w.logged cfg call warning g) (runTool w cfg call warning g) := by
  refine (unlogs_keepLog (w.fire _ _)).bind fun verdict => ?_
  cases verdict with
  | error reason => exact Agree.pure _
  | ok _ =>
    refine (unlogs_executeTool w call).bind fun result => ?_
    exact (unlogs_keepLog (w.fire _ _)).bind fun _ => Agree.pure _

theorem unlogs_executeCall (call : ToolCall) (g : LoopGuard.State) :
    Unlogs (executeCall w.logged cfg call g) (executeCall w cfg call g) := by
  unfold executeCall
  rw [logged_hashing]
  obtain ⟨verdict, g'⟩ := LoopGuard.check w.hashing call.name call.input g
  cases verdict with
  | allow => exact unlogs_runTool w cfg call none g'
  | warn message => exact unlogs_runTool w cfg call (some message) g'
  | block message => exact Agree.pure _
  | circuitBreak message =>
    refine (unlogs_saveSession w).bind fun _ => ?_
    exact (unlogs_keepLog (w.fire _ _)).bind fun _ => Agree.throw _

theorem unlogs_executeCalls (calls : List ToolCall) (g : LoopGuard.State)
    (results : List ContentBlock) :
    Unlogs (executeCalls w.logged cfg calls g results) (executeCalls w cfg calls g results) := by
  induction calls generalizing g results with
  | nil => exact Agree.pure _
  | cons call calls ih => exact (unlogs_executeCall w cfg call g).bind fun r => ih r.1 _

theorem unlogs_autoLabel (userMessage : String) :
    Unlogs (autoLabel w.logged userMessage) (autoLabel w userMessage) := by
  unfold autoLabel
  rw [logged_isAlphanumeric]
  refine Agree.get_bind fun t t' h => ?_
  subst h
  refine Agree.ite ?_ (Agree.pure _)
  cases LoopText.deriveSessionLabel w.isAlphanumeric userMessage with
  | none => exact Agree.pure _
  | some label =>
    refine Agree.ite ?_ (Agree.pure _)
    refine (unlogs_keepLog (w.setSessionLabel _ label)).bind fun set => ?_
    refine Agree.ite ?_ (Agree.pure _)
    rintro t _ rfl
    exact ⟨rfl, rfl⟩

theorem unlogs_endTurn (userMessage : String) (iteration : ℕ) (st : LoopState)
    (response : CompletionResponse) :
    Unlogs (endTurn w.logged userMessage iteration st response)
      (endTurn w userMessage iteration st response) := by
  unfold endTurn
  generalize LoopText.parseDirectives response.text = parsed
  dsimp only
  split_ifs
  · refine (unlogs_push _).bind fun _ => (unlogs_saveSession w).bind fun saved => ?_
    cases saved with
    | error e => exact Agree.throw _
    | ok _ => exact Agree.pure _
  · exact Agree.pure _
  · refine (unlogs_push _).bind fun _ => ?_
    refine Agree.bind (fun t t' h => by subst h; exact ⟨rfl, rfl⟩) fun _ => ?_
    refine (unlogs_saveSession w).bind fun saved => ?_
    cases saved with
    | error e => exact Agree.throw _
    | ok _ =>
      refine (unlogs_autoLabel w userMessage).bind fun _ => ?_
      refine Agree.bind (fun t t' h => by subst h; exact ⟨rfl, rfl⟩) fun _ => ?_
      exact (unlogs_keepLog (w.fire _ _)).bind fun _ => Agree.pure _

theorem unlogs_toolUse (st : LoopState) (response : CompletionResponse) :
    Unlogs (toolUse w.logged cfg st response) (toolUse w cfg st response) := by
  refine (unlogs_push _).bind fun _ => (unlogs_executeCalls w cfg _ _ _).bind fun r => ?_
  exact (unlogs_push _).bind fun _ => (unlogs_saveSession w).bind fun _ => Agree.pure _

theorem unlogs_maxTokens (iteration : ℕ) (st : LoopState) (response : CompletionResponse) :
    Unlogs (maxTokens w.logged iteration st response) (maxTokens w iteration st response) := by
  unfold maxTokens
  dsimp only
  split_ifs
  · refine (unlogs_push _).bind fun _ => (unlogs_saveSession w).bind fun _ => ?_
    exact (unlogs_keepLog (w.fire _ _)).bind fun _ => Agree.pure _
  · exact (unlogs_push _).bind fun _ => Agree.pure _

theorem unlogs_round (systemPrompt userMessage : String) (iteration : ℕ) (st : LoopState) :
    Unlogs (round w.logged cfg systemPrompt userMessage iteration st)
      (round w cfg systemPrompt userMessage iteration st) := by
  refine Agree.bind (fun t t' h => by subst h; exact ⟨rfl, rfl⟩) fun _ => ?_
  refine (unlogs_callWithRetry w _ _).bind fun response => ?_
  refine (unlogs_promote w cfg response).bind fun response => ?_
  refine Agree.bind (fun t t' h => by subst h; exact ⟨rfl, rfl⟩) fun _ => ?_
  unfold branch
  cases response.stopReason with
  | endTurn | stopSequence => exact unlogs_endTurn w _ _ _ _
  | toolUse => exact unlogs_toolUse w cfg _ _
  | maxTokens => exact unlogs_maxTokens w _ _ _

theorem unlogs_iterate (systemPrompt userMessage : String) (fuel iteration : ℕ) (st : LoopState) :
    Unlogs (iterate w.logged cfg systemPrompt userMessage fuel iteration st)
      (iterate w cfg systemPrompt userMessage fuel iteration st) := by
  induction fuel generalizing iteration st with
  | zero =>
    refine (unlogs_saveSession w).bind fun _ => ?_
    exact (unlogs_keepLog (w.fire _ _)).bind fun _ => Agree.throw _
  | succ fuel ih =>
    refine (unlogs_round w cfg systemPrompt userMessage iteration st).bind fun flow => ?_
    cases flow with
    | done result => exact Agree.pure _
    | next st => exact ih _ _

/-- The log changes nothing: a run in the world with the log is the run in the world itself. -/
theorem runAgentLoop_logged (userMessage : String) (world : σ) (session : Session) :
    (runOn (runAgentLoop w.logged cfg userMessage) (world, []) session).1 =
        (runOn (runAgentLoop w cfg userMessage) world session).1 ∧
      unlog (runOn (runAgentLoop w.logged cfg userMessage) (world, []) session).2 =
        (runOn (runAgentLoop w cfg userMessage) world session).2 := by
  have hrun : Unlogs (runAgentLoop w.logged cfg userMessage) (runAgentLoop w cfg userMessage) := by
    refine (unlogs_keepLog (w.recallMemories _)).bind fun memories => ?_
    refine (unlogs_keepLog (w.fire _ _)).bind fun _ => (unlogs_keepLog w.now).bind fun now => ?_
    refine (unlogs_push _).bind fun _ => Agree.get_bind fun t t' h => ?_
    subst h
    exact unlogs_iterate w cfg _ _ _ _ _
  exact hrun { world := (world, []), session := session } { world := world, session := session } rfl

end Unlogs

/-! ### What a run owes to its calls -/

/-- Every call is executed once, or refused with an error, and has one result. -/
inductive Settles : List ToolCall → List ToolCall → List ContentBlock → Prop
  | nil : Settles [] [] []
  | executed {calls ran : List ToolCall} {results : List ContentBlock} (call : ToolCall)
    (content : String) (isError : Bool) : Settles calls ran results →
    Settles (call :: calls) (call :: ran) (.toolResult call.id content isError :: results)
  | refused {calls ran : List ToolCall} {results : List ContentBlock} (call : ToolCall)
    (message : String) : Settles calls ran results →
    Settles (call :: calls) ran (.toolResult call.id message true :: results)

/-- What has become of the calls of a response: those that ran, and the results. -/
structure Settlement where
  received : Received
  ran : List ToolCall
  results : List ContentBlock

/-- The calls of the response are settled, and the results are saved right behind it. -/
structure Settlement.Holds (s : Settlement) (saves : List (List Message)) : Prop where
  settles : Settles s.received.response.toolCalls s.ran s.results
  saved : s.received.response.toolCalls ≠ [] →
    s.received.session ++
      [⟨.assistant, .blocks s.received.response.content⟩, ⟨.user, .blocks s.results⟩] ∈ saves

/-- Every call of a response that was not cut off is settled, and nothing else is executed. -/
def NoneIgnored (t : Trace (σ × List ToolCall)) : Prop :=
  ∃ settlements : List Settlement, settlements.map Settlement.received = t.received ∧
    executed t = settlements.flatMap Settlement.ran ∧
    ∀ s ∈ settlements, s.received.response.stopReason ≠ .maxTokens → s.Holds t.saves

/-- The response has no calls or was cut off, or else its stop reason is `ToolUse` and the circuit
breaker has room for its calls. -/
def Received.Settled (r : Received) : Prop :=
  r.response.toolCalls = [] ∨ r.response.stopReason = .maxTokens ∨
    r.response.stopReason = .toolUse ∧
      r.state.loopGuard.totalCalls + r.response.toolCalls.length ≤
        r.state.loopGuard.config.globalCircuitBreaker

/-! ### One call -/

section Calls

variable {w : World σ} {cfg : Config} {t t' : Trace (σ × List ToolCall)}

theorem runTool_settles (call : ToolCall) (warning : Option String) (g : LoopGuard.State)
    {r : LoopGuard.State × ContentBlock}
    (h : run (runTool w.logged cfg call warning g) t = (.ok r, t')) :
    (executed t' = executed t ++ [call] ∧
        ∃ content isError, r.2 = .toolResult call.id content isError) ∨
      (executed t' = executed t ∧ ∃ message, r.2 = .toolResult call.id message true) := by
  rw [runTool, run_effect_bind] at h
  cases hfire : (w.logged.fire .beforeToolCall (beforeToolCallData call) t.world).1 with
  | error reason =>
    rw [hfire] at h
    obtain ⟨hr, rfl⟩ := Prod.mk.inj h
    obtain rfl := Except.ok.inj hr
    exact .inr ⟨rfl, _, rfl⟩
  | ok _ =>
    rw [hfire] at h
    dsimp only at h
    rw [run_effect_bind, run_effect_bind, run_pure] at h
    obtain ⟨hr, rfl⟩ := Prod.mk.inj h
    obtain rfl := Except.ok.inj hr
    exact .inl ⟨rfl, _, _, rfl⟩

theorem executeCall_settles (call : ToolCall) (g : LoopGuard.State)
    {r : LoopGuard.State × ContentBlock}
    (h : run (executeCall w.logged cfg call g) t = (.ok r, t')) :
    (executed t' = executed t ++ [call] ∧
        ∃ content isError, r.2 = .toolResult call.id content isError) ∨
      (executed t' = executed t ∧ ∃ message, r.2 = .toolResult call.id message true) := by
  unfold executeCall at h
  generalize LoopGuard.check w.logged.hashing call.name call.input g = checked at h
  obtain ⟨verdict, g'⟩ := checked
  cases verdict with
  | circuitBreak message =>
    dsimp only at h
    rw [run_saveSession_bind, run_effect_bind, run_throw] at h
    exact nomatch (Prod.mk.inj h).1
  | block message =>
    obtain ⟨hr, rfl⟩ := Prod.mk.inj h
    obtain rfl := Except.ok.inj hr
    exact .inr ⟨rfl, message, rfl⟩
  | warn message => exact runTool_settles call (some message) g' h
  | allow => exact runTool_settles call none g' h

theorem executeCall_error (call : ToolCall) (g : LoopGuard.State) {e : RustyHandError}
    (h : run (executeCall w.logged cfg call g) t = (.error e, t')) : executed t' = executed t := by
  unfold executeCall at h
  generalize LoopGuard.check w.logged.hashing call.name call.input g = checked at h
  obtain ⟨verdict, g'⟩ := checked
  cases verdict with
  | circuitBreak message =>
    dsimp only at h
    rw [run_saveSession_bind, run_effect_bind, run_throw] at h
    obtain ⟨-, rfl⟩ := Prod.mk.inj h
    rfl
  | block message => exact nomatch (Prod.mk.inj h).1
  | warn _ | allow =>
    obtain ⟨_, _, _, hok, -⟩ := runTool_does w.logged cfg call _ g' t
    rw [h] at hok
    exact nomatch hok

/-- The calls of a response, by induction on them.  What is executed is logged, also when the
circuit breaks; if it does not, all calls are settled. -/
theorem executeCalls_settles (calls : List ToolCall) (g : LoopGuard.State)
    (results : List ContentBlock)
    {res : Except RustyHandError (LoopGuard.State × List ContentBlock)}
    (h : run (executeCalls w.logged cfg calls g results) t = (res, t')) :
    ∃ ran, executed t' = executed t ++ ran ∧ ∀ r, res = .ok r →
      ∃ results', r.2 = results ++ results' ∧ Settles calls ran results' := by
  induction calls generalizing g results t with
  | nil =>
    obtain ⟨rfl, rfl⟩ := Prod.mk.inj h
    refine ⟨[], by simp, fun r hr => ?_⟩
    obtain rfl := Except.ok.inj hr
    exact ⟨[], by simp, .nil⟩
  | cons call calls ih =>
    rw [executeCalls] at h
    rcases hcall : run (executeCall w.logged cfg call g) t with ⟨e | r₁, t₁⟩
    · rw [run_bind_of_error hcall] at h
      obtain ⟨rfl, rfl⟩ := Prod.mk.inj h
      exact ⟨[], by rw [executeCall_error call g hcall, List.append_nil], fun r hr => by cases hr⟩
    · rw [run_bind_of_ok hcall] at h
      obtain ⟨ran, hran, hsettled⟩ := ih r₁.1 (results ++ [r₁.2]) h
      rcases executeCall_settles call g hcall with
        ⟨hlog, content, isError, hblock⟩ | ⟨hlog, message, hblock⟩
      · refine ⟨call :: ran, by rw [hran, hlog, List.append_assoc, List.singleton_append], ?_⟩
        intro r hr
        obtain ⟨results', hresults, hsettles⟩ := hsettled r hr
        refine ⟨r₁.2 :: results', by rw [hresults, List.append_assoc, List.singleton_append], ?_⟩
        rw [hblock]
        exact .executed call content isError hsettles
      · refine ⟨ran, by rw [hran, hlog], fun r hr => ?_⟩
        obtain ⟨results', hresults, hsettles⟩ := hsettled r hr
        refine ⟨r₁.2 :: results', by rw [hresults, List.append_assoc, List.singleton_append], ?_⟩
        rw [hblock]
        exact .refused call message hsettles

/-- The branch of `ToolUse`, when the circuit breaker has room for the calls. -/
theorem toolUse_settles (st : LoopState) (response : CompletionResponse)
    {res : Except RustyHandError Flow}
    (h : run (toolUse w.logged cfg st response) t = (res, t')) :
    ∃ ran results, executed t' = executed t ++ ran ∧
      ((response.toolCalls ≠ [] → st.loopGuard.totalCalls + response.toolCalls.length ≤
          st.loopGuard.config.globalCircuitBreaker) →
        Settles response.toolCalls ran results ∧
          t.session.messages ++
            [⟨.assistant, .blocks response.content⟩, ⟨.user, .blocks results⟩] ∈ t'.saves) := by
  rw [toolUse, run_push_bind] at h
  rcases hcalls : run (executeCalls w.logged cfg response.toolCalls st.loopGuard []) _ with
    ⟨e | ⟨g, results⟩, t₁⟩ <;>
    obtain ⟨ran, hran, hsettled⟩ := executeCalls_settles _ _ _ hcalls
  · rw [run_bind_of_error hcalls] at h
    obtain ⟨-, rfl⟩ := Prod.mk.inj h
    refine ⟨ran, [], hran, fun hroom => ?_⟩
    rcases executeCalls_does w.logged cfg response.toolCalls st.loopGuard [] _ with
      ⟨_, _, hok, -⟩ | ⟨_, _, _, hlt⟩
    · rw [hcalls] at hok
      cases hok
    · have hnil : response.toolCalls = [] := not_not.1 fun hne => absurd (hroom hne) hlt.not_ge
      rw [hnil] at hcalls
      cases (Prod.mk.inj hcalls).1
  · rw [run_bind_of_ok hcalls, run_push_bind, run_saveSession_bind, run_pure] at h
    obtain ⟨-, rfl⟩ := Prod.mk.inj h
    obtain ⟨results', hresults, hsettles⟩ := hsettled _ rfl
    rw [List.nil_append] at hresults
    obtain rfl : results = results' := hresults
    refine ⟨ran, results, hran, fun _ => ⟨hsettles, List.mem_append_right _ ?_⟩⟩
    have hmessages : t₁.session.messages =
        t.session.messages ++ [⟨.assistant, .blocks response.content⟩] := by
      rcases executeCalls_does w.logged cfg response.toolCalls st.loopGuard [] _ with
        ⟨_, _, _, _, _, hquiet, _⟩ | ⟨_, herror, -⟩
      · rw [hcalls] at hquiet
        exact hquiet.messages
      · rw [hcalls] at herror
        cases herror
    show _ ∈ [t₁.session.messages ++ [⟨.user, .blocks results⟩]]
    rw [hmessages, List.append_assoc]
    exact List.mem_singleton_self _

end Calls

/-! ### Runs -/

/-- From `t` to `t'` the calls of the responses that are received are settled, if they can be. -/
structure SettlesTo (t t' : Trace (σ × List ToolCall)) : Prop where
  saves : t.saves <+: t'.saves
  settlements : ∃ settlements : List Settlement,
    t'.received = t.received ++ settlements.map Settlement.received ∧
      executed t' = executed t ++ settlements.flatMap Settlement.ran ∧
      ∀ s ∈ settlements, s.received.Settled → s.received.response.stopReason ≠ .maxTokens →
        s.Holds t'.saves

theorem SettlesTo.trans {t t' t'' : Trace (σ × List ToolCall)} (h : SettlesTo t t')
    (h' : SettlesTo t' t'') : SettlesTo t t'' where
  saves := h.saves.trans h'.saves
  settlements := by
    obtain ⟨first, hreceived, hlog, hholds⟩ := h.settlements
    obtain ⟨second, hreceived', hlog', hholds'⟩ := h'.settlements
    refine ⟨first ++ second, ?_, ?_, fun s hs hsettled hstop => ?_⟩
    · rw [hreceived', hreceived, List.map_append, List.append_assoc]
    · rw [hlog', hlog, List.flatMap_append, List.append_assoc]
    · rcases List.mem_append.1 hs with hs | hs
      · obtain ⟨hsettles, hsaved⟩ := hholds s hs hsettled hstop
        exact ⟨hsettles, fun hne => h'.saves.subset (hsaved hne)⟩
      · exact hholds' s hs hsettled hstop

section Runs

variable {w : World σ} {cfg : Config} {systemPrompt userMessage : String} {iteration : ℕ}
  {st : LoopState} {t : Trace (σ × List ToolCall)}

theorem round_saves {res : Except RustyHandError Flow} {t' : Trace (σ × List ToolCall)}
    (h : run (round w.logged cfg systemPrompt userMessage iteration st) t = (res, t')) :
    t.saves <+: t'.saves := by
  have hdoes := round_does w.logged cfg systemPrompt userMessage iteration st t
  rw [h] at hdoes
  cases hdoes with
  | failed _ _ _ h => exact ⟨_, h.saves.symm⟩
  | silent _ _ _ _ _ _ h | again _ _ _ _ _ h | answered _ _ _ _ _ _ _ _ h
  | ran _ _ _ _ _ _ _ _ _ _ h | broken _ _ _ _ _ _ _ h | cutShort _ _ _ _ _ _ h
  | continued _ _ _ _ _ _ h => exact ⟨_, h.saves.symm⟩

/-- Only the branch of tool calls executes any. -/
theorem branch_executed {response : CompletionResponse} {res : Except RustyHandError Flow}
    {t' : Trace (σ × List ToolCall)}
    (h : run (branch w.logged cfg userMessage iteration st response) t = (res, t'))
    (hstop : response.stopReason ≠ .toolUse) : executed t' = executed t := by
  unfold branch at h
  cases hreason : response.stopReason with
  | endTurn | stopSequence =>
    have hkeeps := (blind_executed w).endTurn userMessage iteration st response t
    rw [hreason] at h
    dsimp only at h
    rwa [h] at hkeeps
  | maxTokens =>
    have hkeeps := (blind_executed w).maxTokens iteration st response t
    rw [hreason] at h
    dsimp only at h
    rwa [h] at hkeeps
  | toolUse => exact absurd hreason hstop

/-- What a round leaves of its response: nothing, if it has received none, or its settlement. -/
theorem round_settles {res : Except RustyHandError Flow} {t' : Trace (σ × List ToolCall)}
    (h : run (round w.logged cfg systemPrompt userMessage iteration st) t = (res, t')) :
    t'.received = t.received ∧ executed t' = executed t ∨
      ∃ s : Settlement, t'.received = t.received ++ [s.received] ∧
        executed t' = executed t ++ s.ran ∧
        (s.received.Settled → s.received.response.stopReason ≠ .maxTokens → s.Holds t'.saves) := by
  rcases round_eq w.logged cfg systemPrompt userMessage iteration st t with
    ⟨e, t₁, hrun, hblind⟩ | ⟨r, t₀, hasked, hrun⟩
  · rw [hrun] at h
    obtain ⟨-, rfl⟩ := Prod.mk.inj h
    exact .inl ⟨hblind (blind_received w.logged), hblind (blind_executed w)⟩
  · right
    rw [hrun] at h
    have hreceived := branch_received w.logged cfg userMessage iteration r.state r.response
      { t₀ with received := t₀.received ++ [r] }
    rw [h] at hreceived
    have hreceived' : t'.received = t.received ++ [r] := by
      rw [hreceived, ← hasked.blind (blind_received w.logged)]
    have hlog : executed { t₀ with received := t₀.received ++ [r] } = executed t :=
      hasked.blind (blind_executed w)
    by_cases htool : r.response.stopReason = .toolUse
    · rw [branch, htool] at h
      obtain ⟨ran, results, hran, hsettles⟩ := toolUse_settles r.state r.response h
      refine ⟨⟨r, ran, results⟩, hreceived', by rw [hran, hlog], fun hr hstop => ?_⟩
      have hroom : r.response.toolCalls ≠ [] →
          r.state.loopGuard.totalCalls + r.response.toolCalls.length ≤
            r.state.loopGuard.config.globalCircuitBreaker := by
        intro hne
        rcases hr with hnil | hcut | ⟨-, hroom⟩
        · exact absurd hnil hne
        · exact absurd hcut hstop
        · exact hroom
      obtain ⟨hcalls, hsaved⟩ := hsettles hroom
      refine ⟨hcalls, fun _ => ?_⟩
      have hmessages : t₀.session.messages = r.session := hasked.session.trans hasked.found.symm
      rw [← hmessages]
      exact hsaved
    · -- nothing is executed here, and a settled response owes nothing
      have hexecuted := branch_executed h htool
      refine ⟨⟨r, [], []⟩, hreceived', ?_, fun hr hstop => ?_⟩
      · rw [hexecuted, hlog, List.append_nil]
      · have hnil : r.response.toolCalls = [] := by
          rcases hr with hnil | hcut | ⟨htool', -⟩
          · exact hnil
          · exact absurd hcut hstop
          · exact absurd htool' htool
        exact ⟨by rw [hnil]; exact .nil, fun hne => absurd hnil hne⟩

theorem round_settlesTo {res : Except RustyHandError Flow} {t' : Trace (σ × List ToolCall)}
    (h : run (round w.logged cfg systemPrompt userMessage iteration st) t = (res, t')) :
    SettlesTo t t' where
  saves := round_saves h
  settlements := by
    rcases round_settles h with ⟨hreceived, hlog⟩ | ⟨s, hreceived, hlog, hholds⟩
    · exact ⟨[], by simpa using hreceived, by simpa using hlog, by simp⟩
    · exact ⟨[s], hreceived, by simpa using hlog, by simpa using hholds⟩

/-- The rounds that are still to come settle the calls of their own responses. -/
theorem iterate_settlesTo (fuel : ℕ) {res : Except RustyHandError AgentLoopResult}
    {t' : Trace (σ × List ToolCall)}
    (h : run (iterate w.logged cfg systemPrompt userMessage fuel iteration st) t = (res, t')) :
    SettlesTo t t' := by
  induction fuel generalizing iteration st t with
  | zero =>
    rw [iterate, run_saveSession_bind, run_effect_bind, run_throw] at h
    obtain ⟨-, rfl⟩ := Prod.mk.inj h
    exact ⟨⟨_, rfl⟩, [], (List.append_nil _).symm, (List.append_nil _).symm, by simp⟩
  | succ fuel ih =>
    rw [iterate] at h
    rcases hround : run (round w.logged cfg systemPrompt userMessage iteration st) t with
      ⟨e | flow, t₁⟩
    · rw [run_bind_of_error hround] at h
      obtain ⟨-, rfl⟩ := Prod.mk.inj h
      exact round_settlesTo hround
    · rw [run_bind_of_ok hround] at h
      cases flow with
      | done result =>
        obtain ⟨-, rfl⟩ := Prod.mk.inj h
        exact round_settlesTo hround
      | next st' => exact (round_settlesTo hround).trans (ih h)

end Runs

theorem NoneIgnored.of_same {t t' : Trace (σ × List ToolCall)} (h : NoneIgnored t)
    (hsame : Same t t') : NoneIgnored t' := by
  obtain ⟨settlements, hreceived, hlog, hholds⟩ := h
  refine ⟨settlements, hreceived.trans hsame.received, ?_, ?_⟩
  · rw [executed, ← hsame.world]
    exact hlog
  · rw [← hsame.saves]
    exact hholds

theorem runAgentLoop_settles (w : World σ) (cfg : Config) (userMessage : String) (world : σ)
    (session : Session)
    (hsettled : ∀ r ∈ (runOn (runAgentLoop w.logged cfg userMessage) (world, [])
      session).2.received, r.Settled) :
    NoneIgnored (runOn (runAgentLoop w.logged cfg userMessage) (world, []) session).2 := by
  have hbegins : ∃ systemPrompt st, ∃ t : Trace (σ × List ToolCall),
      t.received = [] ∧ executed t = [] ∧
      runOn (runAgentLoop w.logged cfg userMessage) (world, []) session =
        run (iterate w.logged cfg systemPrompt userMessage cfg.maxIterations 0 st) t := by
    rw [runOn, runAgentLoop, run_effect_bind, run_effect_bind, run_effect_bind, run_push_bind,
      run_get_bind]
    exact ⟨_, _, _, rfl, rfl, rfl⟩
  obtain ⟨systemPrompt, st, t, hnone, hlog, hrun⟩ := hbegins
  rcases hiterate : run (iterate w.logged cfg systemPrompt userMessage cfg.maxIterations 0 st) t
    with ⟨res, t'⟩
  obtain ⟨-, settlements, hreceived, hran, hholds⟩ := iterate_settlesTo _ hiterate
  rw [hnone, List.nil_append] at hreceived
  rw [hlog, List.nil_append] at hran
  rw [hrun, hiterate] at hsettled ⊢
  refine ⟨settlements, hreceived.symm, hran, fun s hs hstop => hholds s hs ?_ hstop⟩
  exact hsettled s.received (hreceived ▸ List.mem_map_of_mem hs)

/-- In every run of either loop, in every world, every call of every response that was not cut off
is executed once or refused with an error, and has one result, provided that each response with
calls stops for `ToolUse`, with room in the circuit breaker for its calls. -/
theorem noneIgnored_of_settled (w : World σ) (cfg : Config) (userMessage : String) (world : σ)
    (session : Session) {out : Except RustyHandError AgentLoopResult × Trace (σ × List ToolCall)}
    (hout : out = runOn (runAgentLoop w.logged cfg userMessage) (world, []) session ∨
      out = runOn (runAgentLoopStreaming w.logged cfg userMessage) (world, []) session)
    (hsettled : ∀ r ∈ out.2.received, r.Settled) : NoneIgnored out.2 := by
  rcases hout with rfl | rfl
  · exact runAgentLoop_settles w cfg userMessage world session hsettled
  · obtain ⟨-, hsame⟩ := same_runOn w.logged cfg userMessage (world, []) session
    rw [← hsame.received] at hsettled
    exact (runAgentLoop_settles w cfg userMessage world session hsettled).of_same hsame

/-- A call of a tool. -/
def toolCall : ToolCall := ⟨"1", "tool", .null⟩

/-- A driver that calls a tool once, with this stop reason. -/
def callsOnce (stopReason : StopReason) : ℕ → Except LlmError CompletionResponse
  | 0 => .ok ⟨[.text "Done.", toolCall.block], stopReason, [toolCall], ⟨1, 1⟩⟩
  | _ + 1 => .ok ⟨[.text "Done."], .endTurn, [], ⟨1, 1⟩⟩

/-- A call that is cut off, and an answer. -/
theorem noneIgnored_of_settled_cutOff :
    NoneIgnored (runOn (runAgentLoop (World.scripted (callsOnce .maxTokens)).logged .sample "hi")
      (0, []) ⟨1, 1, [], 0, none⟩).2 := by
  refine noneIgnored_of_settled (World.scripted (callsOnce .maxTokens)) .sample "hi" 0
    ⟨1, 1, [], 0, none⟩ (.inl rfl) ?_
  have hresponses : (runOn (runAgentLoop (World.scripted (callsOnce .maxTokens)).logged .sample
      "hi") (0, []) ⟨1, 1, [], 0, none⟩).2.received.map Received.response =
        [⟨[.text "Done.", toolCall.block], .maxTokens, [toolCall], ⟨1, 1⟩⟩,
          ⟨[.text "Done."], .endTurn, [], ⟨1, 1⟩⟩] := by decide +kernel
  intro r hr
  have hmem := List.mem_map_of_mem (f := Received.response) hr
  rw [hresponses] at hmem
  rcases List.mem_pair.1 hmem with heq | heq
  · exact .inr (.inl (congrArg CompletionResponse.stopReason heq))
  · exact .inl (congrArg CompletionResponse.toolCalls heq)

/-- A call that comes with `EndTurn` is neither executed nor answered. -/
theorem call_ignored_endTurn :
    ¬ ∀ (w : World ℕ) (cfg : Config) (userMessage : String) (world : ℕ) (session : Session),
      NoneIgnored
        (runOn (runAgentLoop w.logged cfg userMessage) (world, []) session).2 := by
  intro h
  obtain ⟨settlements, hreceived, -, hholds⟩ := h (World.scripted (callsOnce .endTurn)) .sample
    "hi" 0 ⟨1, 1, [], 0, none⟩
  have hresponses : (runOn (runAgentLoop (World.scripted (callsOnce .endTurn)).logged .sample
      "hi") (0, []) ⟨1, 1, [], 0, none⟩).2.received.map
        (fun r => (r.session.length, r.response)) =
      [(1, ⟨[.text "Done.", toolCall.block], .endTurn, [toolCall], ⟨1, 1⟩⟩)] := by decide
  have hsaves : (runOn (runAgentLoop (World.scripted (callsOnce .endTurn)).logged .sample
      "hi") (0, []) ⟨1, 1, [], 0, none⟩).2.saves = [[.user "hi", .assistant "Done."]] := by
    decide
  rw [← hreceived, List.map_map] at hresponses
  obtain ⟨s, rfl, hs⟩ := List.map_eq_singleton_iff.1 hresponses
  obtain ⟨hsession, hresponse⟩ := Prod.mk.inj hs
  have hsaved := (hholds s List.mem_cons_self (by rw [hresponse]; decide)).saved
    (by rw [hresponse]; exact List.cons_ne_nil _ _)
  rw [hsaves] at hsaved
  have hlen := congrArg List.length (List.mem_singleton.1 hsaved)
  rw [List.length_append, hsession] at hlen
  exact absurd hlen (by simp)

end LoopRun
end RustyHand
