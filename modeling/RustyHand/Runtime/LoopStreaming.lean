import RustyHand.Runtime.Loop

/-!
# The streaming agent loop

`run_agent_loop_streaming` of `rusty-hand-runtime/src/agent_loop.rs`: a copy of the loop that sends
events on the way.  It is modelled as a copy; `streaming_agrees` is the comparison.

* `runAgentLoopStreaming` and its parts, in the order of `Loop`;
* `Same`: two traces that differ by events alone;
* `agree_roundStreaming`: one round of each; `agree_iterateStreaming`: all of them.
-/

namespace RustyHand
namespace LoopRun

open Effects LlmDriver

variable {σ : Type}

/-! ### Tool calls -/

/-- Calls in the text of a final answer become tool calls. -/
def promoteStreaming (w : World σ) (cfg : Config) (response : CompletionResponse) :
    Run σ CompletionResponse := do
  if (response.stopReason = .endTurn ∨ response.stopReason = .stopSequence) ∧
      response.toolCalls.isEmpty then
    let recovered ← recoverTextToolCalls w cfg response.text
    if recovered.isEmpty then pure response
    else
      pure { response with
        toolCalls := recovered, stopReason := .toolUse, content := recovered.map ToolCall.block }
  else pure response

/-- `tool_runner::execute_tool` with a heartbeat at once and at every tick. -/
def executeWithProgress (w : World σ) (call : ToolCall) : Run σ (Option (String × Bool)) := do
  emit [.toolExecutionProgress call.name 0]
  let t ← get
  emit ((w.progress call t.world).map (.toolExecutionProgress call.name))
  effect (w.executeTool call)

/-- A call that the loop guard lets through; `warning` is what the guard says on it. -/
def runToolStreaming (w : World σ) (cfg : Config) (call : ToolCall) (warning : Option String)
    (g : LoopGuard.State) : Run σ (LoopGuard.State × ContentBlock) := do
  match ← effect (w.fire .beforeToolCall (beforeToolCallData call)) with
  | .error reason =>
    pure (g, .toolResult call.id ("Hook blocked tool '" ++ call.name ++ "': " ++ reason) true)
  | .ok () =>
    let g := (LoopGuard.getPollBackoff w.hashing call.name call.input g).2
    let result := (← executeWithProgress w call).getD (timedOut call.name, true)
    let _ ← effect (w.fire .afterToolCall (afterToolCallData call result.1 result.2))
    let outcome := LoopGuard.recordOutcome w.hashing call.name call.input result.1 g
    let content := LoopText.truncateToolResultDynamic result.1 cfg.budget
    let final := withNotes content (warning.toList ++ outcome.1.toList)
    emit [.toolExecutionResult call.name (String.ofList (final.toList.take 2000)) result.2]
    pure (outcome.2, .toolResult call.id final result.2)

/-- One tool call. -/
def executeCallStreaming (w : World σ) (cfg : Config) (call : ToolCall) (g : LoopGuard.State) :
    Run σ (LoopGuard.State × ContentBlock) := do
  let checked := LoopGuard.check w.hashing call.name call.input g
  match checked.1 with
  | .circuitBreak message =>
    let _ ← saveSession w
    let _ ← effect (w.fire .agentLoopEnd
      (.object [("error", .string message), ("reason", .string "circuit_break")]))
    throw (.internal message)
  | .block message => pure (checked.2, .toolResult call.id message true)
  | .warn message => runToolStreaming w cfg call (some message) checked.2
  | .allow => runToolStreaming w cfg call none checked.2

/-- The calls of a response, in order. -/
def executeCallsStreaming (w : World σ) (cfg : Config) :
    List ToolCall → LoopGuard.State → List ContentBlock →
      Run σ (LoopGuard.State × List ContentBlock)
  | [], g, results => pure (g, results)
  | call :: calls, g, results => do
    let r ← executeCallStreaming w cfg call g
    executeCallsStreaming w cfg calls r.1 (results ++ [r.2])

/-! ### The branches of a round -/

/-- A label is derived for a session that has none, and sent. -/
def autoLabelStreaming (w : World σ) (userMessage : String) : Run σ Unit := do
  let t ← get
  if t.session.label = none then
    match LoopText.deriveSessionLabel w.isAlphanumeric userMessage with
    | none => pure ()
    | some label =>
      if LoopText.isSessionLabel w.isAlphanumeric label then
        if ← effect (w.setSessionLabel t.session.id label) then
          modify fun t => { t with session := { t.session with label := some label } }
          emit [.sessionLabeled t.session.id label]
        else pure ()
      else pure ()
  else pure ()

/-- `EndTurn` and `StopSequence`. -/
def endTurnStreaming (w : World σ) (userMessage : String) (iteration : ℕ) (st : LoopState)
    (response : CompletionResponse) : Run σ Flow := do
  let parsed := LoopText.parseDirectives response.text
  let text := parsed.1
  if saysNothing parsed then
    push (.assistant "[no reply needed]")
    match ← saveSession w with
    | .error e => throw (.memory e)
    | .ok () =>
      pure (.done
        { response := "", totalUsage := st.totalUsage, iterations := iteration + 1, silent := true
          directives := ⟨parsed.2.replyTo, parsed.2.currentThread, true⟩ })
  else if asksAgain iteration text response then
    pure (.next { st with messages := st.messages ++ retryMessages })
  else
    let answer := AgentLoop.finalAnswer iteration text
    push (.assistant answer)
    modify fun t =>
      { t with
        session :=
          { t.session with
            messages := AgentLoop.pruneHeartbeatTurns t.session.messages AgentLoop.keepRecent } }
    match ← saveSession w with
    | .error e => throw (.memory e)
    | .ok () =>
      autoLabelStreaming w userMessage
      notice (w.remember ("User asked: " ++ userMessage ++ "\nI responded: " ++ answer))
      let _ ← effect (w.fire .agentLoopEnd
        (.object [("iterations", jsonNat (iteration + 1)),
          ("response_length", jsonNat answer.utf8ByteSize)]))
      pure (.done
        { response := answer, totalUsage := st.totalUsage, iterations := iteration + 1
          silent := false
          directives := ⟨parsed.2.replyTo, parsed.2.currentThread, parsed.2.silent⟩ })

/-- `ToolUse`. -/
def toolUseStreaming (w : World σ) (cfg : Config) (st : LoopState)
    (response : CompletionResponse) : Run σ Flow := do
  push ⟨.assistant, .blocks response.content⟩
  let r ← executeCallsStreaming w cfg response.toolCalls st.loopGuard []
  push ⟨.user, .blocks r.2⟩
  let _ ← saveSession w
  pure (.next
    { st with
      consecutiveMaxTokens := 0
      loopGuard := r.1
      messages :=
        st.messages ++ [⟨.assistant, .blocks response.content⟩, ⟨.user, .blocks r.2⟩] })

/-- `MaxTokens`. -/
def maxTokensStreaming (w : World σ) (iteration : ℕ) (st : LoopState)
    (response : CompletionResponse) : Run σ Flow := do
  let consecutive := st.consecutiveMaxTokens + 1
  if AgentLoop.maxContinuations ≤ consecutive then
    let text := AgentLoop.partialAnswer response.text
    push (.assistant text)
    let _ ← saveSession w
    let _ ← effect (w.fire .agentLoopEnd
      (.object [("iterations", jsonNat (iteration + 1)), ("reason", .string "max_continuations")]))
    pure (.done
      { response := text, totalUsage := st.totalUsage, iterations := iteration + 1, silent := false
        directives := {} })
  else
    push (.assistant response.text)
    pure (.next
      { st with
        consecutiveMaxTokens := consecutive
        messages := st.messages ++ [.assistant response.text, .user "Please continue."] })

/-- `match response.stop_reason`. -/
def branchStreaming (w : World σ) (cfg : Config) (userMessage : String) (iteration : ℕ)
    (st : LoopState) (response : CompletionResponse) : Run σ Flow :=
  match response.stopReason with
  | .endTurn | .stopSequence => endTurnStreaming w userMessage iteration st response
  | .toolUse => toolUseStreaming w cfg st response
  | .maxTokens => maxTokensStreaming w iteration st response

/-! ### The loop -/

/-- The warning that a recovery of the context sends. -/
def contextWarning : ContextOverflow.RecoveryStage → List StreamEvent
  | .none => []
  | .finalError =>
    [.phaseChange "context_warning"
      (some "Context overflow unrecoverable. Use /reset or /compact.")]
  | _ =>
    [.phaseChange "context_warning"
      (some ("Older messages trimmed to stay within context limits. " ++
        "Use /compact for smarter summarization."))]

/-- One round of the loop. -/
def roundStreaming (w : World σ) (cfg : Config) (systemPrompt userMessage : String)
    (iteration : ℕ) (st : LoopState) : Run σ Flow := do
  enter st
  emit (contextWarning (ContextOverflow.recoverFromOverflow st.messages systemPrompt
    cfg.availableTools cfg.ctxWindow).1)
  let messages := cfg.prepare systemPrompt st.messages
  let response ← streamWithRetry w cfg.provider (cfg.request systemPrompt messages)
  let st := { st with messages := messages, totalUsage := st.totalUsage.add response.usage }
  let response ← promoteStreaming w cfg response
  receive iteration st response
  branchStreaming w cfg userMessage iteration st response

/-- The rounds of the loop: so many are still to come. -/
def iterateStreaming (w : World σ) (cfg : Config) (systemPrompt userMessage : String) :
    ℕ → ℕ → LoopState → Run σ AgentLoopResult
  | 0, _, _ => do
    let _ ← saveSession w
    let _ ← effect (w.fire .agentLoopEnd
      (.object [("iterations", jsonNat cfg.maxIterations),
        ("reason", .string "max_iterations_exceeded")]))
    throw (.maxIterationsExceeded cfg.maxIterations)
  | fuel + 1, iteration, st => do
    match ← roundStreaming w cfg systemPrompt userMessage iteration st with
    | .done result => pure result
    | .next st => iterateStreaming w cfg systemPrompt userMessage fuel (iteration + 1) st

/-- `run_agent_loop_streaming`. -/
def runAgentLoopStreaming (w : World σ) (cfg : Config) (userMessage : String) :
    Run σ AgentLoopResult := do
  let memories ← effect (w.recallMemories userMessage)
  let _ ← effect (w.fire .beforePromptBuild
    (.object [("system_prompt", .string cfg.systemPrompt), ("user_message", .string userMessage)]))
  let now ← effect w.now
  let systemPrompt := cfg.prompt now memories
  push (.user userMessage)
  let t ← get
  iterateStreaming w cfg systemPrompt userMessage cfg.maxIterations 0
    { messages := startMessages t.session.messages
      loopGuard := { config := cfg.loopGuardConfig } }

/-! ### The two loops agree -/

/-- The traces differ by the events alone. -/
structure Same (t t' : Trace σ) : Prop where
  world : t.world = t'.world
  session : t.session = t'.session
  requests : t.requests = t'.requests
  saves : t.saves = t'.saves
  entered : t.entered = t'.entered
  received : t.received = t'.received

theorem agree_effect {α : Type} (f : σ → α × σ) : Agree Same (effect f) (effect f) := by
  refine Agree.modifyGet fun t t' h => ?_
  rw [h.world]
  exact ⟨rfl, rfl, h.session, h.requests, h.saves, h.entered, h.received⟩

theorem agree_notice (f : σ → σ) : Agree Same (notice f) (notice f) := by
  refine Agree.modify fun t t' h => ?_
  rw [h.world]
  exact ⟨rfl, h.session, h.requests, h.saves, h.entered, h.received⟩

theorem agree_push (m : Message) : Agree Same (push m : Run σ Unit) (push m) := by
  refine Agree.modify fun t t' h => ?_
  rw [h.session]
  exact ⟨h.world, rfl, h.requests, h.saves, h.entered, h.received⟩

theorem agree_saveSession (w : World σ) : Agree Same (saveSession w) (saveSession w) := by
  refine Agree.modifyGet fun t t' h => ?_
  rw [h.world, h.session, h.saves]
  exact ⟨rfl, rfl, rfl, h.requests, rfl, h.entered, h.received⟩

theorem agree_enter (st : LoopState) : Agree Same (enter st : Run σ Unit) (enter st) := by
  refine Agree.modify fun t t' h => ?_
  rw [h.entered]
  exact ⟨h.world, h.session, h.requests, h.saves, rfl, h.received⟩

theorem agree_receive (iteration : ℕ) (st : LoopState) (response : CompletionResponse) :
    Agree Same (receive iteration st response : Run σ Unit) (receive iteration st response) := by
  refine Agree.modify fun t t' h => ?_
  rw [h.received, h.session]
  exact ⟨h.world, rfl, h.requests, h.saves, h.entered, rfl⟩

/-- The events of the second computation are not compared. -/
theorem agree_emit {α : Type} {x k : Run σ α} (events : List StreamEvent) (h : Agree Same x k) :
    Agree Same x (emit events >>= fun _ => k) :=
  Agree.silent (fun _ _ h => ⟨h.world, h.session, h.requests, h.saves, h.entered, h.received⟩) h

/-- The driver answers a request alike, asked by `complete` or by `stream`. -/
theorem agree_stream (w : World σ) (request : LlmDriver.CompletionRequest) :
    Agree Same (complete w request) (stream w request) := by
  refine Agree.modifyGet fun t t' h => ?_
  rw [h.world, h.requests]
  exact ⟨rfl, rfl, h.session, rfl, h.saves, h.entered, h.received⟩

/-! ### `stream_with_retry` agrees with `call_with_retry` -/

theorem agree_giveUp {α : Type} (w : World σ) (provider : String) (isBilling : Bool)
    (message : String) :
    Agree Same (giveUp w provider isBilling message : Run σ α)
      (giveUp w provider isBilling message) :=
  (agree_notice _).bind fun _ => Agree.throw _

theorem agree_getD {α : Type} {again again' : Option (Run σ α)} {x y : Run σ α}
    (h : Option.Rel (Agree Same) again again') (hxy : Agree Same x y) :
    Agree Same (again.getD x) (again'.getD y) := by
  cases h with
  | none => exact hxy
  | some h => exact h

theorem agree_afterStream (w : World σ) (provider : String)
    {again again' : Option (Run σ CompletionResponse)}
    (h : Option.Rel (Agree Same) again again') (result : Except LlmError CompletionResponse) :
    Agree Same (afterComplete w provider again result) (afterStream w provider again' result) := by
  cases result with
  | ok response => exact (agree_notice _).bind fun _ => Agree.pure _
  | error e =>
    cases e with
    | rateLimited | overloaded => exact agree_getD h (agree_giveUp w _ _ _)
    | http | api | parse | missingApiKey =>
      refine agree_getD ?_ (agree_giveUp w _ _ _)
      split_ifs
      · exact h
      · exact .none

theorem agree_streamAttempts (w : World σ) (provider : String)
    (request : LlmDriver.CompletionRequest)
    (retries : ℕ) : Agree Same (completeAttempts w provider request retries)
      (streamAttempts w provider request retries) := by
  induction retries with
  | zero => exact (agree_stream w request).bind fun _ => agree_afterStream w provider .none _
  | succ retries ih =>
    exact (agree_stream w request).bind fun _ => agree_afterStream w provider (.some ih) _

theorem agree_streamWithRetry (w : World σ) (provider : String)
    (request : LlmDriver.CompletionRequest) :
    Agree Same (callWithRetry w provider request) (streamWithRetry w provider request) := by
  refine (agree_effect _).bind fun verdict => ?_
  cases verdict with
  | reject reason secs => exact Agree.throw _
  | allow | allowProbe => exact agree_streamAttempts w provider request maxRetries

/-! ### The parts of a round agree -/

theorem agree_promoteStreaming (w : World σ) (cfg : Config) (response : CompletionResponse) :
    Agree Same (promote w cfg response) (promoteStreaming w cfg response) := by
  refine Agree.ite ?_ (Agree.pure _)
  refine Agree.bind ((agree_effect _).bind fun _ => Agree.pure _) fun recovered => ?_
  exact Agree.ite (Agree.pure _) (Agree.pure _)

theorem agree_executeWithProgress (w : World σ) (call : ToolCall) :
    Agree Same (effect (w.executeTool call)) (executeWithProgress w call) :=
  agree_emit _ (Agree.get_right fun _ => agree_emit _ (agree_effect _))

theorem agree_runToolStreaming (w : World σ) (cfg : Config) (call : ToolCall)
    (warning : Option String) (g : LoopGuard.State) :
    Agree Same (runTool w cfg call warning g) (runToolStreaming w cfg call warning g) := by
  refine (agree_effect _).bind fun verdict => ?_
  cases verdict with
  | error reason => exact Agree.pure _
  | ok _ =>
    refine (agree_executeWithProgress w call).bind fun result => ?_
    refine (agree_effect _).bind fun _ => ?_
    exact agree_emit _ (Agree.pure _)

theorem agree_executeCallStreaming (w : World σ) (cfg : Config) (call : ToolCall)
    (g : LoopGuard.State) :
    Agree Same (executeCall w cfg call g) (executeCallStreaming w cfg call g) := by
  unfold executeCall executeCallStreaming
  obtain ⟨verdict, g'⟩ := LoopGuard.check w.hashing call.name call.input g
  cases verdict with
  | allow => exact agree_runToolStreaming _ _ _ _ _
  | warn message => exact agree_runToolStreaming _ _ _ _ _
  | block message => exact Agree.pure _
  | circuitBreak message =>
    refine (agree_saveSession w).bind fun _ => ?_
    exact (agree_effect _).bind fun _ => Agree.throw _

theorem agree_executeCallsStreaming (w : World σ) (cfg : Config) (calls : List ToolCall)
    (g : LoopGuard.State) (results : List ContentBlock) :
    Agree Same (executeCalls w cfg calls g results)
        (executeCallsStreaming w cfg calls g results) := by
  induction calls generalizing g results with
  | nil => exact Agree.pure _
  | cons call calls ih => exact (agree_executeCallStreaming w cfg call g).bind fun r => ih r.1 _

theorem agree_autoLabelStreaming (w : World σ) (userMessage : String) :
    Agree Same (autoLabel w userMessage) (autoLabelStreaming w userMessage) := by
  refine Agree.get_bind fun t t' h => ?_
  rw [h.session]
  refine Agree.ite ?_ (Agree.pure _)
  cases LoopText.deriveSessionLabel w.isAlphanumeric userMessage with
  | none => exact Agree.pure _
  | some label =>
    refine Agree.ite ?_ (Agree.pure _)
    refine (agree_effect _).bind fun set => ?_
    refine Agree.ite ?_ (Agree.pure _)
    -- the label is set on both sides; only the second sends it
    intro a b hab
    rw [emit, run_modify_bind, run_modify, run_modify, hab.session]
    exact ⟨rfl, hab.world, rfl, hab.requests, hab.saves, hab.entered, hab.received⟩

theorem agree_endTurnStreaming (w : World σ) (userMessage : String) (iteration : ℕ)
    (st : LoopState) (response : CompletionResponse) :
    Agree Same (endTurn w userMessage iteration st response)
      (endTurnStreaming w userMessage iteration st response) := by
  unfold endTurn endTurnStreaming
  generalize LoopText.parseDirectives response.text = parsed
  dsimp only
  split_ifs
  · refine (agree_push _).bind fun _ => (agree_saveSession w).bind fun saved => ?_
    cases saved with
    | error e => exact Agree.throw _
    | ok _ => exact Agree.pure _
  · exact Agree.pure _
  · refine (agree_push _).bind fun _ => ?_
    refine Agree.bind (Agree.modify fun t t' h => ?_) fun _ => ?_
    · rw [h.session]
      exact ⟨h.world, rfl, h.requests, h.saves, h.entered, h.received⟩
    refine (agree_saveSession w).bind fun saved => ?_
    cases saved with
    | error e => exact Agree.throw _
    | ok _ =>
      refine (agree_autoLabelStreaming w userMessage).bind fun _ => ?_
      refine (agree_notice _).bind fun _ => ?_
      exact (agree_effect _).bind fun _ => Agree.pure _

theorem agree_toolUseStreaming (w : World σ) (cfg : Config) (st : LoopState)
    (response : CompletionResponse) :
    Agree Same (toolUse w cfg st response) (toolUseStreaming w cfg st response) := by
  refine (agree_push _).bind fun _ => ?_
  refine (agree_executeCallsStreaming w cfg _ _ _).bind fun r => ?_
  exact (agree_push _).bind fun _ => (agree_saveSession w).bind fun _ => Agree.pure _

theorem agree_maxTokensStreaming (w : World σ) (iteration : ℕ) (st : LoopState)
    (response : CompletionResponse) :
    Agree Same (maxTokens w iteration st response)
        (maxTokensStreaming w iteration st response) := by
  unfold maxTokens maxTokensStreaming
  dsimp only
  split_ifs
  · refine (agree_push _).bind fun _ => (agree_saveSession w).bind fun _ => ?_
    exact (agree_effect _).bind fun _ => Agree.pure _
  · exact (agree_push _).bind fun _ => Agree.pure _

theorem agree_branchStreaming (w : World σ) (cfg : Config) (userMessage : String) (iteration : ℕ)
    (st : LoopState) (response : CompletionResponse) :
    Agree Same (branch w cfg userMessage iteration st response)
      (branchStreaming w cfg userMessage iteration st response) := by
  unfold branch branchStreaming
  cases response.stopReason with
  | endTurn => exact agree_endTurnStreaming _ _ _ _ _
  | stopSequence => exact agree_endTurnStreaming _ _ _ _ _
  | toolUse => exact agree_toolUseStreaming _ _ _ _
  | maxTokens => exact agree_maxTokensStreaming _ _ _ _

/-! ### The loops agree -/

theorem agree_roundStreaming (w : World σ) (cfg : Config) (systemPrompt userMessage : String)
    (iteration : ℕ) (st : LoopState) :
    Agree Same (round w cfg systemPrompt userMessage iteration st)
      (roundStreaming w cfg systemPrompt userMessage iteration st) := by
  refine (agree_enter st).bind fun _ => agree_emit _ ?_
  refine (agree_streamWithRetry w _ _).bind fun response => ?_
  refine (agree_promoteStreaming w cfg response).bind fun response => ?_
  exact (agree_receive _ _ _).bind fun _ => agree_branchStreaming _ _ _ _ _ _

/-- All rounds of each loop, by induction on those still to come. -/
theorem agree_iterateStreaming (w : World σ) (cfg : Config) (systemPrompt userMessage : String)
    (fuel iteration : ℕ) (st : LoopState) :
    Agree Same (iterate w cfg systemPrompt userMessage fuel iteration st)
      (iterateStreaming w cfg systemPrompt userMessage fuel iteration st) := by
  induction fuel generalizing iteration st with
  | zero =>
    refine (agree_saveSession w).bind fun _ => ?_
    exact (agree_effect _).bind fun _ => Agree.throw _
  | succ fuel ih =>
    refine (agree_roundStreaming w cfg systemPrompt userMessage iteration st).bind fun flow => ?_
    cases flow with
    | done result => exact Agree.pure _
    | next st => exact ih _ _

theorem agree_runAgentLoopStreaming (w : World σ) (cfg : Config) (userMessage : String) :
    Agree Same (runAgentLoop w cfg userMessage) (runAgentLoopStreaming w cfg userMessage) := by
  refine (agree_effect _).bind fun memories => ?_
  refine (agree_effect _).bind fun _ => (agree_effect _).bind fun now => ?_
  refine (agree_push _).bind fun _ => Agree.get_bind fun t t' h => ?_
  rw [h.session]
  exact agree_iterateStreaming _ _ _ _ _ _ _

/-- The runs of the two loops leave traces that differ by the events alone. -/
theorem same_runOn (w : World σ) (cfg : Config) (userMessage : String) (world : σ)
    (session : Session) :
    (runOn (runAgentLoop w cfg userMessage) world session).1 =
        (runOn (runAgentLoopStreaming w cfg userMessage) world session).1 ∧
      Same (runOn (runAgentLoop w cfg userMessage) world session).2
        (runOn (runAgentLoopStreaming w cfg userMessage) world session).2 :=
  agree_runAgentLoopStreaming w cfg userMessage { world := world, session := session }
    { world := world, session := session } ⟨rfl, rfl, rfl, rfl, rfl, rfl⟩

/-- The streaming loop makes the same requests, returns the same result or error, and leaves and
saves the same session, whatever the world does. -/
theorem runAgentLoopStreaming_agrees (w : World σ) (cfg : Config) (userMessage : String)
    (world : σ) (session : Session) :
    let plain := runOn (runAgentLoop w cfg userMessage) world session
    let streaming := runOn (runAgentLoopStreaming w cfg userMessage) world session
    streaming.1 = plain.1 ∧ streaming.2.requests = plain.2.requests ∧
      streaming.2.session = plain.2.session ∧ streaming.2.saves = plain.2.saves ∧
      streaming.2.world = plain.2.world := by
  intro plain streaming
  obtain ⟨hresult, h⟩ := same_runOn w cfg userMessage world session
  exact ⟨hresult.symm, h.requests.symm, h.session.symm, h.saves.symm, h.world.symm⟩

end LoopRun
end RustyHand
