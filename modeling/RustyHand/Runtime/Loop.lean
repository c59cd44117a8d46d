import RustyHand.Runtime.LoopWorld

/-!
# The agent loop in full

`run_agent_loop` of `rusty-hand-runtime/src/agent_loop.rs`, with its requests and its world.

* `Config`: what the loop is called with; `startMessages`: the history of its first request;
* `executeCall`, `executeCalls`: the calls of a response;
* `endTurn`, `toolUse`, `maxTokens`: the branches of a round;
* `round`, `iterate`, `runAgentLoop`.
-/

namespace RustyHand
namespace LoopRun

open Effects LlmDriver

variable {σ : Type}

/-- What a run is called with: the manifest's model, limits and names, the tools, and the context
window.  The agent's id is kept as its text. -/
structure Config where
  agentName : String
  agentId : String
  model : String
  provider : String
  maxTokens : ℕ
  temperature : UInt32
  systemPrompt : String
  thinking : Option ThinkingConfig
  responseFormat : ResponseFormat
  autonomousMaxIterations : Option ℕ
  availableTools : List ToolDefinition
  contextWindowTokens : Option ℕ

/-- `ReplyDirectives`. -/
structure ReplyDirectives where
  replyTo : Option String := none
  currentThread : Bool := false
  silent : Bool := false
  deriving DecidableEq

/-- `AgentLoopResult`; its cost is left to the kernel. -/
structure AgentLoopResult where
  response : String
  totalUsage : SendMessage.TokenUsage
  iterations : ℕ
  silent : Bool
  directives : ReplyDirectives
  deriving DecidableEq

/-- What becomes of a round. -/
inductive Flow
  | done (result : AgentLoopResult)
  | next (st : LoopState)

/-! ### Before the first round -/

/-- `MAX_ITERATIONS`. -/
def maxIterations : ℕ := 50

/-- `max_iterations`. -/
def Config.maxIterations (cfg : Config) : ℕ :=
    cfg.autonomousMaxIterations.getD LoopRun.maxIterations

/-- `MAX_HISTORY_MESSAGES`. -/
def maxHistoryMessages : ℕ := 20

/-- `DEFAULT_CONTEXT_WINDOW`. -/
def defaultContextWindow : ℕ := 200000

/-- `ctx_window`. -/
def Config.ctxWindow (cfg : Config) : ℕ := cfg.contextWindowTokens.getD defaultContextWindow

/-- `context_budget`. -/
def Config.budget (cfg : Config) : ContextBudget.Budget := ⟨cfg.ctxWindow⟩

/-- `loop_guard_config`: the circuit breaker grows with the iterations (`u32`, so that it wraps). -/
def Config.loopGuardConfig (cfg : Config) : LoopGuard.LoopGuardConfig :=
  let config : LoopGuard.LoopGuardConfig := {}
  if config.globalCircuitBreaker < cfg.maxIterations then
    { config with globalCircuitBreaker := cfg.maxIterations * 3 % 2 ^ 32 }
  else config

/-- The guard's hash and lower case. -/
def World.hashing (w : World σ) : LoopGuard.Hashing := ⟨w.sha256, w.toLowercase⟩

/-- The system prompt of the requests. -/
def Config.prompt (cfg : Config) (now : LoopText.Clock) (memories : List String) : String :=
  let base := LoopText.substitutePromptVars cfg.systemPrompt cfg.agentName cfg.agentId now
  if memories = [] then base else base ++ "\n\n" ++ LoopText.buildMemorySection memories

/-- The history of the first request: the session without system messages, repaired, and the last
twenty of it repaired again. -/
def startMessages (session : List Message) : List Message :=
  let messages :=
    SessionRepair.validateAndRepair (session.filter fun m => m.role ≠ .system)
  if maxHistoryMessages < messages.length then
    SessionRepair.validateAndRepair (messages.drop (messages.length - maxHistoryMessages))
  else messages

/-- What the request of a round carries of the history. -/
def Config.prepare (cfg : Config) (systemPrompt : String) (messages : List Message) :
    List Message :=
  (ContextBudget.applyContextGuard
    (ContextOverflow.recoverFromOverflow messages systemPrompt cfg.availableTools
      cfg.ctxWindow).2 cfg.budget).1

/-- The request of a round. -/
def Config.request (cfg : Config) (systemPrompt : String) (messages : List Message) :
    LlmDriver.CompletionRequest :=
  { model := cfg.model
    messages := messages
    tools := cfg.availableTools
    maxTokens := cfg.maxTokens
    temperature := cfg.temperature
    system := some systemPrompt
    thinking := cfg.thinking
    responseFormat := cfg.responseFormat }

/-! ### Tool calls -/

/-- The calls recovered from a text, with their ids. -/
def recoverTextToolCalls (w : World σ) (cfg : Config) (text : String) : Run σ (List ToolCall) := do
  let ids ← effect w.newIds
  pure ((LoopText.textToolCalls w.parseJson text cfg.availableTools).zipIdx.map fun c =>
    { id := "recovered_" ++ ids c.2, name := c.1.1, input := c.1.2 })

/-- Calls in the text of a final answer become tool calls. -/
def promote (w : World σ) (cfg : Config) (response : CompletionResponse) :
    Run σ CompletionResponse := do
  if (response.stopReason = .endTurn ∨ response.stopReason = .stopSequence) ∧
      response.toolCalls.isEmpty then
    let recovered ← recoverTextToolCalls w cfg response.text
    if recovered.isEmpty then pure response
    else
      pure { response with
        toolCalls := recovered, stopReason := .toolUse, content := recovered.map ToolCall.block }
  else pure response

/-- `"Tool '…' timed out after 120s."` -/
def timedOut (name : String) : String := "Tool '" ++ name ++ "' timed out after 120s."

/-- The notes of the loop guard on a result. -/
def withNotes (content : String) (notes : List String) : String :=
  if notes = [] then content else content ++ "\n\n[LOOP GUARD] " ++ String.intercalate " " notes

/-- The payload of `BeforeToolCall`. -/
def beforeToolCallData (call : ToolCall) : Json :=
  .object [("input", call.input), ("tool_name", .string call.name)]

/-- The payload of `AfterToolCall`. -/
def afterToolCallData (call : ToolCall) (content : String) (isError : Bool) : Json :=
  .object [("is_error", .bool isError), ("result", .string content),
    ("tool_name", .string call.name)]

/-- A call that the loop guard lets through; `warning` is what the guard says on it.  Whatever
`execute_tool` returns bears the id it was given. -/
def runTool (w : World σ) (cfg : Config) (call : ToolCall) (warning : Option String)
    (g : LoopGuard.State) : Run σ (LoopGuard.State × ContentBlock) := do
  match ← effect (w.fire .beforeToolCall (beforeToolCallData call)) with
  | .error reason =>
    pure (g, .toolResult call.id ("Hook blocked tool '" ++ call.name ++ "': " ++ reason) true)
  | .ok () =>
    let g := (LoopGuard.getPollBackoff w.hashing call.name call.input g).2
    let result := (← effect (w.executeTool call)).getD (timedOut call.name, true)
    let _ ← effect (w.fire .afterToolCall (afterToolCallData call result.1 result.2))
    let outcome := LoopGuard.recordOutcome w.hashing call.name call.input result.1 g
    let content := LoopText.truncateToolResultDynamic result.1 cfg.budget
    pure (outcome.2, .toolResult call.id
      (withNotes content (warning.toList ++ outcome.1.toList)) result.2)

/-- One tool call: the circuit breaker ends the run, after a save of the session as it is. -/
def executeCall (w : World σ) (cfg : Config) (call : ToolCall) (g : LoopGuard.State) :
    Run σ (LoopGuard.State × ContentBlock) := do
  let checked := LoopGuard.check w.hashing call.name call.input g
  match checked.1 with
  | .circuitBreak message =>
    let _ ← saveSession w
    let _ ← effect (w.fire .agentLoopEnd
      (.object [("error", .string message), ("reason", .string "circuit_break")]))
    throw (.internal message)
  | .block message => pure (checked.2, .toolResult call.id message true)
  | .warn message => runTool w cfg call (some message) checked.2
  | .allow => runTool w cfg call none checked.2

/-- The calls of a response, in order. -/
def executeCalls (w : World σ) (cfg : Config) :
    List ToolCall → LoopGuard.State → List ContentBlock →
      Run σ (LoopGuard.State × List ContentBlock)
  | [], g, results => pure (g, results)
  | call :: calls, g, results => do
    let r ← executeCall w cfg call g
    executeCalls w cfg calls r.1 (results ++ [r.2])

/-! ### The branches of a round -/

/-- The number of a payload. -/
def jsonNat (n : ℕ) : Json := .number (toString n)

/-- A label is derived for a session that has none. -/
def autoLabel (w : World σ) (userMessage : String) : Run σ Unit := do
  let t ← get
  if t.session.label = none then
    match LoopText.deriveSessionLabel w.isAlphanumeric userMessage with
    | none => pure ()
    | some label =>
      if LoopText.isSessionLabel w.isAlphanumeric label then
        if ← effect (w.setSessionLabel t.session.id label) then
          modify fun t => { t with session := { t.session with label := some label } }
        else pure ()
      else pure ()
  else pure ()

/-- The agent chose not to reply. -/
def saysNothing (parsed : String × LoopText.DirectiveSet) : Bool :=
  Text.trim parsed.1 = "NO_REPLY" || parsed.2.silent

/-- The very first answer is empty: the loop asks once more. -/
def asksAgain (iteration : ℕ) (text : String) (response : CompletionResponse) : Bool :=
  Text.isBlank text && iteration = 0 && response.toolCalls.isEmpty

/-- The messages after an empty first answer. -/
def retryMessages : List Message :=
  [.assistant "[no response]", .user "Please provide your response."]

/-- `EndTurn` and `StopSequence`. -/
def endTurn (w : World σ) (userMessage : String) (iteration : ℕ) (st : LoopState)
    (response : CompletionResponse) : Run σ Flow := do
  let parsed := LoopText.parseDirectives response.text
  let text := parsed.1
  if saysNothing parsed then
    push (.assistant "[no reply needed]")
    match ← saveSession w with
    | .error e => throw (.memory e)
    | .ok () =>
      pure (.done
        { response := "", totalUsage := st.totalUsage, iterations := iteration + 1, silent := true
          directives := ⟨parsed.2.replyTo, parsed.2.currentThread, true⟩ })
  else if asksAgain iteration text response then
    pure (.next { st with messages := st.messages ++ retryMessages })
  else
    let answer := AgentLoop.finalAnswer iteration text
    push (.assistant answer)
    modify fun t =>
      { t with
        session :=
          { t.session with
            messages := AgentLoop.pruneHeartbeatTurns t.session.messages AgentLoop.keepRecent } }
    match ← saveSession w with
    | .error e => throw (.memory e)
    | .ok () =>
      autoLabel w userMessage
      notice (w.remember ("User asked: " ++ userMessage ++ "\nI responded: " ++ answer))
      let _ ← effect (w.fire .agentLoopEnd
        (.object [("iterations", jsonNat (iteration + 1)),
          ("response_length", jsonNat answer.utf8ByteSize)]))
      pure (.done
        { response := answer, totalUsage := st.totalUsage, iterations := iteration + 1
          silent := false
          directives := ⟨parsed.2.replyTo, parsed.2.currentThread, parsed.2.silent⟩ })

/-- `ToolUse`. -/
def toolUse (w : World σ) (cfg : Config) (st : LoopState) (response : CompletionResponse) :
    Run σ Flow := do
  push ⟨.assistant, .blocks response.content⟩
  let r ← executeCalls w cfg response.toolCalls st.loopGuard []
  push ⟨.user, .blocks r.2⟩
  let _ ← saveSession w
  pure (.next
    { st with
      consecutiveMaxTokens := 0
      loopGuard := r.1
      messages :=
        st.messages ++ [⟨.assistant, .blocks response.content⟩, ⟨.user, .blocks r.2⟩] })

/-- `MaxTokens`. -/
def maxTokens (w : World σ) (iteration : ℕ) (st : LoopState) (response : CompletionResponse) :
    Run σ Flow := do
  let consecutive := st.consecutiveMaxTokens + 1
  if AgentLoop.maxContinuations ≤ consecutive then
    let text := AgentLoop.partialAnswer response.text
    push (.assistant text)
    let _ ← saveSession w
    let _ ← effect (w.fire .agentLoopEnd
      (.object [("iterations", jsonNat (iteration + 1)), ("reason", .string "max_continuations")]))
    pure (.done
      { response := text, totalUsage := st.totalUsage, iterations := iteration + 1, silent := false
        directives := {} })
  else
    push (.assistant response.text)
    pure (.next
      { st with
        consecutiveMaxTokens := consecutive
        messages := st.messages ++ [.assistant response.text, .user "Please continue."] })

/-- `match response.stop_reason`. -/
def branch (w : World σ) (cfg : Config) (userMessage : String) (iteration : ℕ) (st : LoopState)
    (response : CompletionResponse) : Run σ Flow :=
  match response.stopReason with
  | .endTurn | .stopSequence => endTurn w userMessage iteration st response
  | .toolUse => toolUse w cfg st response
  | .maxTokens => maxTokens w iteration st response

/-! ### The loop -/

/-- One round of the loop. -/
def round (w : World σ) (cfg : Config) (systemPrompt userMessage : String) (iteration : ℕ)
    (st : LoopState) : Run σ Flow := do
  enter st
  let messages := cfg.prepare systemPrompt st.messages
  let response ← callWithRetry w cfg.provider (cfg.request systemPrompt messages)
  let st := { st with messages := messages, totalUsage := st.totalUsage.add response.usage }
  let response ← promote w cfg response
  receive iteration st response
  branch w cfg userMessage iteration st response

/-- The rounds of the loop: so many are still to come. -/
def iterate (w : World σ) (cfg : Config) (systemPrompt userMessage : String) :
    ℕ → ℕ → LoopState → Run σ AgentLoopResult
  | 0, _, _ => do
    let _ ← saveSession w
    let _ ← effect (w.fire .agentLoopEnd
      (.object [("iterations", jsonNat cfg.maxIterations),
        ("reason", .string "max_iterations_exceeded")]))
    throw (.maxIterationsExceeded cfg.maxIterations)
  | fuel + 1, iteration, st => do
    match ← round w cfg systemPrompt userMessage iteration st with
    | .done result => pure result
    | .next st => iterate w cfg systemPrompt userMessage fuel (iteration + 1) st

/-- `run_agent_loop`. -/
def runAgentLoop (w : World σ) (cfg : Config) (userMessage : String) : Run σ AgentLoopResult := do
  let memories ← effect (w.recallMemories userMessage)
  let _ ← effect (w.fire .beforePromptBuild
    (.object [("system_prompt", .string cfg.systemPrompt), ("user_message", .string userMessage)]))
  let now ← effect w.now
  let systemPrompt := cfg.prompt now memories
  push (.user userMessage)
  let t ← get
  iterate w cfg systemPrompt userMessage cfg.maxIterations 0
    { messages := startMessages t.session.messages
      loopGuard := { config := cfg.loopGuardConfig } }

/-- The result of a run on a session, and the trace it leaves. -/
def runOn (x : Run σ α) (world : σ) (session : Session) :
    Except RustyHandError α × Trace σ :=
  run x { world := world, session := session }

end LoopRun
end RustyHand
