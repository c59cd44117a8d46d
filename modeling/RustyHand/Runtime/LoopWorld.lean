import RustyHand.Lib.Effects
import RustyHand.Memory.Store
import RustyHand.Runtime.LlmErrors
import RustyHand.Runtime.LoopGuard
import RustyHand.Runtime.LoopText
import RustyHand.Session.AgentLoop
import RustyHand.Session.Overflow
import RustyHand.Session.Repair

/-!
# The agent loop and its world

What a run of the agent loop (`rusty-hand-runtime/src/agent_loop.rs`) works on: the world that
answers it, and the trace that it leaves.  Phases for the user interface and log texts are left out,
and so are delays, which only wait.

* `World`: driver, cooldown, tools, hooks and memory, over a state `σ` of their own;
* `Trace`: the session, and what was requested, saved and streamed;
* `callWithRetry`, `streamWithRetry`: a call to the driver;
* `World.scripted`: a world that answers from a script.
-/

namespace RustyHand
namespace LoopRun

open Effects LlmDriver LlmErrors

/-- `RustyHandError`, as far as the loop returns it. -/
inductive RustyHandError
  | memory (message : String)
  | llmDriver (message : String)
  | internal (message : String)
  | maxIterationsExceeded (max : ℕ)
  deriving DecidableEq

/-- `CooldownVerdict`. -/
inductive CooldownVerdict
  | allow
  | allowProbe
  | reject (reason : String) (retryAfterSecs : ℕ)

/-- `HookEvent`. -/
inductive HookEvent
  | beforeToolCall
  | afterToolCall
  | beforePromptBuild
  | agentLoopEnd
  deriving DecidableEq

/-- What answers a run.  A function with the state returns what it leaves behind; the others are
taken from other crates.

`answer` is what the driver answers to a request, asked by `complete` or by `stream`, and `sent`
what it has streamed by then.  `executeTool` returns nothing when the tool runs out of its time, and
`progress` lists the seconds at which a heartbeat is sent meanwhile.  Without hooks `fire` returns
`ok`. -/
structure World (σ : Type) where
  toLowercase : String → String
  isAlphanumeric : Char → Bool
  sha256 : List UInt8 → String
  parseJson : String → Option Json
  now : σ → LoopText.Clock × σ
  recallMemories : String → σ → List String × σ
  remember : String → σ → σ
  fire : HookEvent → Json → σ → Except String Unit × σ
  cooldown : String → σ → CooldownVerdict × σ
  recordSuccess : String → σ → σ
  recordFailure : String → Bool → σ → σ
  answer : LlmDriver.CompletionRequest → σ → Except LlmError CompletionResponse × σ
  sent : LlmDriver.CompletionRequest → σ → List StreamEvent
  newIds : σ → (ℕ → String) × σ
  executeTool : ToolCall → σ → Option (String × Bool) × σ
  progress : ToolCall → σ → List ℕ
  saveSession : Session → σ → Except String Unit × σ
  setSessionLabel : SessionId → String → σ → Bool × σ

/-- What the loop keeps from one round to the next. -/
structure LoopState where
  messages : List Message
  loopGuard : LoopGuard.State
  consecutiveMaxTokens : ℕ := 0
  totalUsage : SendMessage.TokenUsage := ⟨0, 0⟩

/-- A response, as the loop goes on with it, with the round, the state and the session that it
found. -/
structure Received where
  iteration : ℕ
  state : LoopState
  session : List Message
  response : CompletionResponse

/-- A run so far: the world, the session, the requests to the driver, the sessions passed to
`save_session`, the events sent to the stream, the states in which rounds began, and the responses.
-/
structure Trace (σ : Type) where
  world : σ
  session : Session
  requests : List LlmDriver.CompletionRequest := []
  saves : List (List Message) := []
  events : List StreamEvent := []
  entered : List LoopState := []
  received : List Received := []

/-- A computation of the loop. -/
abbrev Run (σ α : Type) : Type := Eff (Trace σ) RustyHandError α

variable {σ α : Type}

/-- What the world does. -/
def effect (f : σ → α × σ) : Run σ α :=
  modifyGet fun t => ((f t.world).1, { t with world := (f t.world).2 })

/-- What the world only takes notice of. -/
def notice (f : σ → σ) : Run σ Unit := modify fun t => { t with world := f t.world }

/-- `stream_tx.send`.  A consumer that is gone changes nothing. -/
def emit (events : List StreamEvent) : Run σ Unit :=
  modify fun t => { t with events := t.events ++ events }

/-- `session.messages.push`. -/
def push (m : Message) : Run σ Unit :=
  modify fun t => { t with session := { t.session with messages := t.session.messages ++ [m] } }

/-- `memory.save_session(session)`. -/
def saveSession (w : World σ) : Run σ (Except String Unit) :=
  modifyGet fun t =>
    let r := w.saveSession t.session t.world
    (r.1, { t with world := r.2, saves := t.saves ++ [t.session.messages] })

/-- A round begins. -/
def enter (st : LoopState) : Run σ Unit := modify fun t => { t with entered := t.entered ++ [st] }

/-- A response is there. -/
def receive (iteration : ℕ) (st : LoopState) (response : CompletionResponse) : Run σ Unit :=
  modify fun t =>
    { t with received := t.received ++ [⟨iteration, st, t.session.messages, response⟩] }

/-- `driver.complete`. -/
def complete (w : World σ) (request : LlmDriver.CompletionRequest) :
    Run σ (Except LlmError CompletionResponse) :=
  modifyGet fun t =>
    let r := w.answer request t.world
    (r.1, { t with world := r.2, requests := t.requests ++ [request] })

/-- `driver.stream`. -/
def stream (w : World σ) (request : LlmDriver.CompletionRequest) :
    Run σ (Except LlmError CompletionResponse) :=
  modifyGet fun t =>
    let r := w.answer request t.world
    (r.1,
      { t with
        world := r.2, requests := t.requests ++ [request]
        events := t.events ++ w.sent request t.world })

/-! ### `call_with_retry` -/

/-- `MAX_RETRIES`. -/
def maxRetries : ℕ := 3

/-- The text of a rejected call. -/
def cooldownMessage (provider reason : String) (retryAfterSecs : ℕ) : String :=
  "Provider '" ++ provider ++ "' is in cooldown (" ++ reason ++ "). Retry in " ++
    toString retryAfterSecs ++ "s."

/-- The failure is recorded, and returned. -/
def giveUp (w : World σ) (provider : String) (isBilling : Bool) (message : String) : Run σ α := do
  notice (w.recordFailure provider isBilling)
  throw (.llmDriver message)

/-- What `call_with_retry` makes of one attempt; `again` are the attempts still to come. -/
def afterComplete (w : World σ) (provider : String) (again : Option (Run σ CompletionResponse)) :
    Except LlmError CompletionResponse → Run σ CompletionResponse
  | .ok response => do
    notice (w.recordSuccess provider)
    pure response
  | .error (.rateLimited _) =>
    again.getD (giveUp w provider false ("Rate limited after " ++ toString maxRetries ++
        " retries"))
  | .error (.overloaded _) => again.getD (giveUp w provider false (sanitizeForUser .overloaded))
  | .error e =>
    let classified := classifyError w.toLowercase e.display
    (if classified.isRetryable then again else none).getD
      (giveUp w provider classified.isBilling
        (if classified.category = .format then
          classified.sanitizedMessage ++ " — raw: " ++ e.display
        else classified.sanitizedMessage))

/-- The attempts of `call_with_retry`, with so many retries left. -/
def completeAttempts (w : World σ) (provider : String) (request : LlmDriver.CompletionRequest) :
    ℕ → Run σ CompletionResponse
  | 0 => do
    let result ← complete w request
    afterComplete w provider none result
  | retries + 1 => do
    let result ← complete w request
    afterComplete w provider (some (completeAttempts w provider request retries)) result

/-- `call_with_retry`, with the shared cooldown and without a cache. -/
def callWithRetry (w : World σ) (provider : String) (request : LlmDriver.CompletionRequest) :
    Run σ CompletionResponse := do
  match ← effect (w.cooldown provider) with
  | .reject reason retryAfterSecs =>
    throw (.llmDriver (cooldownMessage provider reason retryAfterSecs))
  | .allow | .allowProbe => completeAttempts w provider request maxRetries

/-! ### `stream_with_retry` -/

/-- What `stream_with_retry` makes of one attempt; `again` are the attempts still to come. -/
def afterStream (w : World σ) (provider : String) (again : Option (Run σ CompletionResponse)) :
    Except LlmError CompletionResponse → Run σ CompletionResponse
  | .ok response => do
    notice (w.recordSuccess provider)
    pure response
  | .error (.rateLimited _) =>
    again.getD (giveUp w provider false ("Rate limited after " ++ toString maxRetries ++
        " retries"))
  | .error (.overloaded _) => again.getD (giveUp w provider false (sanitizeForUser .overloaded))
  | .error e =>
    let classified := classifyError w.toLowercase e.display
    (if classified.isRetryable then again else none).getD
      (giveUp w provider classified.isBilling
        (if classified.category = .format then
          classified.sanitizedMessage ++ " — raw: " ++ e.display
        else classified.sanitizedMessage))

/-- The attempts of `stream_with_retry`, with so many retries left. -/
def streamAttempts (w : World σ) (provider : String) (request : LlmDriver.CompletionRequest) :
    ℕ → Run σ CompletionResponse
  | 0 => do
    let result ← stream w request
    afterStream w provider none result
  | retries + 1 => do
    let result ← stream w request
    afterStream w provider (some (streamAttempts w provider request retries)) result

/-- `stream_with_retry`, with the shared cooldown. -/
def streamWithRetry (w : World σ) (provider : String) (request : LlmDriver.CompletionRequest) :
    Run σ CompletionResponse := do
  match ← effect (w.cooldown provider) with
  | .reject reason retryAfterSecs =>
    throw (.llmDriver (cooldownMessage provider reason retryAfterSecs))
  | .allow | .allowProbe => streamAttempts w provider request maxRetries

/-! ### A scripted driver -/

/-- A world in which the driver answers from a script, every tool returns `"ok"`, and nothing else
happens. -/
def World.scripted (answers : ℕ → Except LlmError CompletionResponse) : World ℕ where
  toLowercase s := s
  isAlphanumeric := Char.isAlphanum
  sha256 _ := ""
  parseJson _ := none
  now s := (⟨"", "", "", "", ""⟩, s)
  recallMemories _ s := ([], s)
  remember _ s := s
  fire _ _ s := (.ok (), s)
  cooldown _ s := (.allow, s)
  recordSuccess _ s := s
  recordFailure _ _ s := s
  answer _ n := (answers n, n + 1)
  sent _ _ := []
  newIds s := (fun _ => "", s)
  executeTool _ s := (some ("ok", false), s)
  progress _ _ := []
  saveSession _ s := (.ok (), s)
  setSessionLabel _ _ s := (true, s)

end LoopRun
end RustyHand
