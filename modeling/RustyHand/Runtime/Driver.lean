import RustyHand.Types.Message
import RustyHand.Types.Text
import RustyHand.Types.ToolSchema

/-!
# The interface of the drivers

`rusty-hand-runtime/src/llm_driver.rs`: requests, responses, errors and the events of a streamed
call.

* `CompletionResponse.text`, `CompletionResponse.toolUses`: what a response says and calls;
* `deltaText`: what the text events of a stream come to.
-/

namespace RustyHand
namespace LlmDriver

open SendMessage (TokenUsage)

/-- `StopReason`. -/
inductive StopReason
  | endTurn
  | toolUse
  | maxTokens
  | stopSequence
  deriving DecidableEq

/-- `ToolCall`. -/
structure ToolCall where
  id : String
  name : String
  input : Json
  deriving DecidableEq

/-- `ThinkingConfig`. -/
structure ThinkingConfig where
  budgetTokens : ℕ := 10000
  streamThinking : Bool := false

/-- `ResponseFormat`. -/
inductive ResponseFormat
  | text
  | json
  deriving DecidableEq

/-- `CompletionRequest`.  The temperature is kept by its bits. -/
structure CompletionRequest where
  model : String
  messages : List Message
  tools : List ToolDefinition
  maxTokens : ℕ
  temperature : UInt32
  system : Option String
  thinking : Option ThinkingConfig
  responseFormat : ResponseFormat

/-- `CompletionResponse`. -/
structure CompletionResponse where
  content : List ContentBlock
  stopReason : StopReason
  toolCalls : List ToolCall
  usage : TokenUsage
  deriving DecidableEq

/-- The text of a `Text` block. -/
def blockText? : ContentBlock → Option String
  | .text t => some t
  | _ => none

/-- The call of a `ToolUse` block. -/
def blockCall? : ContentBlock → Option ToolCall
  | .toolUse id name input => some ⟨id, name, input⟩
  | _ => none

/-- The block of a call. -/
def ToolCall.block (call : ToolCall) : ContentBlock := .toolUse call.id call.name call.input

theorem filterMap_blockCall?_block (calls : List ToolCall) :
    (calls.map ToolCall.block).filterMap blockCall? = calls := by
  rw [List.filterMap_map]
  exact List.filterMap_some

/-- `text`. -/
def CompletionResponse.text (r : CompletionResponse) : String :=
  String.join (r.content.filterMap blockText?)

/-- The calls of the `ToolUse` blocks. -/
def CompletionResponse.toolUses (r : CompletionResponse) : List ToolCall :=
  r.content.filterMap blockCall?

/-- `LlmError`. -/
inductive LlmError
  | http (message : String)
  | api (status : ℕ) (message : String)
  | rateLimited (retryAfterMs : ℕ)
  | parse (message : String)
  | missingApiKey (message : String)
  | overloaded (retryAfterMs : ℕ)

/-- `to_string`. -/
def LlmError.display : LlmError → String
  | http message => "HTTP error: " ++ message
  | api status message => "API error (" ++ toString status ++ "): " ++ message
  | rateLimited ms => "Rate limited, retry after " ++ toString ms ++ "ms"
  | parse message => "Parse error: " ++ message
  | missingApiKey message => "Missing API key: " ++ message
  | overloaded ms => "Model overloaded, retry after " ++ toString ms ++ "ms"

/-- `StreamEvent`. -/
inductive StreamEvent
  | textDelta (text : String)
  | toolUseStart (id name : String)
  | toolInputDelta (text : String)
  | toolUseEnd (id name : String) (input : Json)
  | thinkingDelta (text : String)
  | contentComplete (stopReason : StopReason) (usage : TokenUsage)
  | phaseChange (phase : String) (detail : Option String)
  | toolExecutionProgress (name : String) (elapsedSecs : ℕ)
  | toolExecutionResult (name resultPreview : String) (isError : Bool)
  | sessionLabeled (sessionId : ℕ) (label : String)

/-- The text of a `TextDelta`. -/
def StreamEvent.delta? : StreamEvent → Option String
  | textDelta t => some t
  | _ => none

/-- The text of the `TextDelta` events, one after the other. -/
def deltaText (events : List StreamEvent) : String :=
  String.join (events.filterMap StreamEvent.delta?)

theorem deltaText_append (events events' : List StreamEvent) :
    deltaText (events ++ events') = deltaText events ++ deltaText events' := by
  rw [deltaText, List.filterMap_append, String.join_append]
  rfl

theorem deltaText_textDelta (text : String) : deltaText [.textDelta text] = text := by
  simp [deltaText, StreamEvent.delta?]

end LlmDriver
end RustyHand
