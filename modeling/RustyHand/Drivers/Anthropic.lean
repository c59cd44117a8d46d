import RustyHand.Drivers.Http

/-!
# The Anthropic driver

`complete` and `stream` of `rusty-hand-runtime/src/drivers/anthropic.rs`, from the replies of the
servers on.  Reading a reply with `serde_json` is a parameter; what the driver sends is left out,
since a retry sends the same.

* `convertResponse`, `completeReply`: the whole reply at once;
* `StreamState.step`, `streamReply`: the reply in events;
* `driver`: the driver.
-/

namespace RustyHand
namespace Anthropic

open LlmDriver Drivers
open SendMessage (TokenUsage)

/-! ### Replies -/

/-- `ResponseContentBlock`. -/
inductive ResponseContentBlock
  | text (text : String)
  | toolUse (id name : String) (input : Json)
  | thinking (thinking : String)

/-- `ApiUsage`. -/
structure ApiUsage where
  inputTokens : ℕ
  outputTokens : ℕ

/-- `ApiResponse`. -/
structure ApiResponse where
  content : List ResponseContentBlock
  stopReason : Option String
  usage : ApiUsage

/-- `serde_json::from_str`, for a value, for a response and for the message of an error. -/
structure Serde where
  parse : String → Except String Json
  apiResponse : String → Except String ApiResponse
  apiErrorMessage : String → Option String

/-- `StopReason`, by its name. -/
def stopReasonOf (stopReason : String) : StopReason :=
  if stopReason = "tool_use" then .toolUse
  else if stopReason = "max_tokens" then .maxTokens
  else if stopReason = "stop_sequence" then .stopSequence
  else .endTurn

/-- The error of a refused request. -/
def refused (serde : Serde) (status : ℕ) (body : String) : LlmError :=
  .api status ((serde.apiErrorMessage body).getD body)

/-- What a reply without success comes to. -/
def notSuccess (serde : Serde) (status : ℕ) (body : Body) (retriesLeft : ℕ) : Outcome :=
  if status = 429 ∨ status = 529 then
    if 0 < retriesLeft then .again
    else .fail (if status = 429 then .rateLimited 5000 else .overloaded 5000)
  else .fail (refused serde status (readOrExplain body))

/-! ### `complete` -/

/-- A block of the reply. -/
def convertBlock : ResponseContentBlock → ContentBlock
  | .text text => .text text
  | .toolUse id name input => .toolUse id name input
  | .thinking thinking => .thinking thinking

/-- The call of a block of the reply. -/
def responseCall? : ResponseContentBlock → Option ToolCall
  | .toolUse id name input => some ⟨id, name, input⟩
  | _ => none

/-- `convert_response`. -/
def convertResponse (api : ApiResponse) : CompletionResponse where
  content := api.content.map convertBlock
  stopReason := stopReasonOf (api.stopReason.getD "end_turn")
  toolCalls := api.content.filterMap responseCall?
  usage := ⟨api.usage.inputTokens, api.usage.outputTokens⟩

/-- One attempt of `complete`. -/
def completeReply (serde : Serde) (retriesLeft : ℕ) : Reply → Outcome
  | .failed message => .fail (.http message)
  | .replied status body =>
    if isSuccess status then
      match readText body with
      | .error e => .fail (.http e)
      | .ok text =>
        match serde.apiResponse text with
        | .error e => .fail (.parse e)
        | .ok api => .done (convertResponse api)
    else notSuccess serde status body retriesLeft

/-! ### `stream` -/

/-- `ContentBlockAccum`. -/
inductive ContentBlockAccum
  | text (text : String)
  | thinking (thinking : String)
  | toolUse (id name inputJson : String)

/-- What has been read of a stream, and what has been sent on. -/
structure StreamState where
  blocks : List ContentBlockAccum := []
  stopReason : StopReason := .endTurn
  usage : TokenUsage := ⟨0, 0⟩
  events : List StreamEvent := []

/-- `from_str(input_json)`, with the empty object for what is no JSON. -/
def parseInput (serde : Serde) (inputJson : String) : Json :=
  match serde.parse inputJson with
  | .ok input => input
  | .error _ => .object []

/-- Change the last block. -/
def modifyLast (f : ContentBlockAccum → ContentBlockAccum) (blocks : List ContentBlockAccum) :
    List ContentBlockAccum :=
  match blocks.getLast? with
  | some block => blocks.dropLast ++ [f block]
  | none => blocks

/-- `push_str` on a block of text. -/
def ContentBlockAccum.pushText (s : String) : ContentBlockAccum → ContentBlockAccum
  | .text t => .text (t ++ s)
  | block => block

/-- `push_str` on a thought. -/
def ContentBlockAccum.pushThinking (s : String) : ContentBlockAccum → ContentBlockAccum
  | .thinking t => .thinking (t ++ s)
  | block => block

/-- `push_str` on the input of a use. -/
def ContentBlockAccum.pushInput (s : String) : ContentBlockAccum → ContentBlockAccum
  | .toolUse id name inputJson => .toolUse id name (inputJson ++ s)
  | block => block

/-- `content_block_start`. -/
def StreamState.blockStart (st : StreamState) (json : Json) : StreamState :=
  let block := json.index "content_block"
  match (block.index "type").asStr.getD "" with
  | "text" => { st with blocks := st.blocks ++ [.text ""] }
  | "tool_use" =>
    let id := (block.index "id").asStr.getD ""
    let name := (block.index "name").asStr.getD ""
    { st with
      blocks := st.blocks ++ [.toolUse id name ""]
      events := st.events ++ [.toolUseStart id name] }
  | "thinking" => { st with blocks := st.blocks ++ [.thinking ""] }
  | _ => st

/-- `content_block_delta`: the delta is sent on, whatever the last block is. -/
def StreamState.blockDelta (st : StreamState) (json : Json) : StreamState :=
  let delta := json.index "delta"
  match (delta.index "type").asStr.getD "" with
  | "text_delta" =>
    match (delta.index "text").asStr with
    | some text =>
      { st with
        blocks := modifyLast (ContentBlockAccum.pushText text) st.blocks
        events := st.events ++ [.textDelta text] }
    | none => st
  | "input_json_delta" =>
    match (delta.index "partial_json").asStr with
    | some partialJson =>
      { st with
        blocks := modifyLast (ContentBlockAccum.pushInput partialJson) st.blocks
        events := st.events ++ [.toolInputDelta partialJson] }
    | none => st
  | "thinking_delta" =>
    match (delta.index "thinking").asStr with
    | some thinking =>
      { st with
        blocks := modifyLast (ContentBlockAccum.pushThinking thinking) st.blocks
        events := st.events ++ [.thinkingDelta thinking] }
    | none => st
  | _ => st

/-- `content_block_stop`. -/
def StreamState.blockStop (serde : Serde) (st : StreamState) : StreamState :=
  match st.blocks.getLast? with
  | some (.toolUse id name inputJson) =>
    { st with events := st.events ++ [.toolUseEnd id name (parseInput serde inputJson)] }
  | _ => st

/-- `message_delta`. -/
def StreamState.messageDelta (st : StreamState) (json : Json) : StreamState :=
  { st with
    stopReason :=
      match ((json.index "delta").index "stop_reason").asStr with
      | some reason => stopReasonOf reason
      | none => st.stopReason
    usage :=
      { st.usage with
        outputTokens :=
          ((json.index "usage").index "output_tokens").asU64.getD st.usage.outputTokens } }

/-- `message_start`. -/
def StreamState.messageStart (st : StreamState) (json : Json) : StreamState :=
  { st with
    usage :=
      { st.usage with
        inputTokens :=
          (((json.index "message").index "usage").index "input_tokens").asU64.getD
            st.usage.inputTokens } }

/-- The error that a provider sends in the middle of a stream. -/
def streamError (json : Json) : LlmError :=
  let type := (((json.index "error").index "type").asStr).getD "unknown_error"
  let message := (((json.index "error").index "message").asStr).getD "(no message)"
  let combined := type ++ ": " ++ message
  match type with
  | "overloaded_error" => .overloaded 5000
  | "rate_limit_error" => .rateLimited 5000
  | "authentication_error" => .api 401 combined
  | "permission_error" => .api 403 combined
  | "not_found_error" => .api 404 combined
  | "request_too_large" => .api 413 combined
  | "invalid_request_error" => .api 400 combined
  | _ => .api 502 combined

/-- An event of the stream, with its type. -/
structure SseEvent where
  type : String
  json : Json

/-- One event of the stream, unless it is an error. -/
def StreamState.step (serde : Serde) (st : StreamState) (event : SseEvent) :
    Except LlmError StreamState :=
  match event.type with
  | "message_start" => .ok (st.messageStart event.json)
  | "content_block_start" => .ok (st.blockStart event.json)
  | "content_block_delta" => .ok (st.blockDelta event.json)
  | "content_block_stop" => .ok (st.blockStop serde)
  | "message_delta" => .ok (st.messageDelta event.json)
  | "error" => .error (streamError event.json)
  | _ => .ok st

/-- The fields of an event, from its lines: the last of each counts. -/
def readFields (event : List Char) : List Char × List Char :=
  (lines event).foldl
    (fun fields line =>
      match fieldValue "event:" line with
      | some type => (type, fields.2)
      | none =>
        match fieldValue "data:" line with
        | some data => (fields.1, data)
        | none => fields)
    ([], [])

/-- An event, unless it has no data that can be read. -/
def readEvent (parse : String → Except String Json) (event : List Char) :
    Option SseEvent :=
  let fields := readFields event
  if fields.2 = [] then none
  else
    (parse (String.ofList fields.2)).toOption.map fun json =>
      ⟨String.ofList fields.1, json⟩

/-- The body of the stream, up to an error. -/
def StreamState.read (serde : Serde) (body : Body) : StreamState × Option LlmError :=
  Drivers.read takeParagraphs (readEvent serde.parse) (StreamState.step serde) {} [] body

/-- A block of the response. -/
def ContentBlockAccum.block (serde : Serde) : ContentBlockAccum → ContentBlock
  | .text s => .text s
  | .thinking s => .thinking s
  | .toolUse id name inputJson => .toolUse id name (parseInput serde inputJson)

/-- The call of a block of the response. -/
def ContentBlockAccum.call? (serde : Serde) : ContentBlockAccum → Option ToolCall
  | .toolUse id name inputJson => some ⟨id, name, parseInput serde inputJson⟩
  | _ => none

/-- The response of a stream. -/
def StreamState.response (serde : Serde) (st : StreamState) : CompletionResponse where
  content := st.blocks.map (ContentBlockAccum.block serde)
  stopReason := st.stopReason
  toolCalls := st.blocks.filterMap (ContentBlockAccum.call? serde)
  usage := st.usage

/-- Nothing has come. -/
def StreamState.isEmpty (st : StreamState) : Bool :=
  st.blocks.isEmpty && st.usage.inputTokens = 0 && st.usage.outputTokens = 0

/-- The body of a success, and what is sent of it. -/
def readStream (serde : Serde) (retriesLeft : ℕ) (body : Body) : Outcome × List StreamEvent :=
  let r := StreamState.read serde body
  match r.2 with
  | some e => (.fail e, r.1.events)
  | none =>
    if r.1.isEmpty then
      (if 0 < retriesLeft then .again else .fail (.overloaded 5000), r.1.events)
    else
      (.done (r.1.response serde), r.1.events ++ [.contentComplete r.1.stopReason r.1.usage])

/-- One attempt of `stream`, and what is sent in it. -/
def streamReply (serde : Serde) (retriesLeft : ℕ) : Reply → Outcome × List StreamEvent
  | .failed message => (.fail (.http message), [])
  | .replied status body =>
    if isSuccess status then readStream serde retriesLeft body
    else (notSuccess serde status body retriesLeft, [])

/-! ### The driver -/

/-- One attempt; `streaming` tells `stream` from `complete`. -/
def attempt (serde : Serde) (streaming : Bool) (retriesLeft : ℕ) (_ : Unit) (reply : Reply) :
    (Outcome × Unit) × List StreamEvent :=
  if streaming then
    let r := streamReply serde retriesLeft reply
    ((r.1, ()), r.2)
  else ((completeReply serde retriesLeft reply, ()), [])

/-- A call, from `api_request` on. -/
def call {σ : Type} (post : LlmDriver.CompletionRequest → Bool → σ → Reply × σ) (serde : Serde)
    (streaming : Bool) (request : LlmDriver.CompletionRequest) (servers : σ) : Call σ :=
  retry (.anthropic serde.parse) (fun _ => post request streaming) (attempt serde streaming)
    maxRetries () servers

/-- `AnthropicDriver`; `post` sends a request. -/
def driver {σ : Type} (post : LlmDriver.CompletionRequest → Bool → σ → Reply × σ)
    (serde : Serde) : Driver σ where
  complete := call post serde false
  stream := call post serde true

end Anthropic
end RustyHand
