import RustyHand.Drivers.Http
import RustyHand.Drivers.OpenAIRequest

/-!
# The OpenAI driver

`complete` and `stream` of `rusty-hand-runtime/src/drivers/openai.rs`, from the replies of the
servers on.  Reading a reply with `serde_json` is a parameter.  The request is kept as far as a
retry changes it.

* `extractThinkTags`, `routeText`: the `<think>` sections of a text, and of a fragment of one;
* `parseGroqFailedToolCall`: a response recovered from a `tool_use_failed` body;
* `convertChoice`, `completeReply`: the whole reply at once;
* `StreamState.step`, `streamReply`: the reply in events;
* `driver`: the driver.
-/

namespace RustyHand
namespace OpenAI

open LlmDriver Drivers
open SendMessage (TokenUsage)

/-! ### Replies -/

/-- `OaiUsage`. -/
structure OaiUsage where
  promptTokens : ℕ
  completionTokens : ℕ

/-- `OaiResponseMessage`. -/
structure OaiResponseMessage where
  content : Option String
  reasoningContent : Option String
  toolCalls : Option (List OaiToolCall)

/-- `OaiChoice`. -/
structure OaiChoice where
  message : OaiResponseMessage
  finishReason : Option String

/-- `OaiResponse`. -/
structure OaiResponse where
  choices : List OaiChoice
  usage : Option OaiUsage

/-- `serde_json::from_str`, for a value and for a response. -/
structure Serde where
  parse : String → Except String Json
  oaiResponse : String → Except String OaiResponse

/-! ### `<think>` sections -/

/-- `<think>`. -/
def openTag : List Char := "<think>".toList

/-- `</think>`. -/
def closeTag : List Char := "</think>".toList

/-- `extract_think_tags`: the visible text and the thoughts, with so many sections at most. -/
def extractThink : ℕ → List Char → List Char × List Char
  | 0, remaining => (remaining, [])
  | sections + 1, remaining =>
    match Text.splitOnce openTag remaining with
    | none => (remaining, [])
    | some (visible, rest) =>
      match Text.splitOnce closeTag rest with
      | none => (visible, rest)
      | some (thought, rest) =>
        let r := extractThink sections rest
        (visible ++ r.1, thought ++ r.2)

/-- `extract_think_tags`. -/
def extractThinkTags (text : List Char) : List Char × List Char := extractThink text.length text

/-- A piece of a text, as the tags cut it. -/
inductive Segment
  | visible (s : List Char)
  | hidden (s : List Char)

/-- The loop over a fragment of a text, with the state of `in_thinking` before and after it. -/
def routeLoop : ℕ → Bool → List Char → List Segment × Bool
  | 0, inThinking, _ => ([], inThinking)
  | sections + 1, inThinking, remaining =>
    if remaining = [] then ([], inThinking)
    else if inThinking then
      match Text.splitOnce closeTag remaining with
      | some (chunk, rest) =>
        let r := routeLoop sections false rest
        (.hidden chunk :: r.1, r.2)
      | none => ([.hidden remaining], true)
    else
      match Text.splitOnce openTag remaining with
      | some (before, rest) =>
        let r := routeLoop sections true rest
        (.visible before :: r.1, r.2)
      | none => ([.visible remaining], false)

/-- What the tags make of a fragment. -/
def routeText (inThinking : Bool) (text : List Char) : List Segment × Bool :=
  routeLoop text.length inThinking text

/-- The visible text of some pieces. -/
def visibleText (segments : List Segment) : List Char :=
  segments.flatMap fun
    | .visible s => s
    | .hidden _ => []

/-- The hidden text of some pieces. -/
def hiddenText (segments : List Segment) : List Char :=
  segments.flatMap fun
    | .visible _ => []
    | .hidden s => s

/-- The events for a piece that is not empty. -/
def Segment.events : Segment → List StreamEvent
  | .visible s => if s = [] then [] else [.textDelta (String.ofList s)]
  | .hidden s => if s = [] then [] else [.thinkingDelta (String.ofList s)]

/-! ### What both paths share -/

/-- `from_str(arguments)`, with the empty object for what is no JSON. -/
def parseArguments (parse : String → Except String Json) (arguments : String) : Json :=
  match parse arguments with
  | .ok input => input
  | .error _ => .object []

/-- `stop_reason`. -/
def stopReasonOf (finishReason : Option String) (toolCalls : List ToolCall) : StopReason :=
  match finishReason with
  | some "stop" => .endTurn
  | some "tool_calls" => .toolUse
  | some "length" => .maxTokens
  | _ => if toolCalls.isEmpty then .endTurn else .toolUse

/-- `s.find(pattern)`: what stands before it and what stands behind it. -/
def find (pattern : String) (cs : List Char) : Option (List Char × List Char) :=
  Text.splitOnce pattern.toList cs

/-- `n.parse::<u32>()`. -/
def parseU32 (cs : List Char) : Option ℕ :=
  (Json.decimal ((stripPrefix ['+'] cs).getD cs)).filter (· < 2 ^ 32)

/-- `patterns` of `extract_max_tokens_limit`. -/
def limitPatterns : List String :=
  ["less than or equal to `", "must be <= `", "maximum value for `max_tokens` is `"]

/-- `extract_max_tokens_limit`. -/
def extractMaxTokensLimit (body : String) : Option ℕ :=
  limitPatterns.findSome? fun pattern => do
    let (_, after) ← find pattern body.toList
    let digits :=
      match find "`" after with
      | some (digits, _) => digits
      | none =>
        match find "\"" after with
        | some (digits, _) => digits
        | none => after
    parseU32 (Text.trim (String.ofList digits)).toList

/-- One `<function=…>` of a failed generation. -/
def failedCall (parse : String → Except String Json) (index : ℕ) (callContent : List Char) :
    ToolCall :=
  let callContent :=
    if callContent.getLast? = some '>' then callContent.dropLast else callContent
  let parts :=
    match find "\x7b" callContent with
    | some (name, rest) => (name, '\x7b' :: rest)
    | none => (callContent, "\x7b\x7d".toList)
  { id := "groq_recovered_" ++ toString index
    name := Text.trim (String.ofList parts.1)
    input := parseArguments parse (String.ofList parts.2) }

/-- The loop over the calls of a failed generation: nothing when one of them does not end. -/
def failedCalls (parse : String → Except String Json) :
    ℕ → List Char → List ToolCall → Option (List ToolCall)
  | 0, _, toolCalls => some toolCalls
  | fuel + 1, remaining, toolCalls =>
    match find "<function=" remaining with
    | none => some toolCalls
    | some (_, rest) =>
      match find "</function>" rest with
      | none => none
      | some (callContent, rest) =>
        failedCalls parse fuel rest
          (toolCalls ++ [failedCall parse toolCalls.length callContent])

/-- `json_body.pointer("/error/failed_generation")` as a text. -/
def failedGeneration (parse : String → Except String Json) (body : String) : Option String := do
  let json ← (parse body).toOption
  let error ← json.get "error"
  let failed ← error.get "failed_generation"
  failed.asStr

/-- `parse_groq_failed_tool_call`. -/
def parseGroqFailedToolCall (serde : Serde) (body : String) : Option CompletionResponse := do
  let failed ← failedGeneration serde.parse body
  let toolCalls ← failedCalls serde.parse failed.length failed.toList []
  if toolCalls.isEmpty then
    if Text.isBlank failed then none
    else some ⟨[.text failed], .endTurn, [], ⟨0, 0⟩⟩
  else some ⟨[], .toolUse, toolCalls, ⟨0, 0⟩⟩

/-- A refused request, with the limit on tokens that it had: the response that is recovered from the
refusal, an error, or another attempt with a limit. -/
def refused (serde : Serde) (status : ℕ) (body : String) (retriesLeft maxTokens : ℕ) :
    Outcome × ℕ :=
  let toolUseFailed := status = 400 && Text.containsText body "tool_use_failed"
  match if toolUseFailed then parseGroqFailedToolCall serde body else none with
  | some response => (.done response, maxTokens)
  | none =>
    if toolUseFailed && 0 < retriesLeft then (.again, maxTokens)
    else if status = 400 && Text.containsText body "max_tokens" && 0 < retriesLeft then
      (.again, (extractMaxTokensLimit body).getD (maxTokens / 2))
    else (.fail (.api status body), maxTokens)

/-- What a reply without success comes to. -/
def notSuccess (serde : Serde) (status : ℕ) (body : Body) (retriesLeft maxTokens : ℕ) :
    Outcome × ℕ :=
  if status = 429 then
    if 0 < retriesLeft then (.again, maxTokens) else (.fail (.rateLimited 5000), maxTokens)
  else refused serde status (readOrExplain body) retriesLeft maxTokens

/-! ### `complete` -/

/-- The call and its block. -/
def convertCall (serde : Serde) (call : OaiToolCall) : ToolCall :=
  ⟨call.id, call.function.name, parseArguments serde.parse call.function.arguments⟩

/-- A thought, unless it is empty. -/
def thinkingBlock (s : List Char) : List ContentBlock :=
  if s = [] then [] else [.thinking (String.ofList s)]

/-- The blocks for the text of a whole message. -/
def textBlocks (text : List Char) : List ContentBlock :=
  let r := extractThinkTags text
  thinkingBlock r.2 ++
    if Text.isBlank (String.ofList r.1) then [] else [.text (String.ofList r.1)]

/-- `usage`. -/
def usageOf (usage : Option OaiUsage) : TokenUsage :=
  match usage with
  | some u => ⟨u.promptTokens, u.completionTokens⟩
  | none => ⟨0, 0⟩

/-- The response for a message of the provider. -/
def convertChoice (serde : Serde) (choice : OaiChoice) (usage : Option OaiUsage) :
    CompletionResponse :=
  let toolCalls := (choice.message.toolCalls.getD []).map (convertCall serde)
  { content :=
      thinkingBlock (choice.message.reasoningContent.getD "").toList ++
        textBlocks (choice.message.content.getD "").toList ++ toolCalls.map ToolCall.block
    stopReason := stopReasonOf choice.finishReason toolCalls
    toolCalls := toolCalls
    usage := usageOf usage }

/-- What the body of a success comes to. -/
def convertBody (serde : Serde) (body : Body) : Except LlmError CompletionResponse :=
  match readText body with
  | .error e => .error (.http e)
  | .ok text =>
    match serde.oaiResponse text with
    | .error e => .error (.parse e)
    | .ok response =>
      match response.choices with
      | [] => .error (.parse "No choices in response")
      | choice :: _ => .ok (convertChoice serde choice response.usage)

/-- One attempt of `complete`. -/
def completeReply (serde : Serde) (retriesLeft maxTokens : ℕ) : Reply → Outcome × ℕ
  | .failed message => (.fail (.http message), maxTokens)
  | .replied status body =>
    if isSuccess status then
      match convertBody serde body with
      | .ok response => (.done response, maxTokens)
      | .error e => (.fail e, maxTokens)
    else notSuccess serde status body retriesLeft maxTokens

/-! ### `stream` -/

/-- What has been read of a stream, and what has been sent on. -/
structure StreamState where
  text : List Char := []
  thinking : List Char := []
  inThinking : Bool := false
  toolAccum : List (String × String × String) := []
  finishReason : Option String := none
  usage : TokenUsage := ⟨0, 0⟩
  events : List StreamEvent := []

/-- A delta of a tool call. -/
structure CallDelta where
  index : ℕ
  id : Option String
  name : Option String
  arguments : Option String
  deriving DecidableEq

/-- The delta of a choice. -/
structure Delta where
  reasoning : Option String
  content : Option String
  toolCalls : List CallDelta
  finishReason : Option String

/-- A call of `delta["tool_calls"]`. -/
def readCallDelta (json : Json) : CallDelta where
  index := (json.index "index").asU64.getD 0
  id := (json.index "id").asStr
  name := (json.get "function").bind fun f => (f.index "name").asStr
  arguments := (json.get "function").bind fun f => (f.index "arguments").asStr

/-- A choice of `json["choices"]`. -/
def readDelta (choice : Json) : Delta where
  reasoning := ((choice.index "delta").index "reasoning_content").asStr
  content := ((choice.index "delta").index "content").asStr
  toolCalls := ((((choice.index "delta").index "tool_calls").asArray).getD []).map readCallDelta
  finishReason := (choice.index "finish_reason").asStr

/-- The entry of a call, after its delta: an entry is there once its index has come up. -/
def accumulate (toolAccum : List (String × String × String)) (d : CallDelta) :
    List (String × String × String) :=
  let grown := toolAccum ++ List.replicate (d.index + 1 - toolAccum.length) ("", "", "")
  grown.modify d.index fun e =>
    (d.id.getD e.1, d.name.getD e.2.1, e.2.2 ++ d.arguments.getD "")

/-- The events for the delta of a call. -/
def callEvents (toolAccum : List (String × String × String)) (d : CallDelta) : List StreamEvent :=
  let id := ((accumulate toolAccum d)[d.index]?.getD ("", "", "")).1
  (d.name.map fun name => StreamEvent.toolUseStart id name).toList ++
    if d.arguments.getD "" = "" then [] else [.toolInputDelta (d.arguments.getD "")]

/-- A delta of a tool call. -/
def StreamState.call (st : StreamState) (d : CallDelta) : StreamState :=
  { st with
    toolAccum := accumulate st.toolAccum d
    events := st.events ++ callEvents st.toolAccum d }

/-- The reasoning of a delta. -/
def StreamState.reasoning (st : StreamState) (reasoning : String) : StreamState :=
  if reasoning = "" then st
  else
    { st with
      thinking := st.thinking ++ reasoning.toList
      events := st.events ++ [.thinkingDelta reasoning] }

/-- The text of a delta. -/
def StreamState.content (st : StreamState) (content : String) : StreamState :=
  let r := routeText st.inThinking content.toList
  { st with
    text := st.text ++ visibleText r.1
    thinking := st.thinking ++ hiddenText r.1
    inThinking := r.2
    events := st.events ++ r.1.flatMap Segment.events }

/-- One choice. -/
def StreamState.delta (st : StreamState) (d : Delta) : StreamState :=
  let st := st.reasoning (d.reasoning.getD "")
  let st := st.content (d.content.getD "")
  let st := d.toolCalls.foldl StreamState.call st
  { st with finishReason := d.finishReason.or st.finishReason }

/-- The usage of an event, where it says one. -/
def readUsage (usage : TokenUsage) (json : Json) : TokenUsage :=
  match json.get "usage" with
  | none => usage
  | some u =>
    { inputTokens := (u.index "prompt_tokens").asU64.getD usage.inputTokens
      outputTokens := (u.index "completion_tokens").asU64.getD usage.outputTokens }

/-- The error that a provider sends in the middle of a stream. -/
def streamError (err : Json) : LlmError :=
  let type := ((err.index "type").asStr).getD "unknown_error"
  let code := ((err.index "code").asStr).getD ""
  let message := ((err.index "message").asStr).getD "(no message)"
  let combined :=
    if code = "" then type ++ ": " ++ message else type ++ " (" ++ code ++ "): " ++ message
  if type ∈ ["rate_limit_exceeded", "rate_limit_error"] then .rateLimited 5000
  else if type ∈ ["server_error", "overloaded_error", "service_unavailable"] then .overloaded 5000
  else if type ∈ ["authentication_error", "invalid_api_key"] then .api 401 combined
  else if type ∈ ["permission_error", "insufficient_quota"] then .api 403 combined
  else if type ∈ ["not_found_error", "model_not_found"] then .api 404 combined
  else if type ∈ ["context_length_exceeded", "request_too_large"] then .api 413 combined
  else if type ∈ ["invalid_request_error", "tool_use_failed"] then .api 400 combined
  else .api 502 combined

/-- One event of the stream, unless it is an error. -/
def StreamState.step (st : StreamState) (json : Json) : Except LlmError StreamState :=
  match json.get "error" with
  | some err => .error (streamError err)
  | none =>
    let choices := ((json.index "choices").asArray.getD []).map readDelta
    .ok (choices.foldl StreamState.delta { st with usage := readUsage st.usage json })

/-- The data of a line, if it is an event. -/
def readLine (parse : String → Except String Json) (line : List Char) : Option Json := do
  let data ← fieldValue "data:" (trimEnd line)
  if data = "[DONE]".toList then none else (parse (String.ofList data)).toOption

/-- The body of the stream, up to an error. -/
def StreamState.read (serde : Serde) (body : Body) : StreamState × Option LlmError :=
  Drivers.read takeLines (readLine serde.parse) StreamState.step {} [] body

/-- Nothing has come. -/
def StreamState.isEmpty (st : StreamState) : Bool :=
  st.text.isEmpty && st.thinking.isEmpty && st.toolAccum.isEmpty && st.usage.inputTokens = 0 &&
    st.usage.outputTokens = 0

/-- The calls of a stream. -/
def StreamState.toolCalls (serde : Serde) (st : StreamState) : List ToolCall :=
  st.toolAccum.map fun e => ⟨e.1, e.2.1, parseArguments serde.parse e.2.2⟩

/-- The response of a stream. -/
def StreamState.response (serde : Serde) (st : StreamState) : CompletionResponse where
  content :=
    thinkingBlock st.thinking ++
      (if st.text = [] then [] else [.text (String.ofList st.text)]) ++
        (st.toolCalls serde).map ToolCall.block
  stopReason := stopReasonOf st.finishReason (st.toolCalls serde)
  toolCalls := st.toolCalls serde
  usage := st.usage

/-- The events at the end of a stream. -/
def StreamState.closing (serde : Serde) (st : StreamState) : List StreamEvent :=
  (st.toolCalls serde).map (fun c => .toolUseEnd c.id c.name c.input) ++
    [.contentComplete (st.response serde).stopReason (st.response serde).usage]

/-- The body of a success, and what is sent of it. -/
def readStream (serde : Serde) (retriesLeft : ℕ) (body : Body) : Outcome × List StreamEvent :=
  let r := StreamState.read serde body
  match r.2 with
  | some e => (.fail e, r.1.events)
  | none =>
    if r.1.isEmpty then
      (if 0 < retriesLeft then .again else .fail (.overloaded 5000), r.1.events)
    else (.done (r.1.response serde), r.1.events ++ r.1.closing serde)

/-- One attempt of `stream`, and what is sent in it. -/
def streamReply (serde : Serde) (retriesLeft maxTokens : ℕ) :
    Reply → (Outcome × ℕ) × List StreamEvent
  | .failed message => ((.fail (.http message), maxTokens), [])
  | .replied status body =>
    if isSuccess status then
      let r := readStream serde retriesLeft body
      ((r.1, maxTokens), r.2)
    else (notSuccess serde status body retriesLeft maxTokens, [])

/-! ### The driver -/

/-- One attempt, with a limit on tokens; `streaming` tells `stream` from `complete`. -/
def attempt (serde : Serde) (streaming : Bool) (retriesLeft maxTokens : ℕ) (reply : Reply) :
    (Outcome × ℕ) × List StreamEvent :=
  if streaming then streamReply serde retriesLeft maxTokens reply
  else (completeReply serde retriesLeft maxTokens reply, [])

/-- A call, from `oai_request` on. -/
def call {σ : Type} (post : LlmDriver.CompletionRequest → Bool → ℕ → σ → Reply × σ) (serde : Serde)
    (streaming : Bool) (request : LlmDriver.CompletionRequest) (servers : σ) : Call σ :=
  retry (.openAI serde.parse) (post request streaming) (attempt serde streaming) maxRetries
    request.maxTokens servers

/-- `OpenAIDriver`; `post` sends a request with a limit on tokens. -/
def driver {σ : Type} (post : LlmDriver.CompletionRequest → Bool → ℕ → σ → Reply × σ)
    (serde : Serde) : Driver σ where
  complete := call post serde false
  stream := call post serde true

end OpenAI
end RustyHand
