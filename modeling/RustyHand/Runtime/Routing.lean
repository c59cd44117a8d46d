import RustyHand.Types.Message
import RustyHand.Types.Text
import RustyHand.Types.ToolSchema

/-!
# Model routing

`rusty-hand-runtime/src/routing.rs`: a request is scored, and the score picks one of three models.
-/

namespace RustyHand

/-- `TaskComplexity`. -/
inductive TaskComplexity
  | simple
  | medium
  | complex
  deriving DecidableEq

/-- `ModelRoutingConfig`. -/
structure ModelRoutingConfig where
  simpleModel : String := "claude-haiku-4-5-20251001"
  mediumModel : String := "claude-sonnet-4-6"
  complexModel : String := "claude-sonnet-4-6"
  simpleThreshold : UInt32 := 100
  complexThreshold : UInt32 := 500

/-- What the router reads of a `CompletionRequest`. -/
structure CompletionRequest where
  messages : List Message
  tools : List ToolDefinition
  system : Option String

namespace ModelRouter

/-- `code_markers`. -/
def codeMarkers : List String :=
  ["\x60\x60\x60", "fn ", "def ", "class ", "import ", "function ", "async ", "await ", "struct ",
    "impl ", "return "]

/-- The markers in the text of the last message. -/
def codeScore (toLowercase : String → String) (messages : List Message) : UInt32 :=
  match messages.getLast? with
  | none => 0
  | some last =>
    let textLower := toLowercase last.content.textContent
    UInt32.ofNat (codeMarkers.filter (Text.containsText textLower)).length * 30

/-- `score`, before it is classified. -/
def points (toLowercase : String → String) (request : CompletionRequest) : UInt32 :=
  let totalChars := (request.messages.map fun m => m.content.textLength).sum
  let msgCount := UInt32.ofNat request.messages.length
  let sysLen := UInt32.ofNat ((request.system.map String.utf8ByteSize).getD 0)
  UInt32.ofNat (totalChars / 4) + UInt32.ofNat request.tools.length * 20 +
    codeScore toLowercase request.messages +
    (if 10 < msgCount then (msgCount - 10) * 15 else 0) +
    (if 500 < sysLen then (sysLen - 500) / 10 else 0)

/-- `score`. -/
def score (toLowercase : String → String) (config : ModelRoutingConfig)
    (request : CompletionRequest) : TaskComplexity :=
  let points := points toLowercase request
  if points < config.simpleThreshold then .simple
  else if config.complexThreshold ≤ points then .complex
  else .medium

/-- `model_for_complexity`. -/
def modelForComplexity (config : ModelRoutingConfig) : TaskComplexity → String
  | .simple => config.simpleModel
  | .medium => config.mediumModel
  | .complex => config.complexModel

/-- `select_model`. -/
def selectModel (toLowercase : String → String) (config : ModelRoutingConfig)
    (request : CompletionRequest) : TaskComplexity × String :=
  let complexity := score toLowercase config request
  (complexity, modelForComplexity config complexity)

/-- `resolve_aliases`. -/
def resolveAliases (resolveAlias : String → Option String) (config : ModelRoutingConfig) :
    ModelRoutingConfig :=
  { config with
    simpleModel := (resolveAlias config.simpleModel).getD config.simpleModel
    mediumModel := (resolveAlias config.mediumModel).getD config.mediumModel
    complexModel := (resolveAlias config.complexModel).getD config.complexModel }

end ModelRouter
end RustyHand
