import RustyHand.Types.Text

/-!
# The classes of driver errors

`rusty-hand-runtime/src/llm_errors.rs`, as the agent loop uses it: `classify_error` of a message
without a status code, and `sanitize_for_user`.
-/

namespace RustyHand
namespace LlmErrors

/-- `LlmErrorCategory`. -/
inductive LlmErrorCategory
  | rateLimit
  | overloaded
  | timeout
  | billing
  | auth
  | contextOverflow
  | format
  | modelNotFound
  deriving DecidableEq

/-- `CONTEXT_OVERFLOW_PATTERNS`. -/
def contextOverflowPatterns : List String :=
  ["context_length_exceeded", "context length", "context_length", "maximum context",
    "context window", "token limit", "too many tokens", "max_tokens_exceeded",
    "max tokens exceeded", "prompt is too long", "input too long", "context.length"]

/-- `BILLING_PATTERNS`. -/
def billingPatterns : List String :=
  ["payment required", "insufficient credits", "credit balance", "billing",
    "insufficient balance", "usage limit"]

/-- `AUTH_PATTERNS`. -/
def authPatterns : List String :=
  ["invalid api key", "invalid api_key", "invalid apikey", "incorrect api key", "invalid token",
    "unauthorized", "forbidden", "authentication", "permission denied"]

/-- `RATE_LIMIT_PATTERNS`. -/
def rateLimitPatterns : List String :=
  ["rate limit", "rate_limit", "too many requests", "exceeded quota", "exceeded your quota",
    "resource exhausted", "resource_exhausted", "quota exceeded", "tokens per minute",
    "requests per minute", "tpm limit", "rpm limit"]

/-- `MODEL_NOT_FOUND_PATTERNS`. -/
def modelNotFoundPatterns : List String :=
  ["model not found", "model_not_found", "unknown model", "does not exist", "not_found",
    "model unavailable", "model_unavailable", "no such model", "invalid model", "is not found"]

/-- `FORMAT_PATTERNS`. -/
def formatPatterns : List String :=
  ["invalid request", "invalid_request", "malformed", "tool_use", "schema", "validation error",
    "validation_error", "invalid parameter", "invalid_parameter", "missing required",
    "bad request", "bad_request"]

/-- `OVERLOADED_PATTERNS`. -/
def overloadedPatterns : List String :=
  ["overloaded", "overloaded_error", "service unavailable", "service_unavailable", "high demand",
    "capacity", "server_error", "internal server error", "internal_server_error"]

/-- `TIMEOUT_PATTERNS`. -/
def timeoutPatterns : List String :=
  ["timeout", "timed out", "deadline exceeded", "etimedout", "econnreset", "econnrefused",
    "econnaborted", "epipe", "ehostunreach", "enetunreach", "connection reset",
    "connection refused", "network error", "fetch failed"]

/-- `matches_any`. -/
def matchesAny (haystack : String) (patterns : List String) : Bool :=
  patterns.any (Text.containsText haystack)

/-- `is_html_error_page`, of the lower-case body. -/
def isHtmlErrorPage (lower : String) : Bool :=
  matchesAny lower ["<!doctype", "<html"] || matchesAny lower ["cf-error-code", "cf-error-type"] ||
    (matchesAny lower ((List.range 10).map fun i => toString (521 + i)) &&
      Text.containsText lower "cloudflare")

/-- The category that `classify_error` finds, given the message in lower case. -/
def category (lower : String) : LlmErrorCategory :=
  if matchesAny lower contextOverflowPatterns then .contextOverflow
  else if matchesAny lower billingPatterns then .billing
  else if matchesAny lower authPatterns then .auth
  else if matchesAny lower rateLimitPatterns then .rateLimit
  else if matchesAny lower modelNotFoundPatterns then .modelNotFound
  else if Text.containsText lower "model" && Text.containsText lower "not found" then .modelNotFound
  else if matchesAny lower formatPatterns then .format
  else if matchesAny lower overloadedPatterns then .overloaded
  else if matchesAny lower timeoutPatterns then .timeout
  else if isHtmlErrorPage lower then .overloaded
  else if matchesAny lower ["connect", "network", "dns"] then .timeout
  else .format

/-- `sanitize_for_user`; every message is shorter than the cap of 200 bytes. -/
def sanitizeForUser : LlmErrorCategory → String
  | .rateLimit => "The AI provider is rate-limiting requests. Retrying shortly..."
  | .overloaded => "The AI provider is temporarily overloaded. Retrying..."
  | .timeout => "The request timed out. Check your network connection."
  | .billing => "Billing issue with the AI provider. Check your API plan."
  | .auth => "Authentication failed. Check your API key configuration."
  | .contextOverflow => "The conversation is too long for the model's context window."
  | .format => "Invalid request format. This may be a bug — please report it."
  | .modelNotFound => "The requested model was not found. Check the model name."

/-- `ClassifiedError`, as far as the loop reads it. -/
structure ClassifiedError where
  category : LlmErrorCategory
  isRetryable : Bool
  isBilling : Bool
  sanitizedMessage : String

/-- `classify_error`, without a status. -/
def classifyError (toLowercase : String → String) (message : String) : ClassifiedError :=
  let c := category (toLowercase message)
  { category := c
    isRetryable := c = .rateLimit || c = .overloaded || c = .timeout
    isBilling := c = .billing
    sanitizedMessage := sanitizeForUser c }

end LlmErrors
end RustyHand
