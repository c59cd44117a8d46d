import RustyHand.Runtime.Driver
import RustyHand.Session.ContextGuard

/-!
# Texts of the agent loop

What the two agent loops make of texts: `substitute_prompt_vars`, `derive_session_label` and
`recover_text_tool_calls` of `rusty-hand-runtime/src/agent_loop.rs`, `build_memory_section` of
`prompt_builder.rs`, `parse_directives` of `reply_directives.rs` and `truncate_tool_result_dynamic`
of `context_budget.rs`.
-/

namespace RustyHand
namespace LoopText

open LlmDriver

/-! ### The system prompt -/

/-- What a prompt may ask of the clock. -/
structure Clock where
  date : String
  time : String
  datetime : String
  weekday : String
  year : String

/-- `substitute_prompt_vars`.  The braces are written by their code. -/
def substitutePromptVars (prompt agentName agentId : String) (now : Clock) : String :=
  let var := fun name value text =>
    Text.replace text ("\x7b\x7b" ++ name ++ "\x7d\x7d") value
  if Text.containsText prompt "\x7b\x7b" then
    var "agent_id" agentId (var "agent_name" agentName (var "year" now.year
      (var "weekday" now.weekday (var "datetime" now.datetime (var "time" now.time
        (var "date" now.date prompt))))))
  else prompt

/-- `cap_str`. -/
def capStr (s : String) (maxChars : ℕ) : String :=
  if s.length ≤ maxChars then s else String.ofList (s.toList.take maxChars) ++ "..."

/-- `build_memory_section`, of memories without keys. -/
def buildMemorySection (memories : List String) : String :=
  let head :=
    "## Memory\n- When the user asks about something from a previous conversation, use " ++
      "memory_recall first.\n- Store important preferences, decisions, and context with " ++
      "memory_store for future use."
  if memories = [] then head
  else
    head ++ "\n\nRecalled memories:\n" ++
      String.join ((memories.take 5).map fun content => "- " ++ capStr content 500 ++ "\n")

/-! ### Labels -/

/-- `derive_session_label`. -/
def deriveSessionLabel (isAlphanumeric : Char → Bool) (text : String) : Option String :=
  let clean := text.toList.map fun c =>
    if isAlphanumeric c || c = ' ' || c = '-' || c = '_' then c.toLower else ' '
  let candidate := String.intercalate " " ((Text.splitWhitespace (String.ofList clean)).take 6)
  let truncated := (candidate.toList.take 40).reverse.dropWhile Text.isWhitespace
  let label := String.ofList truncated.reverse
  if label.utf8ByteSize < 2 then none else some label

/-- `SessionLabel::new(label).is_ok()`. -/
def isSessionLabel (isAlphanumeric : Char → Bool) (label : String) : Bool :=
  let trimmed := Text.trim label
  !trimmed.isEmpty && trimmed.utf8ByteSize ≤ 128 &&
    trimmed.toList.all fun c => isAlphanumeric c || c = ' ' || c = '-' || c = '_'

/-! ### Directives -/

/-- `DirectiveSet`. -/
structure DirectiveSet where
  replyTo : Option String := none
  currentThread : Bool := false
  silent : Bool := false
  deriving DecidableEq

/-- `parse_tag`. -/
def parseTag (content : String) (d : DirectiveSet) : DirectiveSet :=
  let trimmed := Text.trim content
  match Text.stripStart "reply:" trimmed with
  | some id =>
    let id := Text.trim id
    if id.isEmpty then d else { d with replyTo := some id }
  | none =>
    if trimmed = "@current" then { d with currentThread := true }
    else if trimmed = "silent" then { d with silent := true }
    else d

/-- `consume` of a final chunk.  The first argument counts the characters of a tag that are still to
be passed over, as many as the tag has bytes. -/
def consumeFinal : ℕ → List Char → DirectiveSet → List Char × DirectiveSet
  | _, [], d => ([], d)
  | skip + 1, _ :: cs, d => consumeFinal skip cs d
  | 0, c :: cs, d =>
    let literal :=
      let rest := consumeFinal 0 cs d
      (c :: rest.1, rest.2)
    if ['[', '['] <+: c :: cs then
      match Text.splitOnce [']', ']'] ((c :: cs).drop 2) with
      | some (tag, _) => consumeFinal (Text.byteLength tag + 3) cs (parseTag (String.ofList tag) d)
      | none => literal
    else literal

/-- `parse_directives`. -/
def parseDirectives (text : String) : String × DirectiveSet :=
  let r := consumeFinal 0 text.toList {}
  (Text.trim (String.ofList r.1), r.2)

example : parseDirectives "[[reply:456]] [[silent]] Done" =
    ("Done", { replyTo := some "456", silent := true }) := by decide

/-! ### Calls in a text -/

/-- The calls of the first pattern, `<function=NAME>JSON</function>`.  Every step passes over a
tag, so the length of the text is fuel enough. -/
def functionEqCalls (parseJson : String → Option Json) (names : List String) :
    ℕ → List Char → List (String × Json)
  | 0, _ => []
  | fuel + 1, text =>
    match Text.splitOnce "<function=".toList text with
    | none => []
    | some (_, rest) =>
      match Text.splitOnce ">".toList rest with
      | none => functionEqCalls parseJson names fuel rest
      | some (name, body) =>
        match Text.splitOnce "</function>".toList body with
        | none => functionEqCalls parseJson names fuel body
        | some (json, rest) =>
          let calls := functionEqCalls parseJson names fuel rest
          if String.ofList name ∈ names then
            match parseJson (Text.trim (String.ofList json)) with
            | some input => (String.ofList name, input) :: calls
            | none => calls
          else calls

/-- The calls of the second pattern, `<function>NAME\x7bJSON\x7d</function>`, after those found. -/
def functionCalls (parseJson : String → Option Json) (names : List String) :
    ℕ → List Char → List (String × Json) → List (String × Json)
  | 0, _, calls => calls
  | fuel + 1, text, calls =>
    match Text.splitOnce "<function>".toList text with
    | none => calls
    | some (_, rest) =>
      match Text.splitOnce "</function>".toList rest with
      | none => functionCalls parseJson names fuel rest calls
      | some (inner, rest) =>
        let name := Text.trim (String.ofList (inner.takeWhile (· ≠ '\x7b')))
        let body := inner.dropWhile (· ≠ '\x7b')
        if body = [] || name.isEmpty || name ∉ names then
          functionCalls parseJson names fuel rest calls
        else
          match parseJson (Text.trim (String.ofList body)) with
          | none => functionCalls parseJson names fuel rest calls
          | some input =>
            -- what the first pattern captured is not taken twice
            if calls.any fun c => c.1 = name && c.2.print = input.print then
              functionCalls parseJson names fuel rest calls
            else functionCalls parseJson names fuel rest (calls ++ [(name, input)])

/-- `recover_text_tool_calls`, without the ids. -/
def textToolCalls (parseJson : String → Option Json) (text : String)
    (availableTools : List ToolDefinition) : List (String × Json) :=
  let names := availableTools.map ToolDefinition.name
  let chars := text.toList
  functionCalls parseJson names (chars.length + 1) chars
    (functionEqCalls parseJson names (chars.length + 1) chars)

/-! ### Long results -/

/-- `per_result_cap`: 30 percent of the window, in characters. -/
def perResultCap (budget : ContextBudget.Budget) : ℕ :=
  Float64.mulTrunc (Float64.mulTrunc budget.contextWindowTokens 5404319552844595 54) 2 0

/-- `truncate_tool_result_dynamic`. -/
def truncateToolResultDynamic (content : String) (budget : ContextBudget.Budget) : String :=
  let cap := perResultCap budget
  let text := content.toList
  if text.length ≤ cap then content
  else
    let shown := text.take
      ((ContextBudget.findLastNewlineInCharWindow text (cap - 200) cap).getD (cap - 100))
    String.ofList shown ++ "\n\n[TRUNCATED: result was " ++ toString text.length ++
      " chars, showing first " ++ toString shown.length ++ " (budget: 30% of " ++
      toString (budget.contextWindowTokens / 1000) ++ "K context window)]"

end LoopText
end RustyHand
