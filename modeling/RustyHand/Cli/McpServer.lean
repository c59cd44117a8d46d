import RustyHand.Lib.Framing
import RustyHand.Types.Json
import RustyHand.Types.Text

/-!
# RustyHand as an MCP server

`rusty-hand-cli/src/mcp.rs`: messages with a `Content-Length` in front on standard input and output,
and what is answered to them.  The daemon or kernel that does the work is a parameter with a state
of its own, and so are the definitions of the tools, how JSON is parsed and printed with line
breaks, and `str::to_lowercase`.

* `readMessage`, `writeMessage`, `readMessage_writeMessage`: the frames;
* `dispatchTool`, `resolveToolAgent`, `handleMessage`: one message;
* `handleMessage_id`, `handleMessage_isSome`: which messages are answered, and to whom;
* `serve`, `serve_written`: the messages that a client has written are answered one by one.
-/

namespace RustyHand
namespace McpServer

open Framing (utf8 fromUtf8)

/-! ### Frames -/

/-- `read_line`: a line with its line feed, and what is behind it. -/
def readLine : List UInt8 → List UInt8 × List UInt8
  | [] => ([], [])
  | b :: input => if b = 10 then ([10], input) else (b :: (readLine input).1, (readLine input).2)

theorem readLine_append (input : List UInt8) :
    (readLine input).1 ++ (readLine input).2 = input := by
  induction input with
  | nil => rfl
  | cons b input ih =>
    unfold readLine
    split
    · rename_i hb
      simp [hb]
    · rw [List.cons_append, ih]

/-- `len_str.parse().unwrap_or(0)`. -/
def parseUsize (cs : List Char) : ℕ :=
  ((Json.decimal (match cs with
    | '+' :: digits => digits
    | digits => digits)).filter (· < 2 ^ 64)).getD 0

/-- What stands in front of the length. -/
def lengthName : List Char := "Content-Length: ".toList

/-- The length after a header. -/
def headerLength (contentLength : ℕ) (trimmed : List Char) : ℕ :=
  if lengthName <+: trimmed then parseUsize (trimmed.drop lengthName.length) else contentLength

/-- How the headers of a message end. -/
inductive Headers
  | done (contentLength : ℕ) (rest : List UInt8)
  | eof
  | failed

/-- The headers of a message. -/
def readHeaders (contentLength : ℕ) (input : List UInt8) : Headers :=
  if _h : (readLine input).1 = [] then .eof
  else
    match fromUtf8 (readLine input).1 with
    | none => .failed
    | some header =>
      let trimmed := Text.trimChars header.toList
      if trimmed = [] then .done contentLength (readLine input).2
      else readHeaders (headerLength contentLength trimmed) (readLine input).2
termination_by input.length
decreasing_by
  have hlen := congrArg List.length (readLine_append input)
  rw [List.length_append] at hlen
  have := List.length_pos_iff.2 _h
  omega

/-- `MAX_MCP_MESSAGE_SIZE`. -/
def maxMcpMessageSize : ℕ := 10 * 1024 * 1024

variable (fromSlice : List UInt8 → Option Json)

/-- `read_message`: nothing at the end, and of a body that is no JSON. -/
def readMessage (input : List UInt8) : Except String (Option (Json × List UInt8)) :=
  match readHeaders 0 input with
  | .eof => .ok none
  | .failed => .error "stream did not contain valid UTF-8"
  | .done contentLength rest =>
    if contentLength = 0 then .ok none
    else if maxMcpMessageSize < contentLength then
      .error ("MCP message too large: " ++ toString contentLength ++ " bytes (max " ++
        toString maxMcpMessageSize ++ ")")
    else if rest.length < contentLength then .error "failed to fill whole buffer"
    else .ok ((fromSlice (rest.take contentLength)).map fun msg => (msg, rest.drop contentLength))

/-- `serde_json::to_string`, in bytes. -/
def body (msg : Json) : List UInt8 := utf8 msg.toString

/-- `write_message`. -/
def writeMessage (msg : Json) : List UInt8 :=
  utf8 "Content-Length: " ++ utf8 (toString (body msg).length) ++ utf8 "\r\n\r\n" ++ body msg

/-- A message that the reader takes back. -/
structure Sendable (msg : Json) : Prop where
  pos : 0 < (body msg).length
  le : (body msg).length ≤ maxMcpMessageSize
  parsed : fromSlice (body msg) = some msg

variable {fromSlice}

theorem readLine_line {l : List UInt8} (h : 10 ∉ l) (rest : List UInt8) :
    readLine (l ++ 10 :: rest) = (l ++ [10], rest) := by
  induction l with
  | nil => simp [readLine]
  | cons b l ih =>
    rw [List.mem_cons, not_or] at h
    rw [List.cons_append, readLine, if_neg (Ne.symm h.1), ih h.2]
    rfl

theorem decimal_toDigits (n : ℕ) : Json.decimal (Nat.toDigits 10 n) = some n := by
  have hdigits : (Nat.toDigits 10 n).all Char.isDigit = true := List.all_eq_true.2 fun d hd =>
    Nat.isDigit_of_mem_toDigits (by decide) (by decide) hd
  rw [Json.decimal, if_pos ⟨Nat.toDigits_ne_nil, hdigits⟩]
  exact congrArg some (Nat.ofDigitChars_ten_toDigits)

theorem parseUsize_toDigits {n : ℕ} (h : n < 2 ^ 64) : parseUsize (Nat.toDigits 10 n) = n := by
  have hplus : ∀ cs, Nat.toDigits 10 n ≠ '+' :: cs := fun cs heq => by
    have hdigit := Nat.isDigit_of_mem_toDigits (b := 10) (n := n) (c := '+') (by decide)
      (by decide) (by rw [heq]; exact List.mem_cons_self)
    exact absurd hdigit (by decide)
  unfold parseUsize
  split
  · rename_i digits heq
    exact absurd heq (hplus digits)
  · rw [decimal_toDigits, Option.filter_some, if_pos (by simpa using h), Option.getD_some]

theorem utf8_line (s : String) : utf8 (s ++ "\n") = utf8 s ++ [10] := by
  rw [Framing.utf8_append]
  rfl

theorem readHeaders_line {s : String} (h : '\n' ∉ s.toList) (n : ℕ) (rest : List UInt8) :
    readHeaders n (utf8 s ++ 10 :: rest) =
      if Text.trimChars (s ++ "\n").toList = [] then .done n rest
      else readHeaders (headerLength n (Text.trimChars (s ++ "\n").toList)) rest := by
  have hline := readLine_line (Framing.newline_not_mem_utf8 h) rest
  rw [readHeaders, dif_neg (by simp [hline])]
  simp only [hline]
  rw [← utf8_line, Framing.fromUtf8_utf8]

theorem isWhitespace_of_isDigit {c : Char} (h : c.isDigit = true) :
    Text.isWhitespace c = false := by
  have hbounds : 48 ≤ c.toNat ∧ c.toNat ≤ 57 := by
    simpa [Char.isDigit, UInt32.le_iff_toNat_le] using h
  simp only [Text.isWhitespace, Bool.or_eq_false_iff, Bool.and_eq_false_iff,
    decide_eq_false_iff_not]
  omega

theorem trimChars_line {cs : List Char} (hne : cs ≠ [])
    (hfront : Text.isWhitespace (cs.head hne) = false)
    (hback : Text.isWhitespace (cs.getLast hne) = false) :
    Text.trimChars (cs ++ ['\r', '\n']) = cs := by
  have hdrop : (cs ++ ['\r', '\n']).dropWhile Text.isWhitespace = cs ++ ['\r', '\n'] := by
    cases cs with
    | nil => exact absurd rfl hne
    | cons c cs => exact List.dropWhile_cons_of_neg (by simpa using hfront)
  rw [Text.trimChars, hdrop, ← List.singleton_append (l := ['\n']), ← List.append_assoc,
    List.rdropWhile_concat_pos _ _ _ (by decide), List.rdropWhile_concat_pos _ _ _ (by decide)]
  exact List.rdropWhile_eq_self_iff.2 fun _ => by simp [hback]

theorem readHeaders_written {n : ℕ} (h : n < 2 ^ 64) (rest : List UInt8) :
    readHeaders 0 (utf8 "Content-Length: " ++ utf8 (toString n) ++ utf8 "\r\n\r\n" ++ rest) =
      .done n rest := by
  have hdigits : (toString n).toList = Nat.toDigits 10 n := by
    rw [Nat.toString_eq_repr, Nat.toList_repr]
  have hbytes : utf8 "Content-Length: " ++ utf8 (toString n) ++ utf8 "\r\n\r\n" ++ rest =
      utf8 ("Content-Length: " ++ toString n ++ "\r") ++ 10 :: (utf8 "\r" ++ 10 :: rest) := by
    have hend : utf8 "\r\n\r\n" = utf8 "\r" ++ 10 :: (utf8 "\r" ++ [10]) := by decide
    rw [hend]
    simp [Framing.utf8_append]
  have hcore : ("Content-Length: " ++ toString n ++ "\r" ++ "\n").toList =
      (lengthName ++ Nat.toDigits 10 n) ++ ['\r', '\n'] := by
    rw [String.toList_append, String.toList_append, String.toList_append, hdigits,
      List.append_assoc _ "\r".toList]
    rfl
  have hne : lengthName ++ Nat.toDigits 10 n ≠ [] := List.append_ne_nil_of_left_ne_nil (by decide) _
  have htrim : Text.trimChars ("Content-Length: " ++ toString n ++ "\r" ++ "\n").toList =
      lengthName ++ Nat.toDigits 10 n := by
    rw [hcore]
    refine trimChars_line hne ?_ ?_
    · rw [List.head_append_of_ne_nil (by decide)]
      decide
    · rw [List.getLast_append_of_ne_nil _ Nat.toDigits_ne_nil]
      exact isWhitespace_of_isDigit (Nat.isDigit_of_mem_toDigits (by decide) (by decide)
        (List.getLast_mem _))
  have hline : '\n' ∉ ("Content-Length: " ++ toString n ++ "\r").toList := by
    rw [String.toList_append, String.toList_append, hdigits, List.mem_append, List.mem_append]
    rintro ((hmem | hmem) | hmem)
    · exact absurd hmem (by decide)
    · exact absurd (Nat.isDigit_of_mem_toDigits (by decide) (by decide) hmem) (by decide)
    · exact absurd hmem (by decide)
  rw [hbytes, readHeaders_line hline, htrim, if_neg hne,
    readHeaders_line (by decide), if_pos (by decide), headerLength,
    if_pos (List.prefix_append ..), List.drop_left, parseUsize_toDigits h]

/-- **A message that is written is read**, and what is behind it is left. -/
theorem readMessage_writeMessage {msg : Json} (h : Sendable fromSlice msg) (rest : List UInt8) :
    readMessage fromSlice (writeMessage msg ++ rest) = .ok (some (msg, rest)) := by
  have hmax : maxMcpMessageSize < 2 ^ 64 := by decide
  have hle := h.le
  have hpos := h.pos
  rw [readMessage, writeMessage, List.append_assoc _ (body msg),
    readHeaders_written (by omega)]
  simp only [List.length_append]
  rw [if_neg (by omega), if_neg (by omega), if_neg (by omega), List.take_left, List.drop_left,
    h.parsed]
  rfl

/-! ### One message -/

/-- The id, name and description of an agent. -/
structure Agent where
  id : String
  name : String
  description : String

/-- `McpBackend`: a running daemon, or a kernel in the same process. -/
structure McpBackend (σ : Type*) where
  listAgents : σ → List Agent × σ
  sendMessage : String → String → σ → Except String String × σ
  /-- The `api_*` methods, by the tools that call them. -/
  api : String → List String → Option String → σ → Except String Json × σ

/-- `require_str`. -/
def requireStr (args : Json) (key : String) : Except String String :=
  ((args.index key).asStr).elim (.error ("Missing required argument: '" ++ key ++ "'")) .ok

/-- The arms of `dispatch_tool`, with the arguments that they require. -/
def toolArms : List (String × List String) :=
  [("rustyhand_system_health", []), ("rustyhand_system_status", []),
    ("rustyhand_config_reload", []), ("rustyhand_config_get", []),
    ("rustyhand_config_set", ["key", "value"]), ("rustyhand_agent_list", []),
    ("rustyhand_agent_get", ["agent_id"]), ("rustyhand_agent_spawn", ["manifest_toml"]),
    ("rustyhand_agent_kill", ["agent_id"]), ("rustyhand_agent_message", ["agent_id", "message"]),
    ("rustyhand_agent_session", ["agent_id"]),
    ("rustyhand_agent_set_model", ["agent_id", "model"]),
    ("rustyhand_agent_session_reset", ["agent_id"]), ("rustyhand_provider_list", []),
    ("rustyhand_model_list", []), ("rustyhand_budget_status", []),
    ("rustyhand_budget_agents", []), ("rustyhand_workflow_list", []),
    ("rustyhand_workflow_run", ["workflow_id", "input"]),
    ("rustyhand_workflow_runs", ["workflow_id"]), ("rustyhand_cron_list", []),
    ("rustyhand_cron_create", ["agent_id", "name", "schedule", "message"]),
    ("rustyhand_cron_delete", ["job_id"]), ("rustyhand_approval_list", []),
    ("rustyhand_approval_approve", ["approval_id"]),
    ("rustyhand_approval_reject", ["approval_id"]), ("rustyhand_channel_list", []),
    ("rustyhand_template_list", []), ("rustyhand_tool_list", [])]

/-- What the server goes by: the backend, the definitions of the static tools, and functions of
the libraries. -/
structure Server (σ : Type*) where
  backend : McpBackend σ
  staticToolDefinitions : List Json
  toStringPretty : Json → String
  toLowercase : String → String

variable {σ : Type*} (server : Server σ)

/-- `dispatch_tool`. -/
def dispatchTool (toolName : String) (args : Json) (s : σ) : Except String Json × σ :=
  match toolArms.lookup toolName with
  | none => (.error ("Unknown tool: " ++ toolName), s)
  | some keys =>
    match keys.mapM (requireStr args) with
    | .error e => (.error e, s)
    | .ok values =>
      -- only `rustyhand_model_list` looks at the provider
      server.backend.api toolName values ((args.index "provider").asStr) s

/-- `s.replace(old, new)`, of one character. -/
def replaceChar (old new : Char) (s : String) : String :=
  String.ofList (s.toList.map fun c => if c = old then new else c)

/-- What the names of the tools of agents begin with. -/
def agentToolStart : String := "rusty_hand_agent_"

/-- The tool of an agent. -/
def agentTool (name : String) : String := agentToolStart ++ replaceChar '-' '_' name

/-- `resolve_tool_agent`. -/
def resolveToolAgent (toolName : String) (s : σ) : Option String × σ :=
  match Text.stripStart agentToolStart toolName with
  | none => (none, s)
  | some rest =>
    let (agents, s) := server.backend.listAgents s
    let lower := server.toLowercase
    let agentName := replaceChar '_' '-' rest
    ((((agents.find? fun a => lower (replaceChar ' ' '-' a.name) = lower agentName).or
      (agents.find? fun a => lower (replaceChar '-' '_' a.name) = lower rest))).map Agent.id, s)

/-- `jsonrpc_response`. -/
def jsonrpcResponse (id result : Json) : Json :=
  .object [("id", id), ("jsonrpc", .string "2.0"), ("result", result)]

/-- `jsonrpc_error`. -/
def jsonrpcError (id : Json) (code : ℤ) (message : String) : Json :=
  .object [("error", .object [("code", .number (toString code)), ("message", .string message)]),
    ("id", id), ("jsonrpc", .string "2.0")]

/-- A result, or the code and the text of an error. -/
abbrev Reply : Type := Except (ℤ × String) Json

/-- The message with a reply. -/
def Reply.message (id : Json) : Reply → Json
  | .ok result => jsonrpcResponse id result
  | .error (code, text) => jsonrpcError id code text

/-- The content of a result: a text. -/
def textContent (text : String) : String × Json :=
  ("content", .array [.object [("text", .string text), ("type", .string "text")]])

/-- The result of a tool call. -/
def toolResult : Except String String → Json
  | .ok text => .object [textContent text]
  | .error e => .object [textContent ("Error: " ++ e), ("isError", .bool true)]

/-- The tool of an agent as it is listed. -/
def agentToolDefinition (a : Agent) : Json :=
  .object [("description", .string (if a.description = "" then
      "Send a message to RustyHand agent '" ++ a.name ++ "'" else a.description)),
    ("inputSchema", .object [("properties", .object [("message", .object
        [("description", .string "Message to send to the agent"), ("type", .string "string")])]),
      ("required", .array [.string "message"]), ("type", .string "object")]),
    ("name", .string (agentTool a.name))]

/-- The branch of `tools/list`. -/
def toolsList (s : σ) : Reply × σ :=
  let (agents, s) := server.backend.listAgents s
  (.ok (.object [("tools", .array (server.staticToolDefinitions ++
    agents.map agentToolDefinition))]), s)

/-- The branch of `tools/call`. -/
def toolsCall (params : Json) (s : σ) : Reply × σ :=
  let toolName := ((params.index "name").asStr).getD ""
  let args := params.index "arguments"
  if (Text.stripStart agentToolStart toolName).isSome then
    let message := ((args.index "message").asStr).getD ""
    if message = "" then (.error (-32602, "Missing 'message' argument"), s)
    else
      match resolveToolAgent server toolName s with
      | (none, s) => (.error (-32602, "Unknown agent tool: " ++ toolName), s)
      | (some agentId, s) =>
        let (outcome, s) := server.backend.sendMessage agentId message s
        (.ok (toolResult outcome), s)
  else
    let (outcome, s) := dispatchTool server toolName args s
    (.ok (toolResult (outcome.map server.toStringPretty)), s)

/-- The result of `initialize`. -/
def initializeResult : Json :=
  .object [("capabilities", .object [("tools", .object [])]),
    ("protocolVersion", .string "2024-11-05"),
    ("serverInfo", .object [("name", .string "rustyhand"), ("version", .string "0.1.0")])]

/-- What a message asks for; nothing for the notification. -/
def reply (msg : Json) (s : σ) : Option Reply × σ :=
  let method := ((msg.index "method").asStr).getD ""
  if method = "initialize" then (some (.ok initializeResult), s)
  else if method = "notifications/initialized" then (none, s)
  else if method = "tools/list" then ((some (toolsList server s).1), (toolsList server s).2)
  else if method = "tools/call" then
    (some (toolsCall server (msg.index "params") s).1, (toolsCall server (msg.index "params") s).2)
  else (some (.error (-32601, "Method not found: " ++ method)), s)

/-- `handle_message`.  A message without an id is carried out, and not answered. -/
def handleMessage (msg : Json) (s : σ) : Option Json × σ :=
  let (answer, s) := reply server msg s
  (answer.bind fun r => (msg.get "id").map fun id => Reply.message id r, s)

/-- A message that is answered. -/
def Answered (msg : Json) : Bool :=
  (msg.get "id").isSome && (msg.index "method").asStr ≠ some "notifications/initialized"

variable {server} {msg r : Json} {msgs : List Json} {s : σ}

@[simp] theorem get_id_message (id : Json) (r : Reply) :
    (Reply.message id r).get "id" = some id := by
  cases r <;> rfl

theorem handleMessage_id (h : (handleMessage server msg s).1 = some r) :
    r.get "id" = msg.get "id" := by
  obtain ⟨a, -, hr⟩ := Option.bind_eq_some_iff.1 h
  obtain ⟨id, hid, rfl⟩ := Option.map_eq_some_iff.1 hr
  rw [get_id_message, hid]

theorem reply_isSome : (reply server msg s).1.isSome = true ↔
    (msg.index "method").asStr ≠ some "notifications/initialized" := by
  unfold reply
  cases (msg.index "method").asStr with
  | none => simp
  | some method =>
    simp only [Option.getD_some, ne_eq, Option.some.injEq]
    split_ifs <;> simp_all

theorem handleMessage_isSome : (handleMessage server msg s).1.isSome = Answered msg := by
  have hreply : (reply server msg s).1.isSome = true ↔
      (msg.index "method").asStr ≠ some "notifications/initialized" := reply_isSome
  unfold handleMessage Answered
  cases hr : (reply server msg s).1 with
  | none =>
    rw [hr] at hreply
    simp_all
  | some a =>
    rw [hr] at hreply
    simp_all

/-! ### The loop -/

theorem readHeaders_length {n m : ℕ} {input rest : List UInt8}
    (h : readHeaders n input = .done m rest) : rest.length < input.length := by
  induction hn : input.length using Nat.strong_induction_on generalizing n input with
  | _ k ih =>
    subst hn
    rw [readHeaders] at h
    split at h
    · cases h
    · rename_i hne
      have hlen := congrArg List.length (readLine_append input)
      rw [List.length_append] at hlen
      have hpos := List.length_pos_iff.2 hne
      split at h
      · cases h
      · dsimp only at h
        split at h
        · obtain ⟨-, rfl⟩ := Headers.done.inj h
          omega
        · have := ih _ (by omega) h rfl
          omega

theorem readMessage_length {input rest : List UInt8}
    (h : readMessage fromSlice input = .ok (some (msg, rest))) : rest.length < input.length := by
  unfold readMessage at h
  split at h
  · cases h
  · cases h
  · rename_i n rest' hheaders
    have hlen := readHeaders_length hheaders
    split_ifs at h
    · cases h
    · obtain ⟨v, -, hv⟩ := Option.map_eq_some_iff.1 (Except.ok.inj h)
      obtain ⟨-, rfl⟩ := Prod.mk.inj hv
      rw [List.length_drop]
      omega

variable (fromSlice server)

/-- `run_mcp_server`: what is written. -/
def serve (input : List UInt8) (s : σ) : List UInt8 × σ :=
  match _h : readMessage fromSlice input with
  | .ok (some (msg, rest)) =>
    let answer := handleMessage server msg s
    let more := serve rest answer.2
    (answer.1.elim [] writeMessage ++ more.1, more.2)
  | .ok none => ([], s)
  | .error _ => ([], s)
termination_by input.length
decreasing_by exact readMessage_length _h

/-- The answers to some messages. -/
def answers : List Json → σ → List Json × σ
  | [], s => ([], s)
  | msg :: msgs, s =>
    let answer := handleMessage server msg s
    let more := answers msgs answer.2
    (answer.1.toList ++ more.1, more.2)

variable {fromSlice server}

theorem serve_of_readMessage {input rest : List UInt8}
    (h : readMessage fromSlice input = .ok (some (msg, rest))) : serve fromSlice server input s =
      ((handleMessage server msg s).1.elim [] writeMessage ++
        (serve fromSlice server rest (handleMessage server msg s).2).1,
      (serve fromSlice server rest (handleMessage server msg s).2).2) := by
  rw [serve]
  split
  · rename_i msg' rest' h'
    rw [h] at h'
    obtain ⟨rfl, rfl⟩ := Prod.mk.inj (Option.some.inj (Except.ok.inj h'))
    rfl
  · rename_i h'
    rw [h] at h'
    cases h'
  · rename_i h'
    rw [h] at h'
    cases h'

theorem answers_ids (msgs : List Json) (s : σ) :
    (answers server msgs s).1.map (Json.get "id") = (msgs.filter Answered).map (Json.get "id") := by
  induction msgs generalizing s with
  | nil => rfl
  | cons msg msgs ih =>
    have hsome : (handleMessage server msg s).1.isSome = Answered msg := handleMessage_isSome
    rw [answers, List.map_append, ih, List.filter_cons, ← hsome]
    cases h : (handleMessage server msg s).1 with
    | none => rfl
    | some r => simp [handleMessage_id h]

/-- **Messages that are written are answered**: a client that writes some messages gets the answers
to them, one after the other and each with the id of its own message, and what it writes behind them
is read from its first byte on. -/
theorem serve_written (h : ∀ msg ∈ msgs, Sendable fromSlice msg) (rest : List UInt8) (s : σ) :
    serve fromSlice server (msgs.flatMap writeMessage ++ rest) s =
      ((answers server msgs s).1.flatMap writeMessage ++
        (serve fromSlice server rest (answers server msgs s).2).1,
      (serve fromSlice server rest (answers server msgs s).2).2) ∧
    (answers server msgs s).1.map (Json.get "id") =
      (msgs.filter Answered).map (Json.get "id") := by
  refine ⟨?_, answers_ids msgs s⟩
  induction msgs generalizing s with
  | nil => rfl
  | cons msg msgs ih =>
    obtain ⟨hmsg, hmsgs⟩ := List.forall_mem_cons.1 h
    rw [List.flatMap_cons, List.append_assoc,
      serve_of_readMessage (readMessage_writeMessage hmsg _), ih hmsgs, answers]
    cases (handleMessage server msg s).1 <;> simp

/-- A server without agents and tools. -/
def exampleServer : Server Unit where
  backend :=
    { listAgents := fun s => ([], s)
      sendMessage := fun id _ s => (.ok id, s)
      api := fun _ _ _ s => (.ok .null, s) }
  staticToolDefinitions := []
  toStringPretty := Json.toString
  toLowercase := id

/-- A request for a method that there is not. -/
def pingRequest : Json := .object [("id", .number "1"), ("method", .string "ping")]

theorem serve_written_ping :
    serve (fun bytes => if bytes = body pingRequest then some pingRequest else none)
        exampleServer ([pingRequest].flatMap writeMessage ++ []) () =
      ((answers exampleServer [pingRequest] ()).1.flatMap writeMessage ++
        (serve (fun bytes => if bytes = body pingRequest then some pingRequest else none)
          exampleServer [] ()).1, ()) :=
  (serve_written (List.forall_mem_singleton.2 ⟨by decide, by decide, if_pos rfl⟩) [] ()).1

end McpServer
end RustyHand
