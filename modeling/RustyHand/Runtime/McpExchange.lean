import RustyHand.Drivers.SseBytes
import RustyHand.Types.Json
import RustyHand.Types.Text

/-!
# Requests to MCP servers

`rusty-hand-runtime/src/mcp.rs`: how the client of an MCP server waits for the answers to its
requests on the standard output of a subprocess, where late answers, requests of the server and
other texts stand as well.  How a frame is parsed is a parameter; what a read comes to is given,
and so is the clock.

* `readNextJsonrpcLine`, `readResponseForId`, `sendRequest`;
* `readResponseForId_eq_ok_iff`: when a request gets its answer;
* `Reads`: the reads that the bytes of a server can come to; `lineEnd_of_reads`;
* `Honest`, `run_answers`: over a run of requests no answer goes to another request.
-/

namespace RustyHand
namespace McpExchange

open Drivers (fromUtf8 Utf8Error)

/-! ### Frames -/

/-- `JsonRpcRequest`; its version is always the same. -/
structure JsonRpcRequest where
  id : ℕ
  method : String
  params : Option Json := none

/-- `JsonRpcError`, without the data that nothing reads. -/
structure JsonRpcError where
  code : ℤ
  message : String

/-- `JsonRpcError` as it displays. -/
def JsonRpcError.display (e : JsonRpcError) : String :=
  "JSON-RPC error " ++ toString e.code ++ ": " ++ e.message

/-- `JsonRpcResponse`, without the version that nothing reads. -/
structure JsonRpcResponse where
  id : Option ℕ := none
  result : Option Json := none
  error : Option JsonRpcError := none
  method : Option String := none

/-! ### Waiting for an answer -/

/-- `MAX_NOISE_LINES`. -/
def maxNoiseLines : ℕ := 32

/-- `MAX_MCP_LINE_BYTES`. -/
def maxMcpLineBytes : ℕ := 16 * 1024 * 1024

/-- `MAX_SKIPPED_FRAMES`. -/
def maxSkippedFrames : ℕ := 64

/-- What one read of a line comes to, with the line feed that ends it; `timedOut` also if the time
was over before the read. -/
inductive Read
  | line (bytes : List UInt8)
  | closed
  | failed (e : String)
  | timedOut

/-- `Utf8Error` as it displays. -/
def displayUtf8Error (e : Utf8Error) : String :=
  match e.errorLen with
  | some n => "invalid utf-8 sequence of " ++ toString n ++ " bytes from index " ++
      toString e.validUpTo
  | none => "incomplete utf-8 byte sequence from index " ++ toString e.validUpTo

/-- What is made of the bytes of a line: nothing of a line that is skipped. -/
def inspect (bytes : List UInt8) : Except String (Option String) :=
  if maxMcpLineBytes ≤ bytes.length then
    .error ("MCP server response exceeded " ++ toString maxMcpLineBytes ++ "-byte line cap")
  else
    match fromUtf8 bytes with
    | .error e => .error ("MCP response was not valid UTF-8: " ++ displayUtf8Error e)
    | .ok line =>
      if (Text.trimChars line).head? = some '\x7b' then .ok (some (String.ofList line))
      else .ok none

/-- `read_next_jsonrpc_line`, of so many lines. -/
def readNextJsonrpcLine : ℕ → List Read → Except String String × List Read
  | 0, input => (.error ("MCP server emitted " ++ toString maxNoiseLines ++
      " non-JSON-RPC lines before any valid response"), input)
  | _ + 1, [] => (.error "MCP request timed out", [])
  | _ + 1, .timedOut :: input => (.error "MCP request timed out", input)
  | _ + 1, .closed :: input => (.error "MCP server closed connection", input)
  | _ + 1, .failed e :: input => (.error ("Failed to read MCP response: " ++ e), input)
  | n + 1, .line bytes :: input =>
    match inspect bytes with
    | .error e => (.error e, input)
    | .ok (some line) => (.ok line, input)
    | .ok none => readNextJsonrpcLine n input

variable (parse : String → Option JsonRpcResponse)

/-- What a line says of a request, if anything. -/
def verdict (id : ℕ) (line : String) : Option (Except String (Option Json)) :=
  match parse (Text.trim line) with
  | none => none
  | some response =>
    if response.method.isSome then none
    else
      match response.id, response.error with
      | some rid, error =>
        if rid = id then
          match error with
          | some e => some (.error e.display)
          | none => some (.ok response.result)
        else none
      | none, some e => some (.error e.display)
      | none, none => none

/-- `read_response_for_id`, of so many frames. -/
def readResponseForId (id : ℕ) : ℕ → List Read → Except String (Option Json) × List Read
  | 0, input => (.error ("MCP server sent " ++ toString maxSkippedFrames ++
      " frames without answering request id " ++ toString id), input)
  | n + 1, input =>
    match readNextJsonrpcLine maxNoiseLines input with
    | (.error e, rest) => (.error e, rest)
    | (.ok line, rest) =>
      match verdict parse id line with
      | some outcome => (outcome, rest)
      | none => readResponseForId id n rest

/-- `McpConnection`: `next_id`, and what the reads to come will be. -/
structure McpConnection where
  nextId : ℕ := 1
  input : List Read

/-- A call of `send_request`; whether the request can be written is given. -/
structure Call where
  method : String
  params : Option Json := none
  write : Except String Unit := .ok ()

/-- `send_request`. -/
def sendRequest (conn : McpConnection) (call : Call) :
    Except String (Option Json) × McpConnection :=
  match call.write with
  | .error e => (.error e, { conn with nextId := conn.nextId + 1 })
  | .ok () =>
    let answer := readResponseForId parse conn.nextId maxSkippedFrames conn.input
    (answer.1, { nextId := conn.nextId + 1, input := answer.2 })

/-! ### When the answer comes -/

/-- A line that is skipped. -/
def IsNoise (r : Read) : Prop := ∃ bytes, r = .line bytes ∧ inspect bytes = .ok none

/-- A line with a frame that the request is not told of. -/
def Unrelated (id : ℕ) (r : Read) : Prop :=
  ∃ bytes line, r = .line bytes ∧ inspect bytes = .ok (some line) ∧ verdict parse id line = none

/-- Reads that a request passes over, with so many frames in them. -/
inductive Passes (id : ℕ) : ℕ → List Read → Prop
  | noise {pre : List Read} (hnoise : ∀ r ∈ pre, IsNoise r) (hlen : pre.length < maxNoiseLines) :
    Passes id 0 pre
  | frame {n : ℕ} {pre post : List Read} {r : Read} (hnoise : ∀ r ∈ pre, IsNoise r)
    (hlen : pre.length < maxNoiseLines) (hframe : Unrelated parse id r) (hpost : Passes id n post) :
    Passes id (n + 1) (pre ++ r :: post)

variable {parse}

theorem readNextJsonrpcLine_eq_ok_iff {n : ℕ} {input rest : List Read} {line : String} :
    readNextJsonrpcLine n input = (.ok line, rest) ↔ ∃ pre bytes, (∀ r ∈ pre, IsNoise r) ∧
      pre.length < n ∧ input = pre ++ .line bytes :: rest ∧ inspect bytes = .ok (some line) := by
  induction n generalizing input with
  | zero => simp [readNextJsonrpcLine]
  | succ n ih =>
    constructor
    · intro h
      match input with
      | [] | .timedOut :: _ | .closed :: _ | .failed _ :: _ => simp [readNextJsonrpcLine] at h
      | .line bytes :: input =>
        rw [readNextJsonrpcLine] at h
        split at h
        · simp at h
        · rename_i hin
          obtain ⟨h1, rfl⟩ := Prod.mk.inj h
          obtain rfl := Except.ok.inj h1
          exact ⟨[], bytes, by simp, by simp, rfl, hin⟩
        · rename_i hin
          obtain ⟨pre, bytes', hnoise, hlen, rfl, hline⟩ := ih.1 h
          refine ⟨.line bytes :: pre, bytes', ?_, by simpa using hlen, rfl, hline⟩
          exact List.forall_mem_cons.2 ⟨⟨bytes, rfl, hin⟩, hnoise⟩
    · rintro ⟨pre, bytes, hnoise, hlen, rfl, hline⟩
      cases pre with
      | nil => simp [readNextJsonrpcLine, hline]
      | cons r pre =>
        obtain ⟨⟨bytes', rfl, hin⟩, hpre⟩ := List.forall_mem_cons.1 hnoise
        rw [List.cons_append, readNextJsonrpcLine, hin]
        exact ih.2 ⟨pre, bytes, hpre, by simpa using hlen, rfl, hline⟩

/-- **A request gets an answer** from the first line that has one for it, behind fewer than
`n` frames that it is not told of and fewer than `maxNoiseLines` skipped lines in front of each. -/
theorem readResponseForId_eq_ok_iff {id n : ℕ} {input rest : List Read} {v : Option Json} :
    readResponseForId parse id n input = (.ok v, rest) ↔ ∃ m < n, ∃ pre bytes line,
      Passes parse id m pre ∧ input = pre ++ .line bytes :: rest ∧
        inspect bytes = .ok (some line) ∧ verdict parse id line = some (.ok v) := by
  induction n generalizing input with
  | zero => simp [readResponseForId]
  | succ n ih =>
    constructor
    · intro h
      rw [readResponseForId] at h
      split at h
      · simp at h
      · rename_i line rest' hnext
        obtain ⟨pre, bytes, hnoise, hlen, rfl, hline⟩ := readNextJsonrpcLine_eq_ok_iff.1 hnext
        split at h
        · rename_i outcome hverdict
          obtain ⟨rfl, rfl⟩ := Prod.mk.inj h
          exact ⟨0, by omega, pre, bytes, line, .noise hnoise hlen, rfl, hline, hverdict⟩
        · rename_i hverdict
          obtain ⟨m, hm, pre', bytes', line', hpass, rfl, hline', hverdict'⟩ := ih.1 h
          refine ⟨m + 1, by omega, pre ++ .line bytes :: pre', bytes', line', ?_, by simp,
            hline', hverdict'⟩
          exact .frame hnoise hlen ⟨bytes, line, rfl, hline, hverdict⟩ hpass
    · rintro ⟨m, hm, pre, bytes, line, hpass, rfl, hline, hverdict⟩
      rw [readResponseForId]
      cases hpass with
      | noise hnoise hlen =>
        rw [readNextJsonrpcLine_eq_ok_iff.2 ⟨pre, bytes, hnoise, hlen, rfl, hline⟩]
        simp only [hverdict]
      | frame hnoise hlen hframe hpost =>
        rename_i m pre post r
        obtain ⟨bytes', line', rfl, hline', hverdict'⟩ := hframe
        rw [List.append_assoc, List.cons_append, readNextJsonrpcLine_eq_ok_iff.2
          ⟨pre, bytes', hnoise, hlen, rfl, hline'⟩]
        simp only [hverdict']
        exact ih.2 ⟨m, by omega, post, bytes, line, hpost, rfl, hline, hverdict⟩

/-- **When a request succeeds**, and what is left to read then. -/
theorem sendRequest_eq_ok_iff {conn conn' : McpConnection} {call : Call} {v : Option Json} :
    sendRequest parse conn call = (.ok v, conn') ↔ call.write = .ok () ∧
      conn'.nextId = conn.nextId + 1 ∧ ∃ m < maxSkippedFrames, ∃ pre bytes line,
        Passes parse conn.nextId m pre ∧ conn.input = pre ++ .line bytes :: conn'.input ∧
          inspect bytes = .ok (some line) ∧ verdict parse conn.nextId line = some (.ok v) := by
  rw [← readResponseForId_eq_ok_iff]
  obtain ⟨nextId, input⟩ := conn'
  unfold sendRequest
  cases call.write with
  | error e => simp
  | ok => simp [Prod.ext_iff, and_comm, and_assoc, eq_comm]

theorem readNextJsonrpcLine_suffix (n : ℕ) (input : List Read) :
    (readNextJsonrpcLine n input).2 <:+ input := by
  induction n generalizing input with
  | zero => exact List.suffix_refl input
  | succ n ih =>
    match input with
    | [] => exact List.suffix_refl _
    | .timedOut :: input | .closed :: input | .failed _ :: input => exact List.suffix_cons _ input
    | .line bytes :: input =>
      rw [readNextJsonrpcLine]
      split
      · exact List.suffix_cons _ input
      · exact List.suffix_cons _ input
      · exact (ih input).trans (List.suffix_cons _ input)

theorem readResponseForId_suffix (id n : ℕ) (input : List Read) :
    (readResponseForId parse id n input).2 <:+ input := by
  induction n generalizing input with
  | zero => exact List.suffix_refl input
  | succ n ih =>
    have hnext := readNextJsonrpcLine_suffix maxNoiseLines input
    rw [readResponseForId]
    split
    · rename_i h
      rwa [h] at hnext
    · rename_i line rest h
      rw [h] at hnext
      split
      · exact hnext
      · exact (ih rest).trans hnext

/-! ### The bytes of the server -/

/-- The bytes that stand from somewhere in a line up to its end. -/
def LineEnd (output bytes : List UInt8) : Prop :=
  ∃ before after, output = before ++ bytes ++ after ∧ 10 ∉ bytes.dropLast ∧
    (after = [] ∨ bytes.getLast? = some 10)

/-- Reads of the bytes of a server.  A read that ends before its line does has taken some bytes of
the line, which are lost. -/
inductive Reads : List UInt8 → List Read → Prop
  | nil (output : List UInt8) : Reads output []
  | line {l rest : List UInt8} {reads : List Read} (hl : 10 ∉ l)
    (hlen : l.length + 1 ≤ maxMcpLineBytes) (hreads : Reads rest reads) :
    Reads (l ++ 10 :: rest) (.line (l ++ [10]) :: reads)
  | full {l rest : List UInt8} {reads : List Read} (hl : 10 ∉ l)
    (hlen : l.length = maxMcpLineBytes) (hreads : Reads rest reads) :
    Reads (l ++ rest) (.line l :: reads)
  | last {l : List UInt8} {reads : List Read} (hl : 10 ∉ l) (hne : l ≠ [])
    (hlen : l.length < maxMcpLineBytes) (hreads : Reads [] reads) : Reads l (.line l :: reads)
  | closed {reads : List Read} (hreads : Reads [] reads) : Reads [] (.closed :: reads)
  | failed {l rest : List UInt8} {reads : List Read} (e : String) (hl : 10 ∉ l)
    (hreads : Reads rest reads) : Reads (l ++ rest) (.failed e :: reads)
  | timedOut {l rest : List UInt8} {reads : List Read} (hl : 10 ∉ l)
    (hreads : Reads rest reads) : Reads (l ++ rest) (.timedOut :: reads)

theorem LineEnd.append {rest bytes : List UInt8} (h : LineEnd rest bytes) (front : List UInt8) :
    LineEnd (front ++ rest) bytes := by
  obtain ⟨before, after, rfl, hmem, hend⟩ := h
  exact ⟨front ++ before, after, by simp, hmem, hend⟩

/-- A line that is read and not too long is the end of a line of the server. -/
theorem lineEnd_of_reads {output bytes : List UInt8} {reads : List Read} (h : Reads output reads)
    (hmem : .line bytes ∈ reads) (hlen : bytes.length < maxMcpLineBytes) :
    LineEnd output bytes := by
  induction h with
  | nil => cases hmem
  | @line l rest reads hl hlen' _ ih =>
    rcases List.mem_cons.1 hmem with heq | hmem
    · obtain rfl := Read.line.inj heq
      exact ⟨[], rest, by simp, by simpa using hl, .inr (by simp)⟩
    · rw [← List.singleton_append, ← List.append_assoc]
      exact (ih hmem).append _
  | @full l rest reads hl hlen' _ ih =>
    rcases List.mem_cons.1 hmem with heq | hmem
    · obtain rfl := Read.line.inj heq
      omega
    · exact (ih hmem).append l
  | @last l reads hl _ _ _ ih =>
    rcases List.mem_cons.1 hmem with heq | hmem
    · obtain rfl := Read.line.inj heq
      exact ⟨[], [], by simp, fun h => hl (List.mem_of_mem_dropLast h), .inl rfl⟩
    · have := (ih hmem).append l
      rwa [List.append_nil] at this
  | closed _ ih => exact ih (by simpa using hmem)
  | @failed l _ _ _ _ _ ih => exact (ih (by simpa using hmem)).append l
  | @timedOut l _ _ _ _ ih => exact (ih (by simpa using hmem)).append l

/-! ### Runs -/

/-- A request that was made, and what came of it. -/
structure Exchange where
  request : JsonRpcRequest
  outcome : Except String (Option Json)

variable (parse) in
/-- A run of requests over one connection. -/
def run (conn : McpConnection) : List Call → List Exchange
  | [] => []
  | call :: calls =>
    let answer := sendRequest parse conn call
    { request := { id := conn.nextId, method := call.method, params := call.params }
      outcome := answer.1 } :: run answer.2 calls

variable (parse) in
/-- What the server writes is, at the end of each of its lines, either no response or a response
to none of the requests, or it has the answer of the request with the id that it names. -/
def Honest (answer : JsonRpcRequest → Option Json) (output : List UInt8)
    (sent : List JsonRpcRequest) : Prop :=
  ∀ bytes line response, LineEnd output bytes → fromUtf8 bytes = .ok line →
    parse (Text.trim (String.ofList line)) = some response → response.method = none →
      response.error = none → ∀ request ∈ sent, response.id = some request.id →
        response.result = answer request

theorem verdict_eq_ok {id : ℕ} {line : String} {v : Option Json}
    (h : verdict parse id line = some (.ok v)) : ∃ response,
      parse (Text.trim line) = some response ∧ response.method = none ∧ response.id = some id ∧
        response.error = none ∧ response.result = v := by
  unfold verdict at h
  split at h
  · cases h
  · rename_i response hparse
    split at h
    · cases h
    · rename_i hmethod
      have hmethod : response.method = none := by simpa using hmethod
      cases hid : response.id with
      | none => cases herror : response.error <;> simp [hid, herror] at h
      | some rid =>
        by_cases heq : rid = id
        · subst heq
          cases herror : response.error with
          | some e => simp [hid, herror] at h
          | none =>
            refine ⟨response, hparse, hmethod, hid, herror, ?_⟩
            simpa [hid, herror] using h
        · simp [hid, heq] at h

theorem inspect_eq_ok {bytes : List UInt8} {line : String}
    (h : inspect bytes = .ok (some line)) :
    bytes.length < maxMcpLineBytes ∧ ∃ cs, fromUtf8 bytes = .ok cs ∧ String.ofList cs = line := by
  unfold inspect at h
  split at h
  · cases h
  · rename_i hlen
    refine ⟨by omega, ?_⟩
    split at h
    · cases h
    · rename_i cs hcs
      split at h
      · exact ⟨cs, hcs, by simpa using h⟩
      · simp at h

variable {answer : JsonRpcRequest → Option Json} {output : List UInt8}

/-- One request gets its own answer, or none. -/
theorem sendRequest_answers {conn : McpConnection} {call : Call} {v : Option Json}
    {sent : List JsonRpcRequest} {request : JsonRpcRequest}
    (hreads : ∃ front, Reads output (front ++ conn.input))
    (honest : Honest parse answer output sent) (hmem : request ∈ sent)
    (hid : request.id = conn.nextId)
    (h : (sendRequest parse conn call).1 = .ok v) : v = answer request := by
  unfold sendRequest at h
  split at h
  · cases h
  · obtain ⟨-, -, pre, bytes, line, -, hinput, hinspect, hverdict⟩ :=
      readResponseForId_eq_ok_iff.1 (Prod.ext h rfl)
    obtain ⟨front, hreads⟩ := hreads
    obtain ⟨hlen, cs, hcs, rfl⟩ := inspect_eq_ok hinspect
    obtain ⟨response, hparse, hmethod, hrid, herror, rfl⟩ := verdict_eq_ok hverdict
    have hend : LineEnd output bytes :=
      lineEnd_of_reads hreads (by rw [hinput]; simp) hlen
    exact honest bytes cs response hend hcs hparse hmethod herror request hmem (by rw [hrid, hid])

theorem sendRequest_input (conn : McpConnection) (call : Call) :
    (sendRequest parse conn call).2.input <:+ conn.input := by
  unfold sendRequest
  split
  · exact List.suffix_refl _
  · exact readResponseForId_suffix _ _ _

/-- **No answer goes to another request**: over a run of requests on one connection, with late
answers, lines that are cut by a time-out, and requests of the server in between, a request that
succeeds has the answer that an honest server gave to it. -/
theorem run_answers {conn : McpConnection} {calls : List Call} (hreads : Reads output conn.input)
    (honest : Honest parse answer output ((run parse conn calls).map Exchange.request)) :
    ∀ x ∈ run parse conn calls, ∀ v, x.outcome = .ok v → v = answer x.request := by
  suffices H : ∀ (calls : List Call) (conn : McpConnection) (sent : List JsonRpcRequest),
      (∃ front, Reads output (front ++ conn.input)) → Honest parse answer output sent →
        (∀ x ∈ run parse conn calls, x.request ∈ sent) →
          ∀ x ∈ run parse conn calls, ∀ v, x.outcome = .ok v → v = answer x.request from
    H calls conn _ ⟨[], hreads⟩ honest fun x hx => List.mem_map_of_mem hx
  intro calls
  induction calls with
  | nil => intro _ _ _ _ _ x hx; cases hx
  | cons call calls ih =>
    intro conn sent hreads honest hsent
    obtain ⟨hfirst, hrest⟩ := List.forall_mem_cons.1 hsent
    refine List.forall_mem_cons.2
      ⟨fun v hv => sendRequest_answers hreads honest hfirst rfl hv, ih _ sent ?_ honest hrest⟩
    obtain ⟨front, hreads⟩ := hreads
    obtain ⟨taken, htaken⟩ : (sendRequest parse conn call).2.input <:+ conn.input :=
      sendRequest_input conn call
    exact ⟨front ++ taken, by rwa [List.append_assoc, htaken]⟩

/-- Reads two frames only. -/
def exampleParse (s : String) : Option JsonRpcResponse :=
  if s = "\x7b1\x7d" then some { id := some 1, result := some .null }
  else if s = "\x7b2\x7d" then some { id := some 2, result := some (.bool true) } else none

/-- The answers in them. -/
def exampleAnswer (request : JsonRpcRequest) : Option Json :=
  if request.id = 1 then some .null else some (.bool true)

/-- The first request has timed out, and its answer comes in front of the second one's. -/
theorem run_answers_late :
    let exchanges := run exampleParse
      { input := [.timedOut, .line [123, 49, 125, 10], .line [123, 50, 125, 10]] }
      [{ method := "tools/list" }, { method := "tools/call" }]
    exchanges.length = 2 ∧
      ∀ x ∈ exchanges, ∀ v, x.outcome = .ok v → v = exampleAnswer x.request := by
  have hreads : Reads ([] ++ ([123, 49, 125] ++ 10 :: ([123, 50, 125] ++ 10 :: [])))
      [.timedOut, .line [123, 49, 125, 10], .line [123, 50, 125, 10]] :=
    .timedOut (by simp) (.line (by decide) (by decide) (.line (by decide) (by decide) (.nil [])))
  refine ⟨rfl, run_answers hreads fun bytes line response _ _ hparse _ _ request _ hid => ?_⟩
  unfold exampleParse at hparse
  split at hparse
  · obtain rfl := Option.some.inj hparse
    exact (if_pos (Option.some.inj hid).symm).symm
  · split at hparse
    · obtain rfl := Option.some.inj hparse
      have htwo : request.id = 2 := (Option.some.inj hid).symm
      exact (if_neg (by omega)).symm
    · cases hparse

end McpExchange
end RustyHand
