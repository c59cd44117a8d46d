import RustyHand.Runtime.Driver

/-!
# What a provider replies

The reply to one request over HTTP, as the drivers of `rusty-hand-runtime/src/drivers` read it: a
status and a body, which arrives in pieces.  The pieces are texts, whole characters each.

* `Reply`, `Exchange`, `Call`: a reply, what is sent on of it, and a call with its replies;
* `Driver`, `retry`: a driver, and the attempts of a call to it;
* `takeLines`, `takeParagraphs`: the complete lines of what has arrived, and the complete events;
* `steps`, `read`: the events of a stream.
-/

namespace RustyHand
namespace Drivers

open LlmDriver

/-- A body: its pieces, up to an error of the connection. -/
abbrev Body : Type := List (Except String String)

/-- The reply to one request, if there is one. -/
inductive Reply
  | failed (message : String)
  | replied (status : ℕ) (body : Body)

/-- `resp.text()`. -/
def readText : Body → Except String String
  | [] => .ok ""
  | .error e :: _ => .error e
  | .ok piece :: body => (readText body).map (piece ++ ·)

/-- `resp.text().await.unwrap_or_else(…)`. -/
def readOrExplain (body : Body) : String :=
  match readText body with
  | .ok text => text
  | .error e => "<failed to read body: " ++ e ++ ">"

/-- `status.is_success()`. -/
def isSuccess (status : ℕ) : Bool := 200 ≤ status && status < 300

/-- The protocol that a reply is read with, and the reading of a JSON text. -/
inductive Wire
  | openAI (parse : String → Except String Json)
  | anthropic (parse : String → Except String Json)

/-- A reply, and the events that a driver has sent on of it. -/
structure Exchange where
  wire : Wire
  reply : Reply
  events : List StreamEvent

/-- A call to a driver: its result, the exchanges that led to it, and what it leaves of the
servers. -/
structure Call (σ : Type) where
  result : Except LlmError CompletionResponse
  exchanges : List Exchange
  servers : σ

/-- The events that a call has sent. -/
def Call.events {σ : Type} (call : Call σ) : List StreamEvent :=
  call.exchanges.flatMap Exchange.events

/-- Some exchanges more in front. -/
def Call.after {σ : Type} (exchanges : List Exchange) (call : Call σ) : Call σ :=
  { call with exchanges := exchanges ++ call.exchanges }

/-- What becomes of an attempt. -/
inductive Outcome
  | done (response : CompletionResponse)
  | fail (e : LlmError)
  | again

/-- `MAX_RETRIES` of the drivers. -/
def maxRetries : ℕ := 3

/-- A driver: `complete` and `stream`. -/
structure Driver (σ : Type) where
  complete : LlmDriver.CompletionRequest → σ → Call σ
  stream : LlmDriver.CompletionRequest → σ → Call σ

/-! ### The attempts of a driver -/

section Retry

variable {σ π : Type}

/-- The attempts of a call, with so many retries left and a setting that an attempt may change:
`post` sends the request, and `attempt` is what becomes of the reply and what is sent on of it. -/
def retry (wire : Wire) (post : π → σ → Reply × σ)
    (attempt : ℕ → π → Reply → (Outcome × π) × List StreamEvent) : ℕ → π → σ → Call σ
  | retriesLeft, setting, servers =>
    let reply := post setting servers
    let r := attempt retriesLeft setting reply.1
    let exchange : Exchange := ⟨wire, reply.1, r.2⟩
    match r.1.1, retriesLeft with
    | .done response, _ => ⟨.ok response, [exchange], reply.2⟩
    | .fail e, _ => ⟨.error e, [exchange], reply.2⟩
    | .again, 0 => ⟨.error (.api 0 "Max retries exceeded"), [exchange], reply.2⟩
    | .again, retriesLeft + 1 =>
      (retry wire post attempt retriesLeft r.1.2 reply.2).after [exchange]

/-- The attempts, by the exchanges and the result. -/
inductive Tried (wire : Wire) (attempt : ℕ → π → Reply → (Outcome × π) × List StreamEvent) :
    ℕ → π → List Exchange → Except LlmError CompletionResponse → Prop
  | done {n : ℕ} {setting setting' : π} {reply : Reply} {response : CompletionResponse}
      {events : List StreamEvent}
      (h : attempt n setting reply = ((.done response, setting'), events)) :
      Tried wire attempt n setting [⟨wire, reply, events⟩] (.ok response)
  | fail {n : ℕ} {setting setting' : π} {reply : Reply} {e : LlmError}
      {events : List StreamEvent} (h : attempt n setting reply = ((.fail e, setting'), events)) :
      Tried wire attempt n setting [⟨wire, reply, events⟩] (.error e)
  | spent {setting setting' : π} {reply : Reply} {events : List StreamEvent}
      (h : attempt 0 setting reply = ((.again, setting'), events)) :
      Tried wire attempt 0 setting [⟨wire, reply, events⟩]
        (.error (.api 0 "Max retries exceeded"))
  | again {n : ℕ} {setting setting' : π} {reply : Reply} {events : List StreamEvent}
      {exchanges : List Exchange} {result : Except LlmError CompletionResponse}
      (h : attempt (n + 1) setting reply = ((.again, setting'), events))
      (hrest : Tried wire attempt n setting' exchanges result) :
      Tried wire attempt (n + 1) setting (⟨wire, reply, events⟩ :: exchanges) result

variable (wire : Wire) (post : π → σ → Reply × σ)
  (attempt : ℕ → π → Reply → (Outcome × π) × List StreamEvent)

theorem retry_tried (n : ℕ) (setting : π) (servers : σ) :
    Tried wire attempt n setting (retry wire post attempt n setting servers).exchanges
      (retry wire post attempt n setting servers).result := by
  induction n generalizing setting servers with
  | zero =>
    rcases h : attempt 0 setting (post setting servers).1 with ⟨⟨o, setting'⟩, events⟩
    unfold retry
    dsimp only
    rw [h]
    cases o with
    | done response => exact .done h
    | fail e => exact .fail h
    | again => exact .spent h
  | succ n ih =>
    rcases h : attempt (n + 1) setting (post setting servers).1 with ⟨⟨o, setting'⟩, events⟩
    unfold retry
    dsimp only
    rw [h]
    cases o with
    | done response => exact .done h
    | fail e => exact .fail h
    | again => exact .again h (ih setting' _)

variable {wire post attempt}

/-- An attempt that succeeds is the last. -/
theorem retry_of_done {n : ℕ} {setting setting' : π} {servers : σ}
    {response : CompletionResponse} {events : List StreamEvent}
    (h : attempt n setting (post setting servers).1 = ((.done response, setting'), events)) :
    retry wire post attempt n setting servers =
      ⟨.ok response, [⟨wire, (post setting servers).1, events⟩], (post setting servers).2⟩ := by
  unfold retry
  dsimp only
  rw [h]

/-- An attempt that fails is the last. -/
theorem retry_of_fail {n : ℕ} {setting setting' : π} {servers : σ} {e : LlmError}
    {events : List StreamEvent}
    (h : attempt n setting (post setting servers).1 = ((.fail e, setting'), events)) :
    retry wire post attempt n setting servers =
      ⟨.error e, [⟨wire, (post setting servers).1, events⟩], (post setting servers).2⟩ := by
  unfold retry
  dsimp only
  rw [h]

end Retry

/-! ### Lines -/

/-- The complete lines of a text, and what stands behind the last of them. -/
def takeLines : List Char → List (List Char) × List Char
  | [] => ([], [])
  | c :: cs =>
    let r := takeLines cs
    if c = '\n' then ([] :: r.1, r.2)
    else
      match r.1 with
      | [] => ([], c :: r.2)
      | line :: lines => ((c :: line) :: lines, r.2)

/-- The texts that end with a blank line, and what stands behind the last of them. -/
def takeParagraphs : List Char → List (List Char) × List Char
  | [] => ([], [])
  | '\n' :: '\n' :: cs =>
    let r := takeParagraphs cs
    ([] :: r.1, r.2)
  | c :: cs =>
    let r := takeParagraphs cs
    match r.1 with
    | [] => ([], c :: r.2)
    | text :: texts => ((c :: text) :: texts, r.2)

/-- What a body comes to when `split` takes the complete parts of what has arrived: the parts, and
the error of the connection if there is one. -/
def arrived (split : List Char → List (List Char) × List Char) :
    List Char → Body → List (List Char) × Option String
  | _, [] => ([], none)
  | _, .error e :: _ => ([], some e)
  | buffer, .ok piece :: body =>
    let r := split (buffer ++ piece.toList)
    let rest := arrived split r.2 body
    (r.1 ++ rest.1, rest.2)

/-! ### Events of a stream -/

section Events

variable {S E : Type}

/-- Some events, up to an error. -/
def steps (step : S → E → Except LlmError S) (st : S) : List E → S × Option LlmError
  | [] => (st, none)
  | event :: rest =>
    match step st event with
    | .error e => (st, some e)
    | .ok st => steps step st rest

/-- The body of a stream, up to an error; `decode` reads the event of a part, and `buffer` is what
is left of one. -/
def read (split : List Char → List (List Char) × List Char) (decode : List Char → Option E)
    (step : S → E → Except LlmError S) (st : S) (buffer : List Char) :
    Body → S × Option LlmError
  | [] => (st, none)
  | .error e :: _ => (st, some (.http e))
  | .ok piece :: body =>
    let r := split (buffer ++ piece.toList)
    let next := steps step st (r.1.filterMap decode)
    match next.2 with
    | some e => (next.1, some e)
    | none => read split decode step next.1 r.2 body

variable (step : S → E → Except LlmError S)

theorem steps_cons (st : S) (event : E) (rest : List E) :
    steps step st (event :: rest) =
      match step st event with
      | .error e => (st, some e)
      | .ok st => steps step st rest := rfl

theorem steps_append (st : S) (events events' : List E) :
    steps step st (events ++ events') =
      match (steps step st events).2 with
      | some e => ((steps step st events).1, some e)
      | none => steps step (steps step st events).1 events' := by
  induction events generalizing st with
  | nil => rfl
  | cons event rest ih =>
    rw [List.cons_append, steps_cons, steps_cons]
    cases h : step st event with
    | error e => rfl
    | ok st' => exact ih st'

/-- A stream is read as if its parts were there at once. -/
theorem read_eq (split : List Char → List (List Char) × List Char)
    (decode : List Char → Option E) (st : S) (buffer : List Char) (body : Body) :
    read split decode step st buffer body =
      ((steps step st ((arrived split buffer body).1.filterMap decode)).1,
        (steps step st ((arrived split buffer body).1.filterMap decode)).2.or
          ((arrived split buffer body).2.map .http)) := by
  induction body generalizing st buffer with
  | nil => rfl
  | cons piece body ih =>
    cases piece with
    | error e => rfl
    | ok piece =>
      unfold read arrived
      dsimp only
      rw [List.filterMap_append, steps_append]
      cases h : (steps step st ((split (buffer ++ piece.toList)).1.filterMap decode)).2 with
      | some e => rfl
      | none => exact ih _ _

end Events

/-! ### Fields -/

/-- `s.trim_end()`. -/
def trimEnd (cs : List Char) : List Char := (cs.reverse.dropWhile Text.isWhitespace).reverse

/-- `s.strip_prefix(start)`. -/
def stripPrefix (start cs : List Char) : Option (List Char) :=
  if start <+: cs then some (cs.drop start.length) else none

/-- The value of an SSE field, without the space that may stand behind its colon. -/
def fieldValue (field : String) (line : List Char) : Option (List Char) :=
  (stripPrefix field.toList line).map fun rest => (stripPrefix [' '] rest).getD rest

/-- `text.lines()`. -/
def lines (cs : List Char) : List (List Char) :=
  let r := takeLines cs
  (r.1 ++ if r.2 = [] then [] else [r.2]).map fun line =>
    if line.getLast? = some '\r' then line.dropLast else line

end Drivers
end RustyHand
