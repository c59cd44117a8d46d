import RustyHand.Drivers.AnthropicStream
import RustyHand.Drivers.Fallback
import RustyHand.Drivers.OpenAIStream
import RustyHand.Runtime.LoopWorld

/-!
# What a streamed call shows

A call of `stream_with_retry` may need several replies: the driver, the chain of drivers and
`stream_with_retry` itself try again.  All of them send to one receiver, and what a failed attempt
has sent stays there.

* `Exchange.visible`: the text that a reply shows while it is read;
* `Exchange.Honest`: a reply whose text is that of its response;
* `streamWithRetry_sends_iff`: when what was sent is the text of the response.
-/

namespace RustyHand
namespace Drivers

open Effects LlmDriver

/-! ### The text of a reply -/

/-- The events of a body in the OpenAI protocol. -/
def oaiEvents (parse : String → Except String Json) (body : Body) : List Json :=
  (arrived takeLines [] body).1.filterMap (OpenAI.readLine parse)

/-- The events of a body in the Anthropic protocol. -/
def sseEvents (parse : String → Except String Json) (body : Body) : List Anthropic.SseEvent :=
  (arrived takeParagraphs [] body).1.filterMap (Anthropic.readEvent parse)

/-- The text that a body shows before an error in it. -/
def Wire.visible : Wire → Body → String
  | openAI parse, body =>
    String.ofList (OpenAI.visibleText
      (OpenAI.pieces false ((OpenAI.untilError (oaiEvents parse body)).flatMap OpenAI.deltasOf)).1)
  | anthropic parse, body =>
    Anthropic.allText (Anthropic.textDeltas false (Anthropic.untilError (sseEvents parse body)))

/-- The text that a reply shows: only the body of a success is sent on. -/
def Exchange.visible (e : Exchange) : String :=
  match e.reply with
  | .failed _ => ""
  | .replied status body => if isSuccess status then e.wire.visible body else ""

/-- The reply refuses a `tool_use_failed` generation that is a text without `<function=`. -/
def RecoversText (parse : String → Except String Json) (status : ℕ) (body : String) : Prop :=
  status = 400 ∧ Text.containsText body "tool_use_failed" = true ∧
    ∃ failed, OpenAI.failedGeneration parse body = some failed ∧
      OpenAI.failedCalls parse failed.length failed.toList [] = some [] ∧
      Text.isBlank failed = false

/-- A reply whose text is that of the response: it is not recovered from a refusal, and no text in
it comes outside of a block of text. -/
def Exchange.Honest (e : Exchange) : Prop :=
  match e.wire, e.reply with
  | _, .failed _ => True
  | .openAI parse, .replied status body => ¬ RecoversText parse status (readOrExplain body)
  | .anthropic parse, .replied _ body =>
    ∀ delta ∈ Anthropic.textDeltas false (Anthropic.untilError (sseEvents parse body)),
      delta.1 = false → delta.2 = ""

section OpenAI

open OpenAI

variable {serde : OpenAI.Serde}

theorem text_openAI (body : Body) :
    String.ofList (OpenAI.StreamState.read serde body).1.text =
        (Wire.openAI serde.parse).visible body ∧
      deltaText (OpenAI.StreamState.read serde body).1.events =
        (Wire.openAI serde.parse).visible body := by
  obtain ⟨hfollows, -⟩ := OpenAI.steps_follows {} (oaiEvents serde.parse body)
  have hread : (OpenAI.StreamState.read serde body).1 =
      (steps OpenAI.StreamState.step {} (oaiEvents serde.parse body)).1 := by
    rw [OpenAI.StreamState.read, read_eq]
    rfl
  rw [hread]
  constructor
  · rw [hfollows.text]
    rfl
  · rw [hfollows.sent]
    exact String.empty_append ..

theorem text_streamResponse (st : OpenAI.StreamState) :
    (st.response serde).text = String.ofList st.text := by
  have hcalls : ∀ calls : List ToolCall, (calls.map ToolCall.block).filterMap blockText? = [] := by
    intro calls
    rw [List.filterMap_map]
    exact List.filterMap_none _
  have hthinking : (thinkingBlock st.thinking).filterMap blockText? = [] := by
    unfold thinkingBlock
    split_ifs <;> rfl
  unfold CompletionResponse.text OpenAI.StreamState.response
  simp only [List.filterMap_append, hcalls, hthinking, List.nil_append, List.append_nil]
  split_ifs with h
  · rw [h]
    rfl
  · simp [blockText?]

/-- What is recovered from a refusal says nothing unless it is a text. -/
theorem text_parseGroq {status : ℕ} {body : String} {response : CompletionResponse}
    (hfailed : status = 400 ∧ Text.containsText body "tool_use_failed" = true)
    (h : parseGroqFailedToolCall serde body = some response) :
    response.text = "" ↔ ¬ RecoversText serde.parse status body := by
  obtain ⟨failed, toolCalls, hgeneration, hcalls, hresponse⟩ := parseGroq_some h
  obtain ⟨rfl, hblank, rfl⟩ | ⟨hne, rfl⟩ := hresponse
  · have hrecovers : RecoversText serde.parse status body :=
      ⟨hfailed.1, hfailed.2, failed, hgeneration, hcalls, hblank⟩
    refine iff_of_false (fun htext => ?_) (not_not_intro hrecovers)
    obtain rfl : failed = "" := by simpa [CompletionResponse.text, blockText?] using htext
    cases hblank
  · refine iff_of_true rfl fun hrecovers => hne ?_
    obtain ⟨-, -, failed', hgeneration', hcalls', -⟩ := hrecovers
    obtain rfl : failed = failed' := Option.some.inj (hgeneration.symm.trans hgeneration')
    exact Option.some.inj (hcalls.symm.trans hcalls')

theorem sent_openAI (n maxTokens : ℕ) (reply : Reply) :
    deltaText (streamReply serde n maxTokens reply).2 =
      Exchange.visible ⟨.openAI serde.parse, reply, (streamReply serde n maxTokens reply).2⟩ := by
  cases reply with
  | failed message => rfl
  | replied status body =>
    unfold streamReply Exchange.visible
    dsimp only
    split_ifs with hsuccess
    · obtain ⟨closing, hclosing, hsent⟩ := OpenAI.readStream_sends serde n body
      dsimp only
      rw [hsent, deltaText_append, hclosing, (text_openAI body).2]
      exact String.append_empty ..
    · rfl

theorem done_openAI {n maxTokens : ℕ} {reply : Reply} {response : CompletionResponse}
    (h : (streamReply serde n maxTokens reply).1.1 = .done response) (events : List StreamEvent) :
    response.text = Exchange.visible ⟨.openAI serde.parse, reply, events⟩ ↔
      Exchange.Honest ⟨.openAI serde.parse, reply, events⟩ := by
  cases reply with
  | failed message => cases h
  | replied status body =>
    unfold streamReply at h
    unfold Exchange.visible Exchange.Honest
    dsimp only at h ⊢
    split_ifs at h ⊢ with hsuccess
    · refine iff_of_true ?_ fun hrecovers => ?_
      · rw [readStream_done h, text_streamResponse, (text_openAI body).1]
      · rw [hrecovers.1] at hsuccess
        cases hsuccess
    · obtain ⟨hfailed, hparse⟩ := notSuccess_done h
      exact text_parseGroq hfailed hparse

end OpenAI

section Anthropic

open Anthropic

variable {serde : Anthropic.Serde}

theorem read_anthropic (body : Body) :
    Follows {} (Anthropic.untilError (sseEvents serde.parse body))
      (Anthropic.StreamState.read serde body).1 := by
  have hread : (Anthropic.StreamState.read serde body).1 =
      (steps (Anthropic.StreamState.step serde) {} (sseEvents serde.parse body)).1 := by
    rw [Anthropic.StreamState.read, read_eq]
    rfl
  rw [hread]
  exact Anthropic.steps_follows serde {} _

theorem sent_anthropic (n : ℕ) (reply : Reply) :
    deltaText (Anthropic.streamReply serde n reply).2 =
      Exchange.visible
        ⟨.anthropic serde.parse, reply, (Anthropic.streamReply serde n reply).2⟩ := by
  cases reply with
  | failed message => rfl
  | replied status body =>
    unfold Anthropic.streamReply Exchange.visible
    dsimp only
    split_ifs with hsuccess
    · obtain ⟨closing, hclosing, hsent⟩ := Anthropic.readStream_sends serde n body
      rw [hsent, deltaText_append, hclosing, (read_anthropic body).sent]
      exact (String.append_empty ..).trans (String.empty_append ..)
    · rfl

theorem done_anthropic {n : ℕ} {reply : Reply} {response : CompletionResponse}
    (h : (Anthropic.streamReply serde n reply).1 = .done response) (events : List StreamEvent) :
    response.text = Exchange.visible ⟨.anthropic serde.parse, reply, events⟩ ↔
      Exchange.Honest ⟨.anthropic serde.parse, reply, events⟩ := by
  cases reply with
  | failed message => cases h
  | replied status body =>
    unfold Anthropic.streamReply at h
    unfold Exchange.visible Exchange.Honest
    dsimp only at h ⊢
    split_ifs at h ⊢ with hsuccess
    · rw [Anthropic.readStream_done h, Anthropic.text_response, (read_anthropic body).text,
        ← blockText_eq_iff]
      exact Eq.congr_left (String.empty_append ..)
    · exact absurd h (notSuccess_ne_done _ _ _ _ _)

end Anthropic

theorem Attempted.sent {e : Exchange} {o : Outcome} (h : Attempted e o) :
    deltaText e.events = e.visible := by
  cases h with
  | openAI serde n maxTokens reply => exact sent_openAI n maxTokens reply
  | anthropic serde n reply => exact sent_anthropic n reply

theorem Attempted.text {e : Exchange} {o : Outcome} (h : Attempted e o)
    {response : CompletionResponse} (ho : o = .done response) :
    response.text = e.visible ↔ e.Honest := by
  cases h with
  | openAI serde n maxTokens reply => exact done_openAI ho _
  | anthropic serde n reply => exact done_anthropic ho _

/-- Attempts that end with a response: those that failed, and the last. -/
theorem Answered.split {exchanges : List Exchange} {response : CompletionResponse}
    (h : Answered exchanges (some response)) :
    ∃ failed last, exchanges = failed ++ [last] ∧ (∀ e ∈ failed, ∃ o, Attempted e o) ∧
      Attempted last (.done response) := by
  generalize hsome : some response = answer at h
  induction h with
  | nil => cases hsome
  | last h =>
    obtain rfl := Option.some.inj hsome
    exact ⟨[], _, rfl, List.forall_mem_nil _, h⟩
  | more h _ ih =>
    obtain ⟨failed, last, rfl, hfailed, hlast⟩ := ih hsome
    exact ⟨_ :: failed, last, rfl, List.forall_mem_cons.2 ⟨⟨_, h⟩, hfailed⟩, hlast⟩

theorem deltaText_flatMap {exchanges : List Exchange}
    (h : ∀ e ∈ exchanges, deltaText e.events = "") :
    deltaText (exchanges.flatMap Exchange.events) = "" := by
  induction exchanges with
  | nil => rfl
  | cons e exchanges ih =>
    rw [List.flatMap_cons, deltaText_append, h e List.mem_cons_self,
      ih fun e' he' => h e' (List.mem_cons_of_mem _ he')]
    rfl

/-! ### `stream_with_retry` over a driver -/

/-- The servers behind a driver, and what has been exchanged with them. -/
structure Served (τ : Type) where
  servers : τ
  exchanges : List Exchange := []

section Driven

open LoopRun

variable {σ τ α : Type}

/-- A function of the rest of the world. -/
def besides (f : σ → α × σ) (s : σ × Served τ) : α × (σ × Served τ) :=
  ((f s.1).1, ((f s.1).2, s.2))

/-- The world whose driver is `driver`: it is asked by `stream`. -/
def driven (w : World σ) (driver : Driver τ) : World (σ × Served τ) where
  toLowercase := w.toLowercase
  isAlphanumeric := w.isAlphanumeric
  sha256 := w.sha256
  parseJson := w.parseJson
  now := besides w.now
  recallMemories query := besides (w.recallMemories query)
  remember text := Prod.map (w.remember text) id
  fire event data := besides (w.fire event data)
  cooldown provider := besides (w.cooldown provider)
  recordSuccess provider := Prod.map (w.recordSuccess provider) id
  recordFailure provider isBilling := Prod.map (w.recordFailure provider isBilling) id
  answer request s :=
    let call := driver.stream request s.2.servers
    (call.result, (s.1, ⟨call.servers, s.2.exchanges ++ call.exchanges⟩))
  sent request s := (driver.stream request s.2.servers).events
  newIds := besides w.newIds
  executeTool toolCall := besides (w.executeTool toolCall)
  progress toolCall s := w.progress toolCall s.1
  saveSession session := besides (w.saveSession session)
  setSessionLabel sessionId label := besides (w.setSessionLabel sessionId label)

/-- `t'` is `t` after some attempts, the last of which gave the response if there is one. -/
def Sent (t : Trace (σ × Served τ)) (response : Option CompletionResponse)
    (t' : Trace (σ × Served τ)) : Prop :=
  ∃ exchanges, Answered exchanges response ∧
    t'.events = t.events ++ exchanges.flatMap Exchange.events ∧
    t'.world.2.exchanges = t.world.2.exchanges ++ exchanges

variable {w : World σ} {driver : Driver τ} {t : Trace (σ × Served τ)}

theorem Sent.refl (t : Trace (σ × Served τ)) : Sent t none t :=
  ⟨[], .nil, (List.append_nil _).symm, (List.append_nil _).symm⟩

theorem stream_sent (hdriver : Stack driver) (request : LlmDriver.CompletionRequest) :
    Ensures (Sent t none) (stream (driven w driver) request)
      (fun result => Sent t result.toOption) fun _ _ => True := by
  refine .modifyGet _ fun t' h => ?_
  obtain ⟨exchanges, hanswered, hevents, hexchanges⟩ := h
  refine ⟨exchanges ++ (driver.stream request t'.world.2.servers).exchanges,
    hanswered.append (hdriver.stream_answered request _), ?_, ?_⟩
  · show t'.events ++ _ = _
    rw [hevents, List.flatMap_append, List.append_assoc]
    rfl
  · show t'.world.2.exchanges ++ _ = _
    rw [hexchanges, List.append_assoc]

theorem giveUp_sent {P : Trace (σ × Served τ) → Prop}
    {Q : CompletionResponse → Trace (σ × Served τ) → Prop} (provider message : String)
    (isBilling : Bool) :
    Ensures P (giveUp (driven w driver) provider isBilling message) Q fun _ _ => True :=
  .bind (.modify _ fun _ _ => trivial) fun _ => .throw (P := fun _ => True) _ fun _ _ => trivial

theorem afterStream_sent {provider : String}
    {again : Option (LoopRun.Run (σ × Served τ) CompletionResponse)}
    (hagain : ∀ x ∈ again, Ensures (Sent t none) x (fun response => Sent t (some response))
      fun _ _ => True) (result : Except LlmError CompletionResponse) :
    Ensures (Sent t result.toOption) (afterStream (driven w driver) provider again result)
      (fun response => Sent t (some response)) fun _ _ => True := by
  have hretry : ∀ (x : Option (LoopRun.Run (σ × Served τ) CompletionResponse))
      (isBilling : Bool) (message : String), (∀ y ∈ x, y ∈ again) →
      Ensures (Sent t none) (x.getD (giveUp (driven w driver) provider isBilling message))
        (fun response => Sent t (some response)) fun _ _ => True := by
    intro x isBilling message hx
    cases x with
    | none => exact giveUp_sent provider message isBilling
    | some y => exact hagain y (hx y rfl)
  cases result with
  | ok response =>
    refine .bind (.modify (S := Sent t (some response)) _ fun t' h => h) fun _ => ?_
    exact .pure response fun _ h => h
  | error e =>
    cases e
    case rateLimited => exact hretry again _ _ fun _ h => h
    case overloaded => exact hretry again _ _ fun _ h => h
    all_goals
      refine hretry _ _ _ fun y hy => ?_
      split_ifs at hy
      · exact hy
      · cases hy

theorem streamAttempts_sent (hdriver : Stack driver) (provider : String)
    (request : LlmDriver.CompletionRequest) (retries : ℕ) :
    Ensures (Sent t none) (streamAttempts (driven w driver) provider request retries)
      (fun response => Sent t (some response)) fun _ _ => True := by
  induction retries with
  | zero =>
    exact (stream_sent hdriver request).bind (afterStream_sent fun x hx => by cases hx)
  | succ retries ih =>
    refine (stream_sent hdriver request).bind (afterStream_sent fun x hx => ?_)
    obtain rfl := Option.some.inj hx
    exact ih

theorem streamWithRetry_sent (hdriver : Stack driver) (provider : String)
    (request : LlmDriver.CompletionRequest) :
    Ensures (Sent t none) (streamWithRetry (driven w driver) provider request)
      (fun response => Sent t (some response)) fun _ _ => True := by
  refine .bind (Q := fun _ => Sent t none) (.modifyGet _ fun _ h => h) fun verdict => ?_
  cases verdict with
  | allow => exact streamAttempts_sent hdriver provider request maxRetries
  | allowProbe => exact streamAttempts_sent hdriver provider request maxRetries
  | reject reason retryAfterSecs => exact .throw _ fun _ _ => trivial

/-- What a call of `stream_with_retry` has sent is the text of its response, and nothing of it comes
from a failed attempt, if and only if no reply but the last shows text, and the text of the last is
that of its response. -/
theorem streamWithRetry_sends_iff (hdriver : Stack driver) (provider : String)
    (request : LlmDriver.CompletionRequest) {response : CompletionResponse}
    {t' : Trace (σ × Served τ)}
    (h : run (streamWithRetry (driven w driver) provider request) t = (.ok response, t')) :
    ∃ failed last,
      t'.world.2.exchanges = t.world.2.exchanges ++ (failed ++ [last]) ∧
      t'.events = t.events ++ (failed ++ [last]).flatMap Exchange.events ∧
      (deltaText ((failed ++ [last]).flatMap Exchange.events) = response.text ∧
          (∀ e ∈ failed, deltaText e.events = "") ↔
        (∀ e ∈ failed, e.visible = "") ∧ last.Honest) := by
  obtain ⟨exchanges, hanswered, hevents, hexchanges⟩ :=
    (streamWithRetry_sent hdriver provider request).ok t response t' (.refl t) h
  obtain ⟨failed, last, rfl, hfailed, hlast⟩ := hanswered.split
  have hvisible : (∀ e ∈ failed, deltaText e.events = "") ↔ ∀ e ∈ failed, e.visible = "" :=
    forall₂_congr fun e he => by
      obtain ⟨o, ho⟩ := hfailed e he
      rw [ho.sent]
  refine ⟨failed, last, hexchanges, hevents, ?_⟩
  rw [hvisible, and_comm, and_congr_right_iff, ← hlast.text rfl]
  intro hquiet
  have hnothing := deltaText_flatMap (hvisible.2 hquiet)
  rw [List.flatMap_append, deltaText_append, hnothing, List.flatMap_singleton, hlast.sent]
  exact (Eq.congr_left (String.empty_append ..)).trans eq_comm

/-! ### A stream that breaks off -/

/-- A trace after a call. -/
def afterCall (t : Trace (σ × Served τ)) (request : LlmDriver.CompletionRequest) (call : Call τ) :
    Trace (σ × Served τ) :=
  { t with
    world := (t.world.1, ⟨call.servers, t.world.2.exchanges ++ call.exchanges⟩)
    requests := t.requests ++ [request]
    events := t.events ++ call.events }

/-- An attempt that is rate limited is followed by the next. -/
theorem run_streamAttempts_limited {request : LlmDriver.CompletionRequest} {call : Call τ} {ms : ℕ}
    (hcall : driver.stream request t.world.2.servers = call)
    (hresult : call.result = .error (.rateLimited ms)) (provider : String) (retries : ℕ) :
    run (streamAttempts (driven w driver) provider request (retries + 1)) t =
      run (streamAttempts (driven w driver) provider request retries)
        (afterCall t request call) := by
  have hstream : run (stream (driven w driver) request) t =
      (.ok call.result, afterCall t request call) := by
    rw [← hcall]
    rfl
  rw [streamAttempts, run_bind_of_ok hstream, hresult]
  rfl

/-- An attempt that succeeds is the last. -/
theorem run_streamAttempts_ok {request : LlmDriver.CompletionRequest} {call : Call τ}
    {response : CompletionResponse} (hcall : driver.stream request t.world.2.servers = call)
    (hresult : call.result = .ok response) (provider : String) (retries : ℕ) :
    run (streamAttempts (driven w driver) provider request retries) t =
      (.ok response, { afterCall t request call with
        world := (driven w driver).recordSuccess provider (afterCall t request call).world }) := by
  have hstream : run (stream (driven w driver) request) t =
      (.ok call.result, afterCall t request call) := by
    rw [← hcall]
    rfl
  cases retries <;>
  · rw [streamAttempts, run_bind_of_ok hstream, hresult]
    rfl

end Driven

section BreakingOff

open LoopRun

/-- An event with some text. -/
def contentEvent (text : String) : String :=
  "\x7b\"choices\":[\x7b\"delta\":\x7b\"content\":\"" ++ text ++ "\"\x7d\x7d]\x7d"

/-- An event that breaks a stream off. -/
def limitEvent : String :=
  "\x7b\"error\":\x7b\"type\":\"rate_limit_error\",\"message\":\"slow down\"\x7d\x7d"

/-- The value of `contentEvent text`. -/
def contentJson (text : String) : Json :=
  .object [("choices", .array [.object [("delta", .object [("content", .string text)])]])]

/-- The reading of these events. -/
def helloSerde : OpenAI.Serde where
  parse s :=
    if s = contentEvent "Hel" then .ok (contentJson "Hel")
    else if s = contentEvent "Hello" then .ok (contentJson "Hello")
    else if s = limitEvent then
      .ok (.object [("error",
        .object [("type", .string "rate_limit_error"), ("message", .string "slow down")])])
    else .error "expected value"
  oaiResponse _ := .error "expected value"

/-- The body of a stream with some events. -/
def sse (events : List String) : Body := events.map fun event => .ok ("data: " ++ event ++ "\n")

/-- The reply to the first request, and to the next. -/
def helloReply : ℕ → Reply
  | 0 => .replied 200 (sse [contentEvent "Hel", limitEvent])
  | _ => .replied 200 (sse [contentEvent "Hello"])

/-- Servers that break off their first stream. -/
def breakingOff : Driver ℕ := OpenAI.driver (fun _ _ _ n => (helloReply n, n + 1)) helloSerde

/-- Nothing has happened. -/
def fresh : Trace (ℕ × Served ℕ) where
  world := (0, ⟨0, []⟩)
  session := ⟨1, 1, [], 0, none⟩

/-- A world in which only the driver matters. -/
def around : World ℕ := World.scripted fun _ => .error (.http "")

/-- A question. -/
def sayHello : LlmDriver.CompletionRequest :=
  ⟨"model", [.user "hi"], [], 100, 0, none, none, .text⟩

theorem contentEvent_eq (text : String) : contentEvent text = String.ofList ('\x7b' ::
    ("\"choices\":[\x7b\"delta\":\x7b\"content\":\"".toList ++
      (text.toList ++ "\"\x7d\x7d]".toList) ++ ['\x7d'])) := by
  refine String.toList_inj.1 (String.toList_append.trans ?_)
  refine (congrArg (· ++ _) String.toList_append).trans ?_
  rw [String.toList_ofList, String.toList_ofList, String.toList_ofList, String.toList_ofList,
    String.toList_ofList, List.append_assoc, List.append_assoc, List.append_assoc]
  rfl

/-- A body that begins with some text. -/
theorem read_contentEvent {text : String}
    (h : helloSerde.parse (contentEvent text) = .ok (contentJson text))
    (hline : '\n' ∉ text.toList) (st : OpenAI.StreamState) (body : Body) :
    read takeLines (OpenAI.readLine helloSerde.parse) OpenAI.StreamState.step st []
        (sse [contentEvent text] ++ body) =
      read takeLines (OpenAI.readLine helloSerde.parse) OpenAI.StreamState.step
        (st.delta ⟨none, some text, [], none⟩) [] body := by
  rw [sse, List.map_singleton, List.singleton_append, OpenAI.read_cons (contentEvent_eq _) h]
  · rfl
  · rw [String.toList_ofList, String.toList_ofList (l := ['\"', '\x7d', '\x7d', ']'])]
    simp [hline]

theorem breakingOff_first : breakingOff.stream sayHello 0 =
    ⟨.error (.rateLimited 5000), [⟨.openAI helloSerde.parse, helloReply 0, [.textDelta "Hel"]⟩],
      1⟩ := by
  have hcontent : helloSerde.parse (contentEvent "Hel") = .ok (contentJson "Hel") := by
    simp [helloSerde]
  have hlimit : helloSerde.parse limitEvent = .ok (.object [("error",
      .object [("type", .string "rate_limit_error"), ("message", .string "slow down")])]) := by
    decide
  have hevent : limitEvent = String.ofList ('\x7b' ::
      ("\"error\":\x7b\"type\":\"rate_limit_error\",\"message\":\"slow down\"\x7d".toList ++
        ['\x7d'])) := by
    rw [String.toList_ofList]
    rfl
  have hread : OpenAI.StreamState.read helloSerde (sse [contentEvent "Hel"] ++ sse [limitEvent]) =
      (({} : OpenAI.StreamState).delta ⟨none, some "Hel", [], none⟩,
        some (.rateLimited 5000)) := by
    rw [OpenAI.StreamState.read, read_contentEvent hcontent (by decide), sse, List.map_singleton,
      OpenAI.read_cons hevent hlimit]
    · rfl
    · rw [String.toList_ofList]
      decide
  have hreply : helloReply 0 = .replied 200 (sse [contentEvent "Hel"] ++ sse [limitEvent]) := rfl
  have hattempt : OpenAI.attempt helloSerde true maxRetries 100 (helloReply 0) =
      ((.fail (.rateLimited 5000), 100), [.textDelta "Hel"]) := by
    rw [OpenAI.attempt, if_pos rfl, hreply, OpenAI.streamReply, if_pos (by decide),
      OpenAI.readStream, hread]
    rfl
  exact retry_of_fail hattempt

theorem breakingOff_second : breakingOff.stream sayHello 1 =
    ⟨.ok ⟨[.text "Hello"], .endTurn, [], ⟨0, 0⟩⟩,
      [⟨.openAI helloSerde.parse, helloReply 1,
        [.textDelta "Hello", .contentComplete .endTurn ⟨0, 0⟩]⟩], 2⟩ := by
  have hcontent : helloSerde.parse (contentEvent "Hello") = .ok (contentJson "Hello") := by
    decide
  have hread : OpenAI.StreamState.read helloSerde (sse [contentEvent "Hello"]) =
      (({} : OpenAI.StreamState).delta ⟨none, some "Hello", [], none⟩, none) :=
    read_contentEvent hcontent (by decide) {} []
  have hreply : helloReply 1 = .replied 200 (sse [contentEvent "Hello"]) := rfl
  have hattempt : OpenAI.attempt helloSerde true maxRetries 100 (helloReply 1) =
      ((.done ⟨[.text "Hello"], .endTurn, [], ⟨0, 0⟩⟩, 100),
        [.textDelta "Hello", .contentComplete .endTurn ⟨0, 0⟩]) := by
    rw [OpenAI.attempt, if_pos rfl, hreply, OpenAI.streamReply, if_pos (by decide),
      OpenAI.readStream, hread]
    rfl
  exact retry_of_done hattempt

/-- The response says `"Hello"`, and `"HelHello"` has been sent. -/
theorem run_breakingOff : ∃ t',
    run (streamWithRetry (driven around breakingOff) "provider" sayHello) fresh =
        (.ok ⟨[.text "Hello"], .endTurn, [], ⟨0, 0⟩⟩, t') ∧
      t'.events = [.textDelta "Hel", .textDelta "Hello", .contentComplete .endTurn ⟨0, 0⟩] := by
  have hfirst := run_streamAttempts_limited (w := around) (t := fresh) breakingOff_first rfl
    "provider" 2
  exact ⟨_, hfirst.trans (run_streamAttempts_ok breakingOff_second rfl "provider" 2), rfl⟩

/-- The text that was sent is that of the response if and only if the replies show nothing else. -/
theorem streamWithRetry_sends_breakingOff : ∃ t',
    run (streamWithRetry (driven around breakingOff) "provider" sayHello) fresh =
        (.ok ⟨[.text "Hello"], .endTurn, [], ⟨0, 0⟩⟩, t') ∧
      ∃ failed last,
        t'.world.2.exchanges = fresh.world.2.exchanges ++ (failed ++ [last]) ∧
        t'.events = fresh.events ++ (failed ++ [last]).flatMap Exchange.events ∧
        (deltaText ((failed ++ [last]).flatMap Exchange.events) = "Hello" ∧
            (∀ e ∈ failed, deltaText e.events = "") ↔
          (∀ e ∈ failed, e.visible = "") ∧ last.Honest) := by
  obtain ⟨t', hrun, -⟩ := run_breakingOff
  exact ⟨t', hrun, streamWithRetry_sends_iff (.openAI _ _) "provider" sayHello hrun⟩

/-- What a stream has sent before it broke off stays in front of the response. -/
theorem streamWithRetry_sends_fails :
    ¬ ∀ (driver : Driver ℕ), Stack driver → ∀ provider request response t' sent,
      run (streamWithRetry (driven around driver) provider request) fresh = (.ok response, t') →
      t'.events = fresh.events ++ sent → deltaText sent = response.text := by
  intro hall
  obtain ⟨t', hrun, hevents⟩ := run_breakingOff
  have htext := hall breakingOff (.openAI _ _) _ _ _ _ _ hrun hevents
  revert htext
  decide

end BreakingOff

end Drivers
end RustyHand
