import RustyHand.Drivers.AnthropicStream
import RustyHand.Drivers.OpenAIStream

/-!
# Calls and blocks of a response

The agent loop executes the `tool_calls` of a response and stores its `content`; it relies on the
first being the `ToolUse` blocks of the second.  The drivers build the two lists side by side,
except for a response that is recovered from a `tool_use_failed` body: it has calls and no blocks.

* `RecoversCalls`: such a reply;
* `toolUses_eq_toolCalls_iff`: the calls are the blocks if and only if there is none.
-/

namespace RustyHand
namespace Drivers

open LlmDriver

variable {σ : Type}

/-- The two protocols, with their servers. -/
inductive Protocol (σ : Type)
  | openAI (serde : OpenAI.Serde) (post : LlmDriver.CompletionRequest → Bool → ℕ → σ → Reply × σ)
  | anthropic (serde : Anthropic.Serde) (post : LlmDriver.CompletionRequest → Bool → σ → Reply × σ)

/-- The driver of a protocol. -/
def Protocol.driver : Protocol σ → Driver σ
  | openAI serde post => OpenAI.driver post serde
  | anthropic serde post => Anthropic.driver post serde

/-- The reply refuses a `tool_use_failed` generation that holds a `<function=…>` call, each of them
closed. -/
def RecoversCalls (serde : OpenAI.Serde) : Reply → Prop
  | .failed _ => False
  | .replied status body =>
    status = 400 ∧ Text.containsText (readOrExplain body) "tool_use_failed" = true ∧
      ∃ failed, OpenAI.failedGeneration serde.parse (readOrExplain body) = some failed ∧
        ∃ toolCalls, OpenAI.failedCalls serde.parse failed.length failed.toList [] =
            some toolCalls ∧
          toolCalls ≠ []

/-- The reply makes the driver of the protocol recover calls. -/
def Protocol.Recovers : Protocol σ → Reply → Prop
  | openAI serde _, reply => RecoversCalls serde reply
  | anthropic _ _, _ => False

/-! ### Responses of the OpenAI driver -/

section OpenAI

open OpenAI

variable {serde : OpenAI.Serde}

theorem filterMap_blockCall?_thinking (s : List Char) :
    (thinkingBlock s).filterMap blockCall? = [] := by
  unfold thinkingBlock
  split_ifs <;> rfl

theorem toolUses_convertChoice (choice : OaiChoice) (usage : Option OaiUsage) :
    (convertChoice serde choice usage).toolUses = (convertChoice serde choice usage).toolCalls := by
  have htext : ∀ text, (textBlocks text).filterMap blockCall? = [] := by
    intro text
    rw [textBlocks, List.filterMap_append, filterMap_blockCall?_thinking]
    split_ifs <;> rfl
  unfold CompletionResponse.toolUses convertChoice
  simp only [List.filterMap_append, filterMap_blockCall?_thinking, htext,
    filterMap_blockCall?_block, List.nil_append]

theorem toolUses_streamResponse (st : OpenAI.StreamState) :
    (st.response serde).toolUses = (st.response serde).toolCalls := by
  have htext : ((if st.text = [] then [] else [ContentBlock.text (String.ofList st.text)]) :
      List ContentBlock).filterMap blockCall? = [] := by
    split_ifs <;> rfl
  unfold CompletionResponse.toolUses OpenAI.StreamState.response
  simp only [List.filterMap_append, filterMap_blockCall?_thinking, htext,
    filterMap_blockCall?_block, List.nil_append]

/-- A recovered response has its calls in its content only when it has none. -/
theorem toolUses_parseGroq {body : String} {response : CompletionResponse}
    (h : parseGroqFailedToolCall serde body = some response) :
    response.toolUses = response.toolCalls ↔
      ¬ ∃ failed, failedGeneration serde.parse body = some failed ∧
        ∃ toolCalls, failedCalls serde.parse failed.length failed.toList [] = some toolCalls ∧
          toolCalls ≠ [] := by
  obtain ⟨failed, toolCalls, hfailed, hcalls, hresponse⟩ := parseGroq_some h
  have hex : (∃ failed, failedGeneration serde.parse body = some failed ∧
      ∃ toolCalls, failedCalls serde.parse failed.length failed.toList [] = some toolCalls ∧
        toolCalls ≠ []) ↔ toolCalls ≠ [] := by
    constructor
    · rintro ⟨failed', hfailed', toolCalls', hcalls', hne⟩
      obtain rfl : failed = failed' := Option.some.inj (hfailed.symm.trans hfailed')
      obtain rfl : toolCalls = toolCalls' := Option.some.inj (hcalls.symm.trans hcalls')
      exact hne
    · exact fun hne => ⟨failed, hfailed, toolCalls, hcalls, hne⟩
  rw [hex, not_not]
  obtain ⟨hnil, -, rfl⟩ | ⟨-, rfl⟩ := hresponse
  · exact ⟨fun _ => hnil, fun _ => rfl⟩
  · exact eq_comm

/-- A refusal that is recovered, or is not. -/
theorem refused_does (status : ℕ) (body : Body) (n maxTokens : ℕ) :
    (∀ response, (refused serde status (readOrExplain body) n maxTokens).1 = .done response →
        (response.toolUses = response.toolCalls ↔
          ¬ RecoversCalls serde (.replied status body))) ∧
      ((refused serde status (readOrExplain body) n maxTokens).1 = .again →
        ¬ RecoversCalls serde (.replied status body)) := by
  by_cases hfailed : status = 400 ∧ Text.containsText (readOrExplain body) "tool_use_failed" = true
  · obtain ⟨hstatus, hcontains⟩ := hfailed
    have hiff : RecoversCalls serde (.replied status body) ↔
        ∃ failed, failedGeneration serde.parse (readOrExplain body) = some failed ∧
          ∃ toolCalls, failedCalls serde.parse failed.length failed.toList [] = some toolCalls ∧
            toolCalls ≠ [] := ⟨fun h => h.2.2, fun h => ⟨hstatus, hcontains, h⟩⟩
    rw [hiff]
    unfold refused
    simp only [hstatus, hcontains, decide_true, Bool.and_self, if_true]
    cases hparse : parseGroqFailedToolCall serde (readOrExplain body) with
    | some response =>
      refine ⟨fun response' h => ?_, fun h => by simp at h⟩
      obtain rfl : response = response' := by simpa using h
      exact toolUses_parseGroq hparse
    | none =>
      dsimp only
      refine ⟨fun response h => ?_, fun _ hrecovers => ?_⟩
      · split_ifs at h
      · -- with calls in it the body would have been recovered
        obtain ⟨failed, hfailed, toolCalls, hcalls, hne⟩ := hrecovers
        have hnil : toolCalls.isEmpty = false := List.isEmpty_eq_false_iff.2 hne
        rw [parseGroqFailedToolCall, hfailed, Option.bind_eq_bind, Option.bind_some, hcalls,
          Option.bind_eq_bind, Option.bind_some, hnil] at hparse
        simp at hparse
  · have hnot : ¬ RecoversCalls serde (.replied status body) := fun h => hfailed ⟨h.1, h.2.1⟩
    refine ⟨fun response h => ?_, fun _ => hnot⟩
    have hbool : (decide (status = 400) &&
        Text.containsText (readOrExplain body) "tool_use_failed") = false := by
      rw [← Bool.not_eq_true, Bool.and_eq_true, decide_eq_true_eq]
      exact hfailed
    unfold refused at h
    simp only [hbool, Bool.false_eq_true, if_false, Bool.false_and] at h
    split_ifs at h

theorem notSuccess_does (status : ℕ) (body : Body) (n maxTokens : ℕ) :
    (∀ response, (OpenAI.notSuccess serde status body n maxTokens).1 = .done response →
        (response.toolUses = response.toolCalls ↔
          ¬ RecoversCalls serde (.replied status body))) ∧
      ((OpenAI.notSuccess serde status body n maxTokens).1 = .again →
        ¬ RecoversCalls serde (.replied status body)) := by
  unfold OpenAI.notSuccess
  split_ifs with hlimited hmore
  · refine ⟨fun response h => by simp at h, fun _ hrecovers => ?_⟩
    have := hrecovers.1
    omega
  · exact ⟨fun response h => by simp at h, fun h => by simp at h⟩
  · exact refused_does status body n maxTokens

/-- One attempt: a response whose calls are its blocks unless the reply makes the driver recover
calls, and another attempt only if it does not. -/
theorem openAI_attempt_does (streaming : Bool) (n maxTokens : ℕ) (reply : Reply) :
    (∀ response, (OpenAI.attempt serde streaming n maxTokens reply).1.1 = .done response →
        (response.toolUses = response.toolCalls ↔ ¬ RecoversCalls serde reply)) ∧
      ((OpenAI.attempt serde streaming n maxTokens reply).1.1 = .again →
        ¬ RecoversCalls serde reply) := by
  cases reply with
  | failed message =>
    exact ⟨fun response h => by cases streaming <;> simp [OpenAI.attempt, streamReply,
      OpenAI.completeReply] at h, fun _ h => h⟩
  | replied status body =>
    by_cases hsuccess : isSuccess status = true
    · -- no success has the status of a refusal
      have hnot : ¬ RecoversCalls serde (.replied status body) := by
        rintro ⟨rfl, -⟩
        simp [isSuccess] at hsuccess
      refine ⟨fun response h => ⟨fun _ => hnot, fun _ => ?_⟩, fun _ => hnot⟩
      cases streaming with
      | true =>
        simp only [OpenAI.attempt, if_true, OpenAI.streamReply, hsuccess, OpenAI.readStream] at h
        split at h
        · simp at h
        · split_ifs at h
          obtain rfl : _ = response := Outcome.done.inj h
          exact toolUses_streamResponse _
      | false =>
        simp only [OpenAI.attempt, Bool.false_eq_true, if_false, OpenAI.completeReply, hsuccess,
          if_true, convertBody] at h
        cases htext : readText body with
        | error e => simp [htext] at h
        | ok text =>
          cases hresponse : serde.oaiResponse text with
          | error e => simp [htext, hresponse] at h
          | ok oai =>
            cases hchoices : oai.choices with
            | nil => simp [htext, hresponse, hchoices] at h
            | cons choice choices =>
              simp only [htext, hresponse, hchoices] at h
              obtain rfl : _ = response := Outcome.done.inj h
              exact toolUses_convertChoice choice oai.usage
    · have hfalse : isSuccess status = false := by simpa using hsuccess
      cases streaming with
      | true =>
        simp only [OpenAI.attempt, if_true, OpenAI.streamReply, hfalse, Bool.false_eq_true,
          if_false]
        exact notSuccess_does status body n maxTokens
      | false =>
        simp only [OpenAI.attempt, OpenAI.completeReply, hfalse, Bool.false_eq_true, if_false]
        exact notSuccess_does status body n maxTokens

end OpenAI

/-! ### Responses of the Anthropic driver -/

section Anthropic

open Anthropic

variable {serde : Anthropic.Serde}

theorem toolUses_convertResponse (api : ApiResponse) :
    (convertResponse api).toolUses = (convertResponse api).toolCalls := by
  unfold CompletionResponse.toolUses convertResponse
  rw [List.filterMap_map]
  refine List.filterMap_congr fun b _ => ?_
  cases b <;> rfl

theorem toolUses_anthropicStream (st : Anthropic.StreamState) :
    (st.response serde).toolUses = (st.response serde).toolCalls := by
  unfold CompletionResponse.toolUses Anthropic.StreamState.response
  rw [List.filterMap_map]
  refine List.filterMap_congr fun b _ => ?_
  cases b <;> rfl

theorem anthropic_attempt_done {streaming : Bool} {n : ℕ} {reply : Reply}
    {response : CompletionResponse}
    (h : (Anthropic.attempt serde streaming n () reply).1.1 = .done response) :
    response.toolUses = response.toolCalls := by
  have hnot : ∀ status body, Anthropic.notSuccess serde status body n ≠ .done response := by
    intro status body
    unfold Anthropic.notSuccess
    split_ifs <;> simp
  cases reply with
  | failed message =>
    cases streaming <;> simp [Anthropic.attempt, Anthropic.streamReply,
        Anthropic.completeReply] at h
  | replied status body =>
    cases streaming with
    | true =>
      simp only [Anthropic.attempt, if_true, Anthropic.streamReply] at h
      split_ifs at h
      · simp only [Anthropic.readStream] at h
        split at h
        · simp at h
        · split_ifs at h
          obtain rfl : _ = response := Outcome.done.inj h
          exact toolUses_anthropicStream _
      · exact absurd h (hnot status body)
    | false =>
      simp only [Anthropic.attempt, Bool.false_eq_true, if_false, Anthropic.completeReply] at h
      split_ifs at h
      · cases htext : readText body with
        | error e => simp [htext] at h
        | ok text =>
          cases hresponse : serde.apiResponse text with
          | error e => simp [htext, hresponse] at h
          | ok api =>
            simp only [htext, hresponse] at h
            obtain rfl : _ = response := Outcome.done.inj h
            exact toolUses_convertResponse api
      · exact absurd h (hnot status body)

end Anthropic

/-! ### Calls -/

/-- The attempts of a call get no reply from which calls are recovered before the last one. -/
theorem tried_toolUses_iff {π : Type} {wire : Wire}
    {attempt : ℕ → π → Reply → (Outcome × π) × List StreamEvent} {Recovers : Reply → Prop}
    (hdone : ∀ n setting reply response, (attempt n setting reply).1.1 = .done response →
      (response.toolUses = response.toolCalls ↔ ¬ Recovers reply))
    (hagain : ∀ n setting reply, (attempt n setting reply).1.1 = .again → ¬ Recovers reply)
    {n : ℕ} {setting : π} {exchanges : List Exchange}
    {result : Except LlmError CompletionResponse}
    (htried : Tried wire attempt n setting exchanges result) {response : CompletionResponse}
    (hok : result = .ok response) :
    response.toolUses = response.toolCalls ↔ ∀ x ∈ exchanges, ¬ Recovers x.reply := by
  induction htried with
  | done h =>
    obtain rfl := Except.ok.inj hok
    rw [List.forall_mem_singleton]
    exact hdone _ _ _ _ (by rw [h])
  | fail h => cases hok
  | spent h => cases hok
  | again h hrest ih =>
    rw [List.forall_mem_cons, ih hok]
    exact ⟨fun hall => ⟨hagain _ _ _ (by rw [h]), hall⟩, And.right⟩

/-- **The calls of a response are the `ToolUse` blocks of its content**, with both drivers and both
ways to call them, if and only if no reply makes the driver recover calls from a `tool_use_failed`
body. -/
theorem toolUses_eq_toolCalls_iff (protocol : Protocol σ) (request : LlmDriver.CompletionRequest)
    (servers : σ) :
    (∀ response, (protocol.driver.complete request servers).result = .ok response →
      (response.toolUses = response.toolCalls ↔
        ∀ x ∈ (protocol.driver.complete request servers).exchanges,
          ¬ protocol.Recovers x.reply)) ∧
    ∀ response, (protocol.driver.stream request servers).result = .ok response →
      (response.toolUses = response.toolCalls ↔
        ∀ x ∈ (protocol.driver.stream request servers).exchanges,
          ¬ protocol.Recovers x.reply) := by
  cases protocol with
  | openAI serde post =>
    have hcall : ∀ streaming response,
        (OpenAI.call post serde streaming request servers).result = .ok response →
        (response.toolUses = response.toolCalls ↔
          ∀ x ∈ (OpenAI.call post serde streaming request servers).exchanges,
            ¬ RecoversCalls serde x.reply) := by
      intro streaming response hok
      exact tried_toolUses_iff (fun n setting reply => (openAI_attempt_does streaming n setting
        reply).1) (fun n setting reply => (openAI_attempt_does streaming n setting reply).2)
        (retry_tried _ _ _ _ _ _) hok
    exact ⟨hcall false, hcall true⟩
  | anthropic serde post =>
    have hcall : ∀ streaming response,
        (Anthropic.call post serde streaming request servers).result = .ok response →
        (response.toolUses = response.toolCalls ↔
          ∀ x ∈ (Anthropic.call post serde streaming request servers).exchanges,
            ¬ Protocol.Recovers (.anthropic serde post) x.reply) := by
      intro streaming response hok
      exact tried_toolUses_iff
        (fun n _ reply response h => iff_of_true (anthropic_attempt_done h) id)
        (fun _ _ _ _ h => h) (retry_tried _ _ _ _ _ _) hok
    exact ⟨hcall false, hcall true⟩

/-! ### A recovered call -/

/-- A `tool_use_failed` body. -/
def failedBody : String :=
  "\x7b\"error\":\x7b\"code\":\"tool_use_failed\"," ++
    "\"failed_generation\":\"<function=search></function>\"\x7d\x7d"

/-- The reading of this body, and of the arguments that stand for none. -/
def failedSerde : OpenAI.Serde where
  parse s :=
    if s = failedBody then
      .ok (.object [("error", .object [("code", .string "tool_use_failed"),
        ("failed_generation", .string "<function=search></function>")])])
    else if s = "\x7b\x7d" then .ok (.object [])
    else .error "expected value"
  oaiResponse _ := .error "expected value"

/-- A server that refuses with this body. -/
def refusing : Protocol Unit :=
  .openAI failedSerde fun _ _ _ servers => (.replied 400 [.ok failedBody], servers)

theorem parse_failedBody : OpenAI.parseGroqFailedToolCall failedSerde failedBody =
    some ⟨[], .toolUse, [⟨"groq_recovered_0", "search", .object []⟩], ⟨0, 0⟩⟩ := by
  have hfailed : OpenAI.failedGeneration failedSerde.parse failedBody =
      some "<function=search></function>" := by
    simp only [OpenAI.failedGeneration, failedSerde, if_pos]
    rfl
  have hcalls : OpenAI.failedCalls failedSerde.parse "<function=search></function>".length
      "<function=search></function>".toList [] =
      some [⟨"groq_recovered_0", "search", .object []⟩] := by
    rw [← String.length_toList, String.toList_ofList]
    rfl
  rw [OpenAI.parseGroqFailedToolCall, hfailed, Option.bind_eq_bind, Option.bind_some, hcalls]
  rfl

/-- The response has a call, and no block for it. -/
theorem complete_refusing (request : LlmDriver.CompletionRequest) :
    (refusing.driver.complete request ()).result =
      .ok ⟨[], .toolUse, [⟨"groq_recovered_0", "search", .object []⟩], ⟨0, 0⟩⟩ := by
  have hbody : readOrExplain [.ok failedBody] = failedBody := String.append_empty
  have hlist : failedBody.toList = _ := String.toList_append
  have hnamed : Text.containsText failedBody "tool_use_failed" = true := by
    rw [Text.containsText, hlist, String.toList_ofList, String.toList_ofList,
      String.toList_ofList]
    decide
  have hrefused : OpenAI.refused failedSerde 400 failedBody maxRetries request.maxTokens =
      (.done ⟨[], .toolUse, [⟨"groq_recovered_0", "search", .object []⟩], ⟨0, 0⟩⟩,
        request.maxTokens) := by
    rw [OpenAI.refused, hnamed, parse_failedBody]
    rfl
  have hreply : OpenAI.completeReply failedSerde maxRetries request.maxTokens
      (.replied 400 [.ok failedBody]) =
      (.done ⟨[], .toolUse, [⟨"groq_recovered_0", "search", .object []⟩], ⟨0, 0⟩⟩,
        request.maxTokens) := by
    rw [OpenAI.completeReply, if_neg (by decide), OpenAI.notSuccess, if_neg (by decide), hbody,
      hrefused]
  have hattempt : OpenAI.attempt failedSerde false maxRetries request.maxTokens
      (.replied 400 [.ok failedBody]) =
      ((.done ⟨[], .toolUse, [⟨"groq_recovered_0", "search", .object []⟩], ⟨0, 0⟩⟩,
        request.maxTokens), []) := by
    rw [OpenAI.attempt, if_neg Bool.false_ne_true, hreply]
  exact congrArg Call.result (retry_of_done hattempt)

/-- A question to it. -/
def askHi : LlmDriver.CompletionRequest := ⟨"model", [.user "hi"], [], 100, 0, none, none, .text⟩

/-- The recovered response has its call in its content if and only if no reply made the driver
recover it. -/
theorem toolUses_eq_toolCalls_refusing :
    (⟨[], .toolUse, [⟨"groq_recovered_0", "search", .object []⟩], ⟨0, 0⟩⟩ :
        CompletionResponse).toolUses = [⟨"groq_recovered_0", "search", .object []⟩] ↔
      ∀ x ∈ (refusing.driver.complete askHi ()).exchanges, ¬ refusing.Recovers x.reply :=
  (toolUses_eq_toolCalls_iff refusing askHi ()).1 _ (complete_refusing askHi)

/-- The calls of a response that is recovered are not in its content. -/
theorem toolUses_eq_toolCalls_fails :
    ¬ ∀ (protocol : Protocol Unit) (request : LlmDriver.CompletionRequest)
        (response : CompletionResponse),
      (protocol.driver.complete request ()).result = .ok response →
      response.toolUses = response.toolCalls := by
  intro hall
  have := hall refusing askHi _ (complete_refusing _)
  cases this

end Drivers
end RustyHand
