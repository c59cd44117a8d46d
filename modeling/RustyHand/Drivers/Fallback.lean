import RustyHand.Drivers.Anthropic
import RustyHand.Drivers.OpenAI

/-!
# The fallback driver

`rusty-hand-runtime/src/drivers/fallback.rs`: a chain of drivers, tried one after the other.  The
chain goes on only from a driver that has sent nothing.

* `fallback`: the driver of a chain;
* `Stack`: the drivers that are built from the two protocols;
* `Stack.stream_answered`: a streamed call is a list of attempts, the last of which answers.
-/

namespace RustyHand
namespace Drivers

open LlmDriver

variable {σ : Type}

/-- The errors that are left to the retries of the agent loop. -/
def bubblesUp : LlmError → Bool
  | .rateLimited _ => true
  | .overloaded _ => true
  | _ => false

/-- The error of an empty chain. -/
def noDrivers : LlmError := .api 0 "No drivers configured in fallback chain"

/-- The loop of `complete`. -/
def completeChain (request : LlmDriver.CompletionRequest) :
    List (Driver σ) → Option LlmError → σ → Call σ
  | [], lastError, servers => ⟨.error (lastError.getD noDrivers), [], servers⟩
  | driver :: drivers, _, servers =>
    let call := driver.complete request servers
    match call.result with
    | .ok _ => call
    | .error e =>
      if bubblesUp e then call
      else (completeChain request drivers (some e) call.servers).after call.exchanges

/-- The loop of `stream`. -/
def streamChain (request : LlmDriver.CompletionRequest) :
    List (Driver σ) → Option LlmError → σ → Call σ
  | [], lastError, servers => ⟨.error (lastError.getD noDrivers), [], servers⟩
  | driver :: drivers, _, servers =>
    let call := driver.stream request servers
    match call.result with
    | .ok _ => call
    | .error e =>
      if bubblesUp e then call
      else if !call.events.isEmpty then call
      else (streamChain request drivers (some e) call.servers).after call.exchanges

/-- `FallbackDriver`. -/
def fallback (drivers : List (Driver σ)) : Driver σ where
  complete request := completeChain request drivers none
  stream request := streamChain request drivers none

/-- The drivers that are built from the two protocols. -/
inductive Stack : Driver σ → Prop
  | openAI (serde : OpenAI.Serde) (post : LlmDriver.CompletionRequest → Bool → ℕ → σ → Reply × σ) :
      Stack (OpenAI.driver post serde)
  | anthropic (serde : Anthropic.Serde)
      (post : LlmDriver.CompletionRequest → Bool → σ → Reply × σ) :
      Stack (Anthropic.driver post serde)
  | fallback {drivers : List (Driver σ)} (h : ∀ driver ∈ drivers, Stack driver) :
      Stack (Drivers.fallback drivers)

/-! ### The attempts of a streamed call -/

/-- An exchange of a streamed call, and what becomes of it. -/
inductive Attempted : Exchange → Outcome → Prop
  | openAI (serde : OpenAI.Serde) (n maxTokens : ℕ) (reply : Reply) :
      Attempted
        ⟨.openAI serde.parse, reply, (OpenAI.streamReply serde n maxTokens reply).2⟩
        (OpenAI.streamReply serde n maxTokens reply).1.1
  | anthropic (serde : Anthropic.Serde) (n : ℕ) (reply : Reply) :
      Attempted ⟨.anthropic serde.parse, reply, (Anthropic.streamReply serde n reply).2⟩
        (Anthropic.streamReply serde n reply).1

/-- Exchanges that are attempts, with the response of the last if there is one. -/
inductive Answered : List Exchange → Option CompletionResponse → Prop
  | nil : Answered [] none
  | last {e : Exchange} {response : CompletionResponse} (h : Attempted e (.done response)) :
      Answered [e] (some response)
  | more {e : Exchange} {o : Outcome} {exchanges : List Exchange}
      {response : Option CompletionResponse} (h : Attempted e o)
      (hrest : Answered exchanges response) : Answered (e :: exchanges) response

theorem Answered.append {exchanges exchanges' : List Exchange}
    {response : Option CompletionResponse} (h : Answered exchanges none)
    (h' : Answered exchanges' response) : Answered (exchanges ++ exchanges') response := by
  generalize hnone : (none : Option CompletionResponse) = failed at h
  induction h with
  | nil => exact h'
  | last h => cases hnone
  | more h hrest ih => exact .more h (ih hnone)

/-- The attempts of a driver, when each of them is one. -/
theorem Tried.answered {π : Type} {wire : Wire}
    {attempt : ℕ → π → Reply → (Outcome × π) × List StreamEvent}
    (hattempt : ∀ n setting reply,
      Attempted ⟨wire, reply, (attempt n setting reply).2⟩ (attempt n setting reply).1.1)
    {n : ℕ} {setting : π} {exchanges : List Exchange}
    {result : Except LlmError CompletionResponse}
    (h : Tried wire attempt n setting exchanges result) : Answered exchanges result.toOption := by
  have hattempt' : ∀ {n setting reply o setting' events},
      attempt n setting reply = ((o, setting'), events) → Attempted ⟨wire, reply, events⟩ o := by
    intro n setting reply o setting' events h
    have := hattempt n setting reply
    rwa [h] at this
  induction h with
  | done h => exact .last (hattempt' h)
  | fail h => exact .more (hattempt' h) .nil
  | spent h => exact .more (hattempt' h) .nil
  | again h _ ih => exact .more (hattempt' h) ih

theorem streamChain_answered (request : LlmDriver.CompletionRequest) {drivers : List (Driver σ)}
    (h : ∀ driver ∈ drivers, ∀ servers,
      Answered (driver.stream request servers).exchanges
        (driver.stream request servers).result.toOption)
    (lastError : Option LlmError) (servers : σ) :
    Answered (streamChain request drivers lastError servers).exchanges
      (streamChain request drivers lastError servers).result.toOption := by
  induction drivers generalizing lastError servers with
  | nil => exact .nil
  | cons driver drivers ih =>
    have hdriver := h driver List.mem_cons_self servers
    unfold streamChain
    dsimp only
    cases hresult : (driver.stream request servers).result with
    | ok response => exact hdriver
    | error e =>
      dsimp only
      split_ifs
      · exact hdriver
      · exact hdriver
      · rw [hresult] at hdriver
        exact hdriver.append (ih (fun d hd => h d (List.mem_cons_of_mem _ hd)) _ _)

/-- A streamed call is a list of attempts, and its response is that of the last. -/
theorem Stack.stream_answered {driver : Driver σ} (h : Stack driver)
    (request : LlmDriver.CompletionRequest) (servers : σ) :
    Answered (driver.stream request servers).exchanges
      (driver.stream request servers).result.toOption := by
  induction h generalizing servers with
  | openAI serde post =>
    exact (retry_tried _ _ _ _ _ _).answered fun n maxTokens reply =>
      .openAI serde n maxTokens reply
  | anthropic serde post =>
    exact (retry_tried _ _ _ _ _ _).answered fun n _ reply => .anthropic serde n reply
  | fallback _ ih => exact streamChain_answered request (fun d hd => ih d hd) none servers

end Drivers
end RustyHand
