import RustyHand.Runtime.LoopKeeps
import RustyHand.Runtime.LoopStreaming

/-!
# Answers that are cut off

A response that stops at its token limit is pushed to the session, and the model is asked to
continue (`run_agent_loop` and `run_agent_loop_streaming` of
`rusty-hand-runtime/src/agent_loop.rs`).  What the loop returns is the text of the last response
alone.

* `finalText`: what the loop takes of a final response;
* `iterate_result`: what a run returns;
* `response_continued_iff`.
-/

namespace RustyHand
namespace LoopRun

open Effects LlmDriver

variable {σ : Type}

/-- The text of a final response: without its directives, none if the agent has nothing to say, and
replaced if it is blank. -/
def finalText (iteration : ℕ) (response : CompletionResponse) : String :=
  let parsed := LoopText.parseDirectives response.text
  if saysNothing parsed then "" else AgentLoop.finalAnswer iteration parsed.1

section Runs

variable {w : World σ} {cfg : Config} {systemPrompt userMessage : String} {iteration : ℕ}
  {st : LoopState} {t t' : Trace σ} {result : AgentLoopResult}

/-- An answer is returned as its final text. -/
theorem endTurn_returns (response : CompletionResponse) :
    Returns (endTurn w userMessage iteration st response) fun flow =>
      ∀ result, flow = .done result → result.response = finalText iteration response := by
  unfold endTurn finalText
  generalize LoopText.parseDirectives response.text = parsed
  dsimp only
  generalize AgentLoop.finalAnswer iteration parsed.1 = answer
  split_ifs
  · refine .bind fun _ => .bind fun saved => ?_
    cases saved with
    | error e => exact .throw _
    | ok _ => exact .pure fun result h => (Flow.done.inj h) ▸ rfl
  · exact .pure fun result h => nomatch h
  · refine .bind fun _ => .bind fun _ => .bind fun saved => ?_
    cases saved with
    | error e => exact .throw _
    | ok _ =>
      refine .bind fun _ => .bind fun _ => .bind fun _ => ?_
      exact .pure fun result h => (Flow.done.inj h) ▸ rfl

theorem round_received {flow : Flow}
    (h : run (round w cfg systemPrompt userMessage iteration st) t = (.ok flow, t')) :
    ∃ r, t'.received = t.received ++ [r] ∧ ∀ result, flow = .done result → r.IsAnswer →
      result.response = finalText iteration r.response := by
  rcases round_eq w cfg systemPrompt userMessage iteration st t with
    ⟨e, t₁, hrun, -⟩ | ⟨r, t₀, hasked, hrun⟩
  · rw [hrun] at h
    cases (Prod.mk.inj h).1
  · have hreceived := branch_received w cfg userMessage iteration r.state r.response
      { t₀ with received := t₀.received ++ [r] }
    rw [← hrun, h] at hreceived
    refine ⟨r, hreceived.trans ?_, fun result hflow hans => ?_⟩
    · show t₀.received ++ [r] = t.received ++ [r]
      rw [hasked.blind (blind_received w)]
    · rw [hrun, branch] at h
      rcases hans with hans | hans <;> rw [hans] at h <;>
        exact endTurn_returns r.response _ _ _ h result hflow

/-- A run returns what its last response comes to, by induction on the rounds still to come. -/
theorem iterate_result (fuel : ℕ)
    (h : run (iterate w cfg systemPrompt userMessage fuel iteration st) t = (.ok result, t')) :
    ∃ before r, t'.received = t.received ++ before ++ [r] ∧
      (r.IsAnswer → result.response = finalText (iteration + before.length) r.response) := by
  induction fuel generalizing iteration st t with
  | zero =>
    rw [iterate, run_saveSession_bind, run_effect_bind, run_throw] at h
    cases (Prod.mk.inj h).1
  | succ fuel ih =>
    rw [iterate] at h
    rcases hround : run (round w cfg systemPrompt userMessage iteration st) t with ⟨e | flow, t₁⟩
    · rw [run_bind_of_error hround] at h
      cases (Prod.mk.inj h).1
    · rw [run_bind_of_ok hround] at h
      obtain ⟨r, hreceived, hanswer⟩ := round_received hround
      cases flow with
      | done result' =>
        obtain ⟨hresult, rfl⟩ := Prod.mk.inj h
        obtain rfl := Except.ok.inj hresult
        exact ⟨[], r, by rw [hreceived, List.append_nil], hanswer result' rfl⟩
      | next st' =>
        obtain ⟨before, r', hrest, hanswer'⟩ := ih h
        refine ⟨r :: before, r', ?_, ?_⟩
        · rw [hrest, hreceived]
          simp
        · rw [List.length_cons, Nat.add_comm before.length, ← Nat.add_assoc]
          exact hanswer'

end Runs

/-- What a run of the loop returns after an answer, given all responses that it received. -/
theorem runAgentLoop_result {w : World σ} {cfg : Config} {userMessage : String} {world : σ}
    {session : Session} {result : AgentLoopResult} {partials : List CompletionResponse}
    {final : CompletionResponse}
    (hresult : (runOn (runAgentLoop w cfg userMessage) world session).1 = .ok result)
    (hreceived : (runOn (runAgentLoop w cfg userMessage) world session).2.received.map
      Received.response = partials ++ [final])
    (hfinal : final.stopReason = .endTurn ∨ final.stopReason = .stopSequence) :
    result.response = finalText partials.length final := by
  obtain ⟨st, t, hbegin, hrun⟩ := runAgentLoop_does w cfg userMessage world session
  rw [hrun] at hresult hreceived
  obtain ⟨before, r, htrace, hanswer⟩ := iterate_result cfg.maxIterations (Prod.ext hresult rfl)
  rw [htrace, hbegin.received, List.nil_append, List.map_append] at hreceived
  obtain ⟨hbefore, hlast⟩ := List.append_inj' hreceived rfl
  obtain rfl := List.singleton_inj.1 hlast
  rw [← hbefore, List.length_map, ← Nat.zero_add before.length]
  exact hanswer hfinal

theorem join_eq_empty_iff (texts : List String) :
    String.join texts = "" ↔ ∀ text ∈ texts, text = "" := by
  induction texts with
  | nil => simp
  | cons text texts ih => simp [ih]

/-- A run of either loop that ends with an answer, after responses that were cut off in particular,
returns all texts in order exactly when those before the last are empty.  How often it was cut off,
and by what, makes no difference. -/
theorem response_continued_iff {w : World σ} {cfg : Config} {userMessage : String} {world : σ}
    {session : Session} {out : Except RustyHandError AgentLoopResult × Trace σ}
    (hout : out = runOn (runAgentLoop w cfg userMessage) world session ∨
      out = runOn (runAgentLoopStreaming w cfg userMessage) world session)
    {result : AgentLoopResult} (hresult : out.1 = .ok result)
    {partials : List CompletionResponse} {final : CompletionResponse}
    (hreceived : out.2.received.map Received.response = partials ++ [final])
    (hfinal : final.stopReason = .endTurn ∨ final.stopReason = .stopSequence) :
    result.response = String.join (partials.map CompletionResponse.text) ++
        finalText partials.length final ↔
      ∀ r ∈ partials, r.text = "" := by
  have hresponse : result.response = finalText partials.length final := by
    obtain ⟨hsame, htrace⟩ := same_runOn w cfg userMessage world session
    rcases hout with rfl | rfl
    · exact runAgentLoop_result hresult hreceived hfinal
    · rw [← hsame] at hresult
      rw [← htrace.received] at hreceived
      exact runAgentLoop_result hresult hreceived hfinal
  have hjoin := join_eq_empty_iff (partials.map CompletionResponse.text)
  rw [List.forall_mem_map] at hjoin
  rw [hresponse, ← hjoin]
  constructor
  · intro heq
    have hlen := congrArg (fun s : String => s.toList.length) heq
    simp only [String.toList_append, List.length_append] at hlen
    exact String.toList_eq_nil_iff.1 (List.length_eq_zero_iff.1 (by omega))
  · intro hempty
    rw [hempty, String.empty_append]

/-- A driver that is cut off once. -/
def cutOffOnce (part : String) : ℕ → Except LlmError CompletionResponse
  | 0 => .ok ⟨[.text part], .maxTokens, [], ⟨1, 1⟩⟩
  | _ + 1 => .ok ⟨[.text "world."], .endTurn, [], ⟨1, 1⟩⟩

/-- A part without text is not missed. -/
theorem response_continued_iff_empty :
    "world." = String.join
        ([⟨[.text ""], .maxTokens, [], ⟨1, 1⟩⟩].map CompletionResponse.text) ++
          finalText 1 ⟨[.text "world."], .endTurn, [], ⟨1, 1⟩⟩ ↔
      ∀ r ∈ [(⟨[.text ""], .maxTokens, [], ⟨1, 1⟩⟩ : CompletionResponse)], r.text = "" :=
  @response_continued_iff ℕ (World.scripted (cutOffOnce "")) .sample "hi" 0 ⟨1, 1, [], 0, none⟩
    (runOn (runAgentLoop (World.scripted (cutOffOnce "")) .sample "hi") 0 ⟨1, 1, [], 0, none⟩)
    (.inl rfl) ⟨"world.", ⟨2, 2⟩, 2, false, {}⟩ (by decide +kernel)
    [⟨[.text ""], .maxTokens, [], ⟨1, 1⟩⟩] ⟨[.text "world."], .endTurn, [], ⟨1, 1⟩⟩
    (by decide +kernel) (.inl rfl)

/-- "Hello, " is cut off, and "world." returned without it. -/
theorem response_cutOff_lost :
    ¬ ∀ (w : World ℕ) (cfg : Config) (userMessage : String) (world : ℕ) (session : Session)
      (result : AgentLoopResult) (partials : List CompletionResponse) (final : CompletionResponse),
      (runOn (runAgentLoop w cfg userMessage) world session).1 = .ok result →
      (runOn (runAgentLoop w cfg userMessage) world session).2.received.map Received.response =
        partials ++ [final] →
      (∀ r ∈ partials, r.stopReason = .maxTokens ∧ r.toolCalls = []) →
      partials.length < AgentLoop.maxContinuations →
      final.stopReason = .endTurn → final.toolCalls = [] →
      result.response = String.join (partials.map CompletionResponse.text) ++
        finalText partials.length final := by
  intro h
  have hlost := h (World.scripted (cutOffOnce "Hello, ")) .sample "hi" 0 ⟨1, 1, [], 0, none⟩
    ⟨"world.", ⟨2, 2⟩, 2, false, {}⟩ [⟨[.text "Hello, "], .maxTokens, [], ⟨1, 1⟩⟩]
    ⟨[.text "world."], .endTurn, [], ⟨1, 1⟩⟩ (by decide +kernel) (by decide +kernel) (by simp)
    (by decide) rfl rfl
  exact absurd hlost (by decide)

end LoopRun
end RustyHand
