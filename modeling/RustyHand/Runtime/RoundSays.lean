import RustyHand.Runtime.Loop

/-!
# What a round of the agent loop does

Each part of `round` is described by what it returns and by what it adds to the trace; `RoundSays`
lists the ways in which a round can end, and proofs about runs go by its cases.

* `Adds`, `Quiet`: what a step adds to a trace;
* `callWithRetry_does`, `executeCalls_does`, `promote_does`: the parts;
* `RoundSays`, `round_does`: a round.
-/

namespace RustyHand
namespace LoopRun

open Effects LlmDriver

variable {σ α β : Type}

/-- From `t` to `t'` so many requests, responses and saves are added, and the session has come to
these messages. -/
structure Adds (t t' : Trace σ) (requests : List LlmDriver.CompletionRequest)
    (received : List Received)
    (messages : List Message) (saves : List (List Message)) : Prop where
  requests : t'.requests = t.requests ++ requests
  received : t'.received = t.received ++ received
  messages : t'.session.messages = messages
  saves : t'.saves = t.saves ++ saves
  entered : t'.entered = t.entered

/-- Nothing is added, and the session has the same messages. -/
def Quiet (t t' : Trace σ) : Prop := Adds t t' [] [] t.session.messages []

theorem Quiet.refl (t : Trace σ) : Quiet t t := ⟨by simp, by simp, rfl, by simp, rfl⟩

theorem Quiet.world (t : Trace σ) (s : σ) : Quiet t { t with world := s } :=
  ⟨by simp, by simp, rfl, by simp, rfl⟩

theorem Adds.saved (t : Trace σ) (s : σ) :
    Adds t { t with world := s, saves := t.saves ++ [t.session.messages] } [] []
      t.session.messages [t.session.messages] :=
  ⟨by simp, by simp, rfl, rfl, rfl⟩

theorem Adds.trans {t t' t'' : Trace σ} {requests requests' : List LlmDriver.CompletionRequest}
    {received received' : List Received} {messages messages' : List Message}
    {saves saves' : List (List Message)} (h : Adds t t' requests received messages saves)
    (h' : Adds t' t'' requests' received' messages' saves') :
    Adds t t'' (requests ++ requests') (received ++ received') messages' (saves ++ saves') where
  requests := by rw [h'.requests, h.requests, List.append_assoc]
  received := by rw [h'.received, h.received, List.append_assoc]
  messages := h'.messages
  saves := by rw [h'.saves, h.saves, List.append_assoc]
  entered := h'.entered.trans h.entered

theorem Quiet.adds {t t' t'' : Trace σ} {requests : List LlmDriver.CompletionRequest}
    {received : List Received} {messages : List Message} {saves : List (List Message)}
    (h : Quiet t t') (h' : Adds t' t'' requests received messages saves) :
    Adds t t'' requests received messages saves := h.trans h'

theorem Adds.quiet {t t' t'' : Trace σ} {requests : List LlmDriver.CompletionRequest}
    {received : List Received} {messages : List Message} {saves : List (List Message)}
    (h : Adds t t' requests received messages saves) (h' : Quiet t' t'') :
    Adds t t'' requests received messages saves := by
  simpa [h.messages] using h.trans h'

/-! ### The effects -/

theorem run_effect_bind (f : σ → α × σ) (k : α → Run σ β) (t : Trace σ) :
    run (effect f >>= k) t = run (k (f t.world).1) { t with world := (f t.world).2 } := rfl

theorem run_notice_bind (f : σ → σ) (k : Unit → Run σ β) (t : Trace σ) :
    run (notice f >>= k) t = run (k ()) { t with world := f t.world } := rfl

theorem run_push_bind (m : Message) (k : Unit → Run σ β) (t : Trace σ) :
    run (push m >>= k) t = run (k ())
      { t with session := { t.session with messages := t.session.messages ++ [m] } } := rfl

theorem run_enter_bind (st : LoopState) (k : Unit → Run σ β) (t : Trace σ) :
    run (enter st >>= k) t = run (k ()) { t with entered := t.entered ++ [st] } := rfl

theorem run_receive_bind (iteration : ℕ) (st : LoopState) (response : CompletionResponse)
    (k : Unit → Run σ β) (t : Trace σ) :
    run (receive iteration st response >>= k) t = run (k ())
      { t with received := t.received ++ [⟨iteration, st, t.session.messages, response⟩] } := rfl

theorem run_saveSession_bind (w : World σ) (k : Except String Unit → Run σ β) (t : Trace σ) :
    run (saveSession w >>= k) t =
      run (k (w.saveSession t.session t.world).1)
        { t with
          world := (w.saveSession t.session t.world).2
          saves := t.saves ++ [t.session.messages] } := rfl

theorem run_complete_bind (w : World σ) (request : LlmDriver.CompletionRequest)
    (k : Except LlmError CompletionResponse → Run σ β) (t : Trace σ) :
    run (complete w request >>= k) t =
      run (k (w.answer request t.world).1)
        { t with
          world := (w.answer request t.world).2, requests := t.requests ++ [request] } := rfl

/-! ### A call to the driver -/

/-- The driver can answer the request so. -/
def Answers (w : World σ) (request : LlmDriver.CompletionRequest)
    (response : CompletionResponse) : Prop :=
  ∃ s, (w.answer request s).1 = .ok response

theorem giveUp_does (w : World σ) (provider message : String) (isBilling : Bool) (t : Trace σ) :
    (run (giveUp w provider isBilling message : Run σ α) t).1 = .error (.llmDriver message) ∧
      Quiet t (run (giveUp w provider isBilling message : Run σ α) t).2 :=
  ⟨rfl, .world t _⟩

/-- The computation goes on with the attempts still to come, or gives up. -/
def Retries (again : Option (Run σ α)) (x : Run σ α) (t : Trace σ) : Prop :=
  (∃ y, again = some y ∧ run x t = run y t) ∨
    ∃ e, (run x t).1 = .error e ∧ Quiet t (run x t).2

theorem retries_getD (w : World σ) (provider : String) {again : Option (Run σ α)}
    {o : Option (Run σ α)} (ho : ∀ y, o = some y → again = some y) (isBilling : Bool)
    (message : String) (t : Trace σ) :
    Retries again (o.getD (giveUp w provider isBilling message)) t := by
  cases o with
  | none => exact Or.inr ⟨_, giveUp_does w provider message isBilling t⟩
  | some y => exact Or.inl ⟨y, ho y rfl, rfl⟩

/-- An attempt returns its response, or it is tried again. -/
theorem afterComplete_does (w : World σ) (provider : String)
    (again : Option (Run σ CompletionResponse)) (result : Except LlmError CompletionResponse)
    (t : Trace σ) :
    (∃ response, result = .ok response ∧
        (run (afterComplete w provider again result) t).1 = .ok response ∧
        Quiet t (run (afterComplete w provider again result) t).2) ∨
      Retries again (afterComplete w provider again result) t := by
  cases result with
  | ok response => exact Or.inl ⟨response, rfl, rfl, .world t _⟩
  | error e =>
    right
    cases e with
    | rateLimited | overloaded => exact retries_getD w provider (fun _ h => h) _ _ t
    | http | api | parse | missingApiKey =>
      refine retries_getD w provider (fun y hy => ?_) _ _ t
      split_ifs at hy
      exact hy

theorem completeAttempts_does (w : World σ) (provider : String)
    (request : LlmDriver.CompletionRequest)
    (retries : ℕ) (t : Trace σ) :
    ∃ n, Adds t (run (completeAttempts w provider request retries) t).2
        (List.replicate n request) [] t.session.messages [] ∧
      ∀ response, (run (completeAttempts w provider request retries) t).1 = .ok response →
        Answers w request response := by
  -- one attempt, whatever comes after it
  have hattempt : ∀ (again : Option (Run σ CompletionResponse)) (t : Trace σ),
      (∀ x, again = some x → ∀ t : Trace σ,
        ∃ n, Adds t (run x t).2 (List.replicate n request) [] t.session.messages [] ∧
          ∀ response, (run x t).1 = .ok response → Answers w request response) →
      ∃ n, Adds t (run (complete w request >>= afterComplete w provider again) t).2
          (List.replicate n request) [] t.session.messages [] ∧
        ∀ response, (run (complete w request >>= afterComplete w provider again) t).1 =
          .ok response → Answers w request response := by
    intro again t hagain
    rw [run_complete_bind]
    have hasked : Adds t
        { t with
          world := (w.answer request t.world).2, requests := t.requests ++ [request] }
        [request] [] t.session.messages [] := ⟨rfl, by simp, rfl, by simp, rfl⟩
    rcases afterComplete_does w provider again (w.answer request t.world).1
        { t with world := (w.answer request t.world).2, requests := t.requests ++ [request] } with
      ⟨response, hok, hres, hq⟩ | ⟨x, hx, heq⟩ | ⟨e, hres, hq⟩
    · refine ⟨1, hasked.quiet hq, fun r hr => ?_⟩
      obtain rfl : response = r := by simpa [hres] using hr
      exact ⟨t.world, hok⟩
    · obtain ⟨n, hn, hans⟩ := hagain x hx
        { t with world := (w.answer request t.world).2, requests := t.requests ++ [request] }
      rw [heq]
      exact ⟨n + 1, by simpa [List.replicate_succ] using hasked.trans hn, hans⟩
    · refine ⟨1, hasked.quiet hq, fun r hr => ?_⟩
      simp [hres] at hr
  induction retries generalizing t with
  | zero => exact hattempt none t fun x hx => by simp at hx
  | succ retries ih =>
    refine hattempt (some _) t fun x hx => ?_
    obtain rfl := Option.some.inj hx
    exact ih

/-- A call sends its request so many times, and changes nothing but the world. -/
theorem callWithRetry_does (w : World σ) (provider : String) (request : LlmDriver.CompletionRequest)
    (t : Trace σ) :
    ∃ n, Adds t (run (callWithRetry w provider request) t).2 (List.replicate n request) []
        t.session.messages [] ∧
      ∀ response, (run (callWithRetry w provider request) t).1 = .ok response →
        Answers w request response := by
  rw [callWithRetry, run_effect_bind]
  cases (w.cooldown provider t.world).1 with
  | reject reason secs =>
    exact ⟨0, ⟨by simp, by simp, rfl, by simp, rfl⟩, fun response h => by simp at h⟩
  | allow | allowProbe =>
    obtain ⟨n, hn, hans⟩ := completeAttempts_does w provider request maxRetries
      { t with world := (w.cooldown provider t.world).2 }
    exact ⟨n, ⟨hn.requests, hn.received, hn.messages, hn.saves, hn.entered⟩, hans⟩

/-! ### Tool calls -/

/-- Every result answers its call. -/
def ResultsOf (calls : List ToolCall) (results : List ContentBlock) : Prop :=
  List.Forall₂ (fun call b => ∃ content isError, b = .toolResult call.id content isError) calls
    results

theorem filterMap_useId (bs : List ContentBlock) :
    bs.filterMap ContentBlock.useId? = (bs.filterMap blockCall?).map ToolCall.id := by
  rw [List.map_filterMap]
  refine List.filterMap_congr fun b _ => ?_
  cases b <;> rfl

theorem ResultsOf.ids {calls : List ToolCall} {results : List ContentBlock}
    (h : ResultsOf calls results) :
    results.filterMap ContentBlock.resultId? = calls.map ToolCall.id ∧
      results.filterMap ContentBlock.useId? = [] := by
  induction h with
  | nil => exact ⟨rfl, rfl⟩
  | cons hb _ ih =>
    obtain ⟨content, isError, rfl⟩ := hb
    exact ⟨congrArg (_ :: ·) ih.1, ih.2⟩

/-- The guard has seen `n` more calls. -/
structure Counted (g g' : LoopGuard.State) (n : ℕ) : Prop where
  config : g'.config = g.config
  totalCalls : g.totalCalls + n < 2 ^ 32 → g'.totalCalls = g.totalCalls + n
  totalCalls_le : g'.totalCalls ≤ g.totalCalls + n

theorem Counted.refl (g : LoopGuard.State) : Counted g g 0 := ⟨rfl, fun _ => rfl, le_rfl⟩

theorem Counted.trans {g g' g'' : LoopGuard.State} {m n : ℕ} (h : Counted g g' m)
    (h' : Counted g' g'' n) : Counted g g'' (m + n) where
  config := h'.config.trans h.config
  totalCalls := fun hlt => by
    have hfirst := h.totalCalls (by omega)
    have hsecond := h'.totalCalls (by omega)
    omega
  totalCalls_le := by
    have hfirst := h.totalCalls_le
    have hsecond := h'.totalCalls_le
    omega

theorem counted_frame {g g' : LoopGuard.State} (h : LoopGuard.Frame g g') : Counted g g' 0 :=
  ⟨h.config, fun _ => h.totalCalls, h.totalCalls.le⟩

/-- A check is one call more. -/
theorem counted_check (hashing : LoopGuard.Hashing) (name : String) (input : Json)
    (g : LoopGuard.State) : Counted g (LoopGuard.check hashing name input g).2 1 := by
  obtain ⟨htotal, hconfig⟩ := LoopGuard.totalCalls_check hashing name input g
  refine ⟨hconfig, fun hlt => ?_, ?_⟩
  · rw [htotal, LoopGuard.u32_of_lt hlt]
  · rw [htotal]
    exact LoopGuard.u32_le _

theorem runTool_does (w : World σ) (cfg : Config) (call : ToolCall) (warning : Option String)
    (g : LoopGuard.State) (t : Trace σ) :
    ∃ g' content isError,
      (run (runTool w cfg call warning g) t).1 =
        .ok (g', .toolResult call.id content isError) ∧
      Counted g g' 0 ∧ Quiet t (run (runTool w cfg call warning g) t).2 := by
  rw [runTool, run_effect_bind]
  cases (w.fire .beforeToolCall (beforeToolCallData call) t.world).1 with
  | error reason => exact ⟨g, _, _, rfl, .refl g, .world t _⟩
  | ok _ =>
    dsimp only
    rw [run_effect_bind, run_effect_bind, run_pure]
    have hpoll := LoopGuard.frame_getPollBackoff w.hashing call.name call.input g
    exact ⟨_, _, _, rfl, counted_frame (hpoll.trans (LoopGuard.frame_recordOutcome _ _ _ _ _)),
      .world t _⟩

/-- A call is answered by one result, unless the circuit breaks: then the session is saved as it
is. -/
theorem executeCall_does (w : World σ) (cfg : Config) (call : ToolCall) (g : LoopGuard.State)
    (t : Trace σ) :
    (∃ g' content isError,
        (run (executeCall w cfg call g) t).1 = .ok (g', .toolResult call.id content isError) ∧
        Counted g g' 1 ∧ Quiet t (run (executeCall w cfg call g) t).2 ∧
        LoopGuard.u32 (g.totalCalls + 1) ≤ g.config.globalCircuitBreaker) ∨
      ∃ e, (run (executeCall w cfg call g) t).1 = .error e ∧
        Adds t (run (executeCall w cfg call g) t).2 [] [] t.session.messages
          [t.session.messages] ∧
        g.config.globalCircuitBreaker < LoopGuard.u32 (g.totalCalls + 1) := by
  have hcount := counted_check w.hashing call.name call.input g
  have hbreak := LoopGuard.check_circuitBreak_iff w.hashing call.name call.input g
  unfold executeCall
  generalize LoopGuard.check w.hashing call.name call.input g = checked at hcount hbreak ⊢
  obtain ⟨verdict, g'⟩ := checked
  dsimp only at hcount hbreak ⊢
  have hran : ∀ warning, ∃ g'' content isError,
      (run (runTool w cfg call warning g') t).1 = .ok (g'', .toolResult call.id content isError) ∧
      Counted g g'' 1 ∧ Quiet t (run (runTool w cfg call warning g') t).2 := by
    intro warning
    obtain ⟨g'', content, isError, hres, hc, hq⟩ := runTool_does w cfg call warning g' t
    exact ⟨g'', content, isError, hres, hcount.trans hc, hq⟩
  cases verdict with
  | circuitBreak message =>
    right
    exact ⟨_, rfl, .saved t _, hbreak.1 ⟨message, rfl⟩⟩
  | block message =>
    left
    refine ⟨g', message, true, rfl, hcount, .refl t, ?_⟩
    rw [← not_lt, ← hbreak]
    simp
  | warn _ | allow =>
    left
    have hle : LoopGuard.u32 (g.totalCalls + 1) ≤ g.config.globalCircuitBreaker := by
      rw [← not_lt, ← hbreak]
      simp
    obtain ⟨g'', content, isError, hres, hc, hq⟩ := hran _
    exact ⟨g'', content, isError, hres, hc, hq, hle⟩

/-- The calls of a response are answered one by one, unless they exceed the circuit breaker: then
the session is saved as it is. -/
theorem executeCalls_does (w : World σ) (cfg : Config) (calls : List ToolCall)
    (g : LoopGuard.State) (results : List ContentBlock) (t : Trace σ) :
    (∃ g' results', (run (executeCalls w cfg calls g results) t).1 = .ok (g', results ++ results') ∧
        ResultsOf calls results' ∧ Counted g g' calls.length ∧
        Quiet t (run (executeCalls w cfg calls g results) t).2 ∧
        (calls ≠ [] → g.totalCalls + calls.length < 2 ^ 32 →
          g.totalCalls + calls.length ≤ g.config.globalCircuitBreaker)) ∨
      ∃ e, (run (executeCalls w cfg calls g results) t).1 = .error e ∧
        Adds t (run (executeCalls w cfg calls g results) t).2 [] [] t.session.messages
          [t.session.messages] ∧
        g.config.globalCircuitBreaker < g.totalCalls + calls.length := by
  induction calls generalizing g results t with
  | nil => exact Or.inl ⟨g, [], by simp [executeCalls], .nil, .refl g, .refl t,
      fun h => absurd rfl h⟩
  | cons call calls ih =>
    rcases hrun : run (executeCall w cfg call g) t with ⟨e | r, t'⟩
    · -- the circuit breaks at this call
      rcases executeCall_does w cfg call g t with ⟨g', c, b, hres, -⟩ | ⟨e', -, hadds, hlt⟩
      · rw [hrun] at hres
        simp at hres
      · rw [hrun] at hadds
        rw [executeCalls, run_bind_of_error hrun, List.length_cons]
        have hle := LoopGuard.u32_le (g.totalCalls + 1)
        exact Or.inr ⟨e, rfl, hadds, by omega⟩
    · rcases executeCall_does w cfg call g t with ⟨g', c, b, hres, hc, hq, hle⟩ | ⟨e', hres, -⟩
      · rw [hrun] at hres hq
        obtain rfl : r = (g', .toolResult call.id c b) := by simpa using hres
        rw [executeCalls, run_bind_of_ok hrun, List.length_cons]
        have hcfg := hc.config
        have htotal := hc.totalCalls
        have htotal_le := hc.totalCalls_le
        rcases ih g' (results ++ [.toolResult call.id c b]) t' with
          ⟨g'', rest, hres', hof, hc', hq', hle'⟩ | ⟨e, hres', hadds, hlt⟩
        · refine Or.inl ⟨g'', .toolResult call.id c b :: rest, ?_, .cons ⟨c, b, rfl⟩ hof,
            Nat.add_comm 1 _ ▸ hc.trans hc', hq.adds ?_, fun _ hlt => ?_⟩
          · rw [hres', List.append_assoc]
            rfl
          · rw [← hq.messages]
            exact hq'
          · rw [LoopGuard.u32_of_lt (by omega)] at hle
            by_cases hnil : calls = []
            · rw [hnil]
              exact hle
            · have hwithin := hle' hnil (by omega)
              rw [hcfg] at hwithin
              omega
        · refine Or.inr ⟨e, hres', ?_, ?_⟩
          · rw [← hq.messages]
            exact hq.adds hadds
          · rw [hcfg] at hlt
            omega
      · rw [hrun] at hres
        simp at hres

/-! ### Responses -/

/-- What the loop goes on with: a response of the driver, or one made of the calls in its text. -/
inductive GoesOn (response : CompletionResponse) : CompletionResponse → Prop
  | same : GoesOn response response
  | recovered (calls : List ToolCall)
      (hans : response.stopReason = .endTurn ∨ response.stopReason = .stopSequence)
      (hne : calls ≠ []) : GoesOn response
      { response with
        toolCalls := calls, stopReason := .toolUse, content := calls.map ToolCall.block }

theorem promote_does (w : World σ) (cfg : Config) (response : CompletionResponse) (t : Trace σ) :
    ∃ response', (run (promote w cfg response) t).1 = .ok response' ∧
      GoesOn response response' ∧ Quiet t (run (promote w cfg response) t).2 := by
  unfold promote
  split_ifs with hans
  · rw [recoverTextToolCalls, bind_assoc, run_effect_bind, pure_bind]
    split_ifs with hnil
    · exact ⟨response, rfl, .same, .world t _⟩
    · exact ⟨_, rfl, .recovered _ hans.1 (by simpa using hnil), .world t _⟩
  · exact ⟨response, rfl, .same, .refl t⟩

/-! ### A round -/

/-- The result is not another round. -/
def Ends (result : Except RustyHandError Flow) : Prop := ∀ st, result ≠ .ok (.next st)

/-- In a round that began with `st` the driver was asked, and gave the response of `r`. -/
structure Got (w : World σ) (cfg : Config) (systemPrompt : String) (iteration : ℕ) (st : LoopState)
    (t : Trace σ) (requests : List LlmDriver.CompletionRequest) (r : Received) : Prop where
  requests : ∃ n, requests =
    List.replicate n (cfg.request systemPrompt (cfg.prepare systemPrompt st.messages))
  answered : ∃ response,
    Answers w (cfg.request systemPrompt (cfg.prepare systemPrompt st.messages)) response ∧
      GoesOn response r.response
  iteration : r.iteration = iteration
  session : r.session = t.session.messages
  messages : r.state.messages = cfg.prepare systemPrompt st.messages
  loopGuard : r.state.loopGuard = st.loopGuard
  consecutive : r.state.consecutiveMaxTokens = st.consecutiveMaxTokens

/-- `EndTurn` or `StopSequence`. -/
def Received.IsAnswer (r : Received) : Prop :=
  r.response.stopReason = .endTurn ∨ r.response.stopReason = .stopSequence

/-- What the answer comes to without its directives. -/
def Received.parsed (r : Received) : String × LoopText.DirectiveSet :=
  LoopText.parseDirectives r.response.text

/-- The loop ends here with a text, and prunes the session. -/
def Received.IsFinal (r : Received) : Prop :=
  r.IsAnswer ∧ saysNothing r.parsed = false ∧
    asksAgain r.iteration r.parsed.1 r.response = false

/-- The ways in which a round ends, from the trace `t` on. -/
inductive RoundSays (w : World σ) (cfg : Config) (systemPrompt : String) (iteration : ℕ)
    (st : LoopState) (t : Trace σ) : Except RustyHandError Flow → Trace σ → Prop
  /-- The call to the driver fails. -/
  | failed (n : ℕ) (e : RustyHandError) (t' : Trace σ)
      (h : Adds t t'
        (List.replicate n (cfg.request systemPrompt (cfg.prepare systemPrompt st.messages))) []
        t.session.messages []) :
      RoundSays w cfg systemPrompt iteration st t (.error e) t'
  /-- The agent has nothing to say. -/
  | silent (q : List LlmDriver.CompletionRequest) (r : Received)
      (result : Except RustyHandError Flow)
      (t' : Trace σ) (hgot : Got w cfg systemPrompt iteration st t q r) (hend : Ends result)
      (h : Adds t t' q [r] (t.session.messages ++ [.assistant "[no reply needed]"])
        [t.session.messages ++ [.assistant "[no reply needed]"]]) :
      RoundSays w cfg systemPrompt iteration st t result t'
  /-- The first answer is empty. -/
  | again (q : List LlmDriver.CompletionRequest) (r : Received) (t' : Trace σ)
      (hgot : Got w cfg systemPrompt iteration st t q r) (hans : r.IsAnswer)
      (h : Adds t t' q [r] t.session.messages []) :
      RoundSays w cfg systemPrompt iteration st t
        (.ok (.next { r.state with messages := r.state.messages ++ retryMessages })) t'
  /-- The final answer. -/
  | answered (q : List LlmDriver.CompletionRequest) (r : Received) (text : String)
      (result : Except RustyHandError Flow) (t' : Trace σ)
      (hgot : Got w cfg systemPrompt iteration st t q r) (hfinal : r.IsFinal) (hend : Ends result)
      (h : Adds t t' q [r]
        (AgentLoop.pruneHeartbeatTurns (t.session.messages ++ [.assistant text])
          AgentLoop.keepRecent)
        [AgentLoop.pruneHeartbeatTurns (t.session.messages ++ [.assistant text])
          AgentLoop.keepRecent]) :
      RoundSays w cfg systemPrompt iteration st t result t'
  /-- The calls of a response are executed. -/
  | ran (q : List LlmDriver.CompletionRequest) (r : Received) (g : LoopGuard.State)
      (results : List ContentBlock) (t' : Trace σ)
      (hgot : Got w cfg systemPrompt iteration st t q r)
      (hstop : r.response.stopReason = .toolUse)
      (hresults : ResultsOf r.response.toolCalls results)
      (hcount : Counted st.loopGuard g r.response.toolCalls.length)
      (hwithin : r.response.toolCalls ≠ [] →
        st.loopGuard.totalCalls + r.response.toolCalls.length < 2 ^ 32 →
        st.loopGuard.totalCalls + r.response.toolCalls.length ≤
          st.loopGuard.config.globalCircuitBreaker)
      (h : Adds t t' q [r]
        (t.session.messages ++
          [⟨.assistant, .blocks r.response.content⟩, ⟨.user, .blocks results⟩])
        [t.session.messages ++
          [⟨.assistant, .blocks r.response.content⟩, ⟨.user, .blocks results⟩]]) :
      RoundSays w cfg systemPrompt iteration st t
        (.ok (.next
          { r.state with
            consecutiveMaxTokens := 0
            loopGuard := g
            messages := r.state.messages ++
              [⟨.assistant, .blocks r.response.content⟩, ⟨.user, .blocks results⟩] })) t'
  /-- The circuit breaks on the way. -/
  | broken (q : List LlmDriver.CompletionRequest) (r : Received) (e : RustyHandError) (t' : Trace σ)
      (hgot : Got w cfg systemPrompt iteration st t q r)
      (hstop : r.response.stopReason = .toolUse)
      (hlimit : st.loopGuard.config.globalCircuitBreaker <
        st.loopGuard.totalCalls + r.response.toolCalls.length)
      (h : Adds t t' q [r]
        (t.session.messages ++ [⟨.assistant, .blocks r.response.content⟩])
        [t.session.messages ++ [⟨.assistant, .blocks r.response.content⟩]]) :
      RoundSays w cfg systemPrompt iteration st t (.error e) t'
  /-- The token limit is reached too often. -/
  | cutShort (q : List LlmDriver.CompletionRequest) (r : Received) (text : String)
      (flow : AgentLoopResult)
      (t' : Trace σ) (hgot : Got w cfg systemPrompt iteration st t q r)
      (h : Adds t t' q [r] (t.session.messages ++ [.assistant text])
        [t.session.messages ++ [.assistant text]]) :
      RoundSays w cfg systemPrompt iteration st t (.ok (.done flow)) t'
  /-- The token limit is reached. -/
  | continued (q : List LlmDriver.CompletionRequest) (r : Received) (t' : Trace σ)
      (hgot : Got w cfg systemPrompt iteration st t q r)
      (hstop : r.response.stopReason = .maxTokens)
      (hfew : r.state.consecutiveMaxTokens + 1 < AgentLoop.maxContinuations)
      (h : Adds t t' q [r] (t.session.messages ++ [.assistant r.response.text]) []) :
      RoundSays w cfg systemPrompt iteration st t
        (.ok (.next
          { r.state with
            consecutiveMaxTokens := r.state.consecutiveMaxTokens + 1
            messages := r.state.messages ++
              [.assistant r.response.text, .user "Please continue."] })) t'

theorem autoLabel_does (w : World σ) (userMessage : String) (t : Trace σ) :
    (run (autoLabel w userMessage) t).1 = .ok () ∧
      Quiet t (run (autoLabel w userMessage) t).2 := by
  rw [autoLabel, run_get_bind]
  split_ifs
  · cases LoopText.deriveSessionLabel w.isAlphanumeric userMessage with
    | none => exact ⟨rfl, .refl t⟩
    | some label =>
      dsimp only
      split_ifs
      · rw [run_effect_bind]
        split_ifs
        · exact ⟨rfl, by simp, by simp, rfl, by simp, rfl⟩
        · exact ⟨rfl, .world t _⟩
      · exact ⟨rfl, .refl t⟩
  · exact ⟨rfl, .refl t⟩

/-- What follows the last save of a run leaves the session's messages alone. -/
theorem afterSave_does (w : World σ) (userMessage : String) (f : σ → σ) (g : σ → α × σ)
    (flow : Flow) (t : Trace σ) :
    ∃ t', run (do autoLabel w userMessage; notice f; let _ ← effect g; pure flow) t =
        (.ok flow, t') ∧ Quiet t t' := by
  obtain ⟨hres, hq⟩ := autoLabel_does w userMessage t
  rcases hlabel : run (autoLabel w userMessage) t with ⟨e | u, t'⟩ <;> rw [hlabel] at hres hq
  · simp at hres
  · rw [run_bind_of_ok hlabel, run_notice_bind, run_effect_bind, run_pure]
    exact ⟨_, rfl, Adds.quiet hq (.world t' _)⟩

section Branches

variable {w : World σ} {cfg : Config} {systemPrompt : String} {iteration : ℕ} {st : LoopState}
  {t t₀ t₁ : Trace σ} {q : List LlmDriver.CompletionRequest} {r : Received}

theorem Adds.save (h : Adds t t₁ q [r] t.session.messages []) (messages : List Message) (s : σ) :
    Adds t
      { t₁ with
        world := s
        session := { t₁.session with messages := messages }
        saves := t₁.saves ++ [messages] }
      q [r] messages [messages] where
  requests := h.requests
  received := h.received
  messages := rfl
  saves := by
    rw [h.saves]
    simp
  entered := h.entered

theorem endTurn_does (userMessage : String) (hgot : Got w cfg systemPrompt iteration st t q r)
    (hans : r.IsAnswer) (h : Adds t t₁ q [r] t.session.messages []) :
    RoundSays w cfg systemPrompt iteration st t
      (run (endTurn w userMessage iteration r.state r.response) t₁).1
      (run (endTurn w userMessage iteration r.state r.response) t₁).2 := by
  unfold endTurn
  dsimp only
  split_ifs with hsilent hagain
  · rw [run_push_bind, run_saveSession_bind]
    refine .silent q r _ _ hgot ?_ ?_
    · intro st'
      cases (w.saveSession _ _).1 <;> simp
    · rw [← h.messages]
      cases hsave : (w.saveSession _ _).1 <;> exact h.save _ _
  · exact .again q r t₁ hgot hans h
  · have hfinal : r.IsFinal := by
      refine ⟨hans, Bool.eq_false_of_not_eq_true hsilent, ?_⟩
      rw [hgot.iteration]
      exact Bool.eq_false_of_not_eq_true hagain
    rw [run_push_bind, run_modify_bind, run_saveSession_bind]
    dsimp only
    rw [h.messages]
    have hsaved := h.save (AgentLoop.pruneHeartbeatTurns (t.session.messages ++
      [.assistant (AgentLoop.finalAnswer iteration
        (LoopText.parseDirectives r.response.text).1)]) AgentLoop.keepRecent)
    cases (w.saveSession _ _).1 with
    | error e => exact .answered q r _ _ _ hgot hfinal (by simp [Ends]) (hsaved _)
    | ok _ =>
      dsimp only
      obtain ⟨t', hrun, hq⟩ := afterSave_does w userMessage _ _ _ _
      rw [hrun]
      exact .answered q r _ _ _ hgot hfinal (by simp [Ends]) ((hsaved _).quiet hq)

theorem toolUse_does (hgot : Got w cfg systemPrompt iteration st t q r)
    (hstop : r.response.stopReason = .toolUse) (h : Adds t t₁ q [r] t.session.messages []) :
    RoundSays w cfg systemPrompt iteration st t (run (toolUse w cfg r.state r.response) t₁).1
      (run (toolUse w cfg r.state r.response) t₁).2 := by
  rw [toolUse, run_push_bind, h.messages]
  -- the session while the calls run
  have hpushed : Adds t
      { t₁ with
        session :=
          { t₁.session with
            messages := t.session.messages ++ [⟨.assistant, .blocks r.response.content⟩] } }
      q [r] (t.session.messages ++ [⟨.assistant, .blocks r.response.content⟩]) [] :=
    ⟨h.requests, h.received, rfl, h.saves, h.entered⟩
  rcases hrun : run (executeCalls w cfg r.response.toolCalls r.state.loopGuard []) _ with
    ⟨e | ⟨g, results⟩, t₂⟩
  · rw [run_bind_of_error hrun]
    rcases executeCalls_does w cfg r.response.toolCalls r.state.loopGuard [] _ with
      ⟨_, _, hres, -⟩ | ⟨e', -, hadds, hlt⟩
    · rw [hrun] at hres
      simp at hres
    · rw [hrun] at hadds
      rw [hgot.loopGuard] at hlt
      exact .broken q r e t₂ hgot hstop hlt (by simpa using hpushed.trans hadds)
  · rw [run_bind_of_ok hrun, run_push_bind, run_saveSession_bind, run_pure]
    rcases executeCalls_does w cfg r.response.toolCalls r.state.loopGuard [] _ with
      ⟨g', results', hres, hof, hcount, hq, hwithin⟩ | ⟨e', hres, -⟩
    · rw [hrun] at hres hq
      obtain ⟨rfl, rfl⟩ : g = g' ∧ results = results' := by simpa using hres
      rw [hgot.loopGuard] at hcount hwithin
      have h₂ := hpushed.quiet hq
      refine .ran q r g results _ hgot hstop hof hcount hwithin
        ⟨h₂.requests, h₂.received, ?_, ?_, h₂.entered⟩
      · show t₂.session.messages ++ [_] = _
        rw [h₂.messages, List.append_assoc]
        rfl
      · show t₂.saves ++ [t₂.session.messages ++ [_]] = _
        rw [h₂.saves, h₂.messages, List.append_nil, List.append_assoc]
        rfl
    · rw [hrun] at hres
      simp at hres

theorem maxTokens_does (hgot : Got w cfg systemPrompt iteration st t q r)
    (hstop : r.response.stopReason = .maxTokens) (h : Adds t t₁ q [r] t.session.messages []) :
    RoundSays w cfg systemPrompt iteration st t
      (run (maxTokens w iteration r.state r.response) t₁).1
      (run (maxTokens w iteration r.state r.response) t₁).2 := by
  unfold maxTokens
  dsimp only
  split_ifs with hmany
  · rw [run_push_bind, run_saveSession_bind, run_effect_bind, run_pure, h.messages]
    exact .cutShort q r _ _ _ hgot (h.save _ _)
  · rw [run_push_bind, run_pure, h.messages]
    exact .continued q r _ hgot hstop (by omega)
      ⟨h.requests, h.received, rfl, h.saves, h.entered⟩

theorem branch_does (userMessage : String) (hgot : Got w cfg systemPrompt iteration st t q r)
    (h : Adds t t₁ q [r] t.session.messages []) :
    RoundSays w cfg systemPrompt iteration st t
      (run (branch w cfg userMessage iteration r.state r.response) t₁).1
      (run (branch w cfg userMessage iteration r.state r.response) t₁).2 := by
  unfold branch
  cases hstop : r.response.stopReason with
  | endTurn => exact endTurn_does userMessage hgot (Or.inl hstop) h
  | stopSequence => exact endTurn_does userMessage hgot (Or.inr hstop) h
  | toolUse => exact toolUse_does hgot hstop h
  | maxTokens => exact maxTokens_does hgot hstop h

end Branches

/-- **What a round does**: one of the ways of `RoundSays`, after it has been entered. -/
theorem round_does (w : World σ) (cfg : Config) (systemPrompt userMessage : String)
    (iteration : ℕ) (st : LoopState) (t : Trace σ) :
    RoundSays w cfg systemPrompt iteration st { t with entered := t.entered ++ [st] }
      (run (round w cfg systemPrompt userMessage iteration st) t).1
      (run (round w cfg systemPrompt userMessage iteration st) t).2 := by
  rw [round, run_enter_bind]
  generalize ({ t with entered := t.entered ++ [st] } : Trace σ) = t
  obtain ⟨n, hn, hans⟩ := callWithRetry_does w cfg.provider
    (cfg.request systemPrompt (cfg.prepare systemPrompt st.messages)) t
  rcases hcall : run (callWithRetry w cfg.provider
      (cfg.request systemPrompt (cfg.prepare systemPrompt st.messages))) t
      with ⟨e | response, t₁⟩ <;>
    rw [hcall] at hn hans
  · dsimp only
    rw [run_bind_of_error hcall]
    exact .failed n e t₁ hn
  · dsimp only
    rw [run_bind_of_ok hcall]
    obtain ⟨response', hres, hgo, hq⟩ := promote_does w cfg response t₁
    rcases hprom : run (promote w cfg response) t₁ with ⟨e | response'', t₂⟩ <;>
      rw [hprom] at hres hq
    · simp at hres
    obtain rfl : response'' = response' := by simpa using hres
    rw [run_bind_of_ok hprom, run_receive_bind]
    have h₂ := hn.quiet hq
    have hgot : Got w cfg systemPrompt iteration st t
        (List.replicate n (cfg.request systemPrompt (cfg.prepare systemPrompt st.messages)))
        ⟨iteration,
          { st with
            messages := cfg.prepare systemPrompt st.messages
            totalUsage := st.totalUsage.add response.usage },
          t₂.session.messages, response''⟩ :=
      ⟨⟨n, rfl⟩, ⟨response, hans response rfl, hgo⟩, rfl, h₂.messages, rfl, rfl, rfl⟩
    have h₃ : ∀ r : Received, Adds t { t₂ with received := t₂.received ++ [r] }
        (List.replicate n (cfg.request systemPrompt (cfg.prepare systemPrompt st.messages))) [r]
        t.session.messages [] := by
      refine fun r => ⟨h₂.requests, ?_, h₂.messages, h₂.saves, h₂.entered⟩
      show t₂.received ++ [r] = _
      rw [h₂.received, List.append_nil]
    have h₄ := h₃ ⟨iteration,
      { st with
        messages := cfg.prepare systemPrompt st.messages
        totalUsage := st.totalUsage.add response.usage },
      t₂.session.messages, response''⟩
    have hdoes := branch_does userMessage hgot h₄
    exact hdoes

/-! ### Runs -/

/-- The first round begins here: nothing is recorded yet, and the message of the user is pushed. -/
structure Begins (session : Session) (userMessage : String) (st : LoopState) (cfg : Config)
    (t : Trace σ) : Prop where
  requests : t.requests = []
  received : t.received = []
  saves : t.saves = []
  entered : t.entered = []
  session : t.session.messages = session.messages ++ [.user userMessage]
  messages : st.messages = startMessages t.session.messages
  loopGuard : st.loopGuard = { config := cfg.loopGuardConfig }
  consecutive : st.consecutiveMaxTokens = 0

/-- The system prompt of a run. -/
def systemPromptOf (w : World σ) (cfg : Config) (userMessage : String) (world : σ) : String :=
  let memories := w.recallMemories userMessage world
  let fired := w.fire .beforePromptBuild (.object
    [("system_prompt", .string cfg.systemPrompt), ("user_message", .string userMessage)]) memories.2
  cfg.prompt (w.now fired.2).1 memories.1

theorem runAgentLoop_does (w : World σ) (cfg : Config) (userMessage : String) (world : σ)
    (session : Session) :
    ∃ st t, Begins session userMessage st cfg t ∧
      runOn (runAgentLoop w cfg userMessage) world session =
        run (iterate w cfg (systemPromptOf w cfg userMessage world) userMessage
          cfg.maxIterations 0 st) t := by
  rw [runOn, runAgentLoop, run_effect_bind, run_effect_bind, run_effect_bind, run_push_bind,
    run_get_bind]
  refine ⟨_, _, ?_, rfl⟩
  constructor <;> dsimp only

/-- **Induction over the rounds of a run.**  What holds before each round and leads from every way
in which it can end to the next round or to the end of the run, holds in the end. -/
theorem iterate_induction {w : World σ} {cfg : Config} {systemPrompt userMessage : String}
    {I : ℕ → LoopState → Trace σ → Prop} {F : Trace σ → Prop}
    (hnext : ∀ iteration st t t' st', I iteration st t → iteration < cfg.maxIterations →
      RoundSays w cfg systemPrompt iteration st { t with entered := t.entered ++ [st] }
        (.ok (.next st')) t' → I (iteration + 1) st' t')
    (hend : ∀ iteration st t t' result, I iteration st t → iteration < cfg.maxIterations →
      Ends result → RoundSays w cfg systemPrompt iteration st
        { t with entered := t.entered ++ [st] } result t' → F t')
    (hlast : ∀ iteration st t s, I iteration st t →
      F { t with world := s, saves := t.saves ++ [t.session.messages] })
    (fuel iteration : ℕ) (hfuel : iteration + fuel = cfg.maxIterations) (st : LoopState)
    (t : Trace σ) (h : I iteration st t) :
    F (run (iterate w cfg systemPrompt userMessage fuel iteration st) t).2 := by
  induction fuel generalizing iteration st t with
  | zero =>
    rw [iterate, run_saveSession_bind, run_effect_bind, run_throw]
    exact hlast iteration st t _ h
  | succ fuel ih =>
    have hlt : iteration < cfg.maxIterations := by omega
    have hdoes := round_does w cfg systemPrompt userMessage iteration st t
    rw [iterate]
    rcases hrun : run (round w cfg systemPrompt userMessage iteration st) t with ⟨e | flow, t'⟩ <;>
      rw [hrun] at hdoes
    · rw [run_bind_of_error hrun]
      exact hend iteration st t t' _ h hlt (by simp [Ends]) hdoes
    · rw [run_bind_of_ok hrun]
      cases flow with
      | done result => exact hend iteration st t t' _ h hlt (by simp [Ends]) hdoes
      | next st' =>
        exact ih (iteration + 1) (by omega) st' t' (hnext iteration st t t' st' h hlt hdoes)

/-- The response of a round that got one comes from the driver. -/
theorem RoundSays.received {w : World σ} {cfg : Config} {systemPrompt : String} {iteration : ℕ}
    {st : LoopState} {t t' : Trace σ} {result : Except RustyHandError Flow}
    (h : RoundSays w cfg systemPrompt iteration st t result t') :
    t'.received = t.received ∨ ∃ q r, Got w cfg systemPrompt iteration st t q r ∧
      t'.received = t.received ++ [r] := by
  cases h with
  | failed n e _ h => exact Or.inl (h.received.trans (List.append_nil _))
  | silent q r _ _ hgot _ h | again q r _ hgot _ h | answered q r _ _ _ hgot _ _ h
  | ran q r _ _ _ hgot _ _ _ _ h | broken q r _ _ hgot _ _ h | cutShort q r _ _ _ hgot h
  | continued q r _ hgot _ _ h => exact Or.inr ⟨q, r, hgot, h.received⟩

/-- A round sends its request so many times, and no other. -/
theorem RoundSays.requests {w : World σ} {cfg : Config} {systemPrompt : String} {iteration : ℕ}
    {st : LoopState} {t t' : Trace σ} {result : Except RustyHandError Flow}
    (h : RoundSays w cfg systemPrompt iteration st t result t') :
    t'.entered = t.entered ∧ ∃ n, t'.requests = t.requests ++
      List.replicate n (cfg.request systemPrompt (cfg.prepare systemPrompt st.messages)) := by
  cases h with
  | failed n e _ h => exact ⟨h.entered, n, h.requests⟩
  | silent q r _ _ hgot _ h | again q r _ hgot _ h | answered q r _ _ _ hgot _ _ h
  | ran q r _ _ _ hgot _ _ _ _ h | broken q r _ _ hgot _ _ h | cutShort q r _ _ _ hgot h
  | continued q r _ hgot _ _ h =>
    obtain ⟨n, rfl⟩ := hgot.requests
    exact ⟨h.entered, n, h.requests⟩

/-- Every response of a run comes from the driver. -/
theorem received_goesOn (w : World σ) (cfg : Config) (userMessage : String) (world : σ)
    (session : Session) :
    ∀ r ∈ (runOn (runAgentLoop w cfg userMessage) world session).2.received,
      ∃ request response, Answers w request response ∧ GoesOn response r.response := by
  obtain ⟨st, t, hbegin, hrun⟩ := runAgentLoop_does w cfg userMessage world session
  rw [hrun]
  generalize systemPromptOf w cfg userMessage world = systemPrompt
  have hround : ∀ iteration (st : LoopState) (t t' : Trace σ) result,
      (∀ r ∈ t.received, ∃ request response, Answers w request response ∧
        GoesOn response r.response) →
      RoundSays w cfg systemPrompt iteration st { t with entered := t.entered ++ [st] }
        result t' →
      ∀ r ∈ t'.received, ∃ request response, Answers w request response ∧
        GoesOn response r.response := by
    intro iteration st t t' result hall hdoes r hr
    rcases hdoes.received with heq | ⟨q, r', hgot, heq⟩ <;> rw [heq] at hr
    · exact hall r hr
    · rcases List.mem_append.1 hr with hr | hr
      · exact hall r hr
      · rw [List.mem_singleton.1 hr]
        exact ⟨_, hgot.answered⟩
  refine iterate_induction
    (I := fun _ _ t => ∀ r ∈ t.received, ∃ request response, Answers w request response ∧
      GoesOn response r.response)
    (fun iteration st t t' st' h _ hdoes => hround iteration st t t' _ h hdoes)
    (fun iteration st t t' result h _ _ hdoes => hround iteration st t t' _ h hdoes)
    (fun _ _ t s h => h) cfg.maxIterations 0 (Nat.zero_add _) st t ?_
  rw [hbegin.received]
  simp

/-! ### A scripted driver -/

/-- A configuration with the defaults. -/
def Config.sample : Config where
  agentName := "agent"
  agentId := "1"
  model := "model"
  provider := "provider"
  maxTokens := 4096
  temperature := 0
  systemPrompt := ""
  thinking := none
  responseFormat := .text
  autonomousMaxIterations := none
  availableTools := []
  contextWindowTokens := none

/-- A scripted answer is returned at the first attempt. -/
theorem callWithRetry_scripted {answers : ℕ → Except LlmError CompletionResponse}
    {response : CompletionResponse} (provider : String) (request : LlmDriver.CompletionRequest)
    (t : Trace ℕ) (h : answers t.world = .ok response) :
    run (callWithRetry (World.scripted answers) provider request) t =
      (.ok response,
        { t with world := t.world + 1, requests := t.requests ++ [request] }) := by
  have hanswer : (World.scripted answers).answer request t.world = (.ok response, t.world + 1) :=
    congrArg (·, t.world + 1) h
  rw [callWithRetry, run_effect_bind]
  show run (completeAttempts _ _ _ 3) t = _
  rw [completeAttempts, run_complete_bind, hanswer]
  rfl

/-- A round whose answer is scripted goes on with the branch of its stop reason. -/
theorem round_scripted (answers : ℕ → Except LlmError CompletionResponse)
    (response : CompletionResponse) (cfg : Config) (systemPrompt userMessage : String)
    (iteration : ℕ) (st : LoopState) (t : Trace ℕ) (h : answers t.world = .ok response)
    (hstop : response.stopReason = .toolUse ∨ response.stopReason = .maxTokens) :
    ∃ st' t', run (round (World.scripted answers) cfg systemPrompt userMessage iteration st) t =
        run (branch (World.scripted answers) cfg userMessage iteration st' response) t' ∧
      st'.messages = cfg.prepare systemPrompt st.messages ∧ st'.loopGuard = st.loopGuard ∧
      st'.consecutiveMaxTokens = st.consecutiveMaxTokens ∧
      Adds t { t' with entered := t.entered }
        [cfg.request systemPrompt (cfg.prepare systemPrompt st.messages)]
        [⟨iteration, st', t.session.messages, response⟩] t.session.messages [] ∧
      t'.entered = t.entered ++ [st] ∧ t'.world = t.world + 1 := by
  rw [round, run_enter_bind]
  dsimp only
  rw [run_bind_of_ok (callWithRetry_scripted cfg.provider _
    { t with entered := t.entered ++ [st] } h)]
  have hpromote : ∀ t : Trace ℕ,
      run (promote (World.scripted answers) cfg response) t = (.ok response, t) := by
    intro t
    rw [promote, if_neg (by rcases hstop with hstop | hstop <;> simp [hstop])]
    rfl
  rw [run_bind_of_ok (hpromote _), run_receive_bind]
  exact ⟨_, _, rfl, rfl, rfl, rfl, ⟨rfl, rfl, rfl, (List.append_nil _).symm, rfl⟩, rfl, rfl⟩

end LoopRun
end RustyHand
