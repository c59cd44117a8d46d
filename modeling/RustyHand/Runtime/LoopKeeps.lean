import RustyHand.Runtime.RoundSays

/-!
# What the agent loop leaves alone

An observation of a trace that no step but the execution of tools can change is the same before and
after everything else that a round does.

* `Keeps`: a computation leaves an observation alone;
* `Blind`: an observation that sees neither the session nor what the world does, tools apart;
* `round_eq`: a round taken apart into what comes before its branch and the branch.
-/

namespace RustyHand
namespace LoopRun

open Effects LlmDriver

variable {σ α β γ : Type}

/-- Whatever comes of the computation, the observation is the same after it. -/
def Keeps (f : Trace σ → γ) (x : Run σ α) : Prop := ∀ t, f (run x t).2 = f t

section Rules

variable {f : Trace σ → γ} {x : Run σ α} {k : α → Run σ β}

theorem Keeps.pure (v : α) : Keeps f (Pure.pure v : Run σ α) := fun _ => rfl

theorem Keeps.throw (e : RustyHandError) : Keeps f (MonadExcept.throw e : Run σ α) := fun _ => rfl

theorem Keeps.bind (hx : Keeps f x) (hk : ∀ v, Keeps f (k v)) : Keeps f (x >>= k) := by
  intro t
  have hfirst := hx t
  rcases hrun : run x t with ⟨e | v, t'⟩ <;> rw [hrun] at hfirst
  · rw [run_bind_of_error hrun]
    exact hfirst
  · rw [run_bind_of_ok hrun, hk v t']
    exact hfirst

theorem Keeps.get_bind {k : Trace σ → Run σ β} (hk : ∀ t, Keeps f (k t)) :
    Keeps f (MonadState.get >>= k) := fun t => hk t t

theorem Keeps.ite {p : Prop} [Decidable p] {y : Run σ α} (hx : Keeps f x) (hy : Keeps f y) :
    Keeps f (if p then x else y) := by
  split_ifs
  · exact hx
  · exact hy

end Rules

/-! ### Blind observations -/

/-- The observation sees neither the session, the requests and the saves, nor what the world does
when it is not executing a tool. -/
structure Blind (w : World σ) (f : Trace σ → γ) : Prop where
  session : ∀ t session, f { t with session := session } = f t
  entered : ∀ t entered, f { t with entered := entered } = f t
  save : ∀ t saves, f { t with world := (w.saveSession t.session t.world).2, saves := saves } = f t
  complete : ∀ t request requests,
    f { t with world := (w.answer request t.world).2, requests := requests } = f t
  fire : ∀ t event data, f { t with world := (w.fire event data t.world).2 } = f t
  now : ∀ t, f { t with world := (w.now t.world).2 } = f t
  memories : ∀ t text, f { t with world := (w.recallMemories text t.world).2 } = f t
  remember : ∀ t text, f { t with world := w.remember text t.world } = f t
  label : ∀ t id label, f { t with world := (w.setSessionLabel id label t.world).2 } = f t
  newIds : ∀ t, f { t with world := (w.newIds t.world).2 } = f t
  cooldown : ∀ t provider, f { t with world := (w.cooldown provider t.world).2 } = f t
  success : ∀ t provider, f { t with world := w.recordSuccess provider t.world } = f t
  failure : ∀ t provider billing,
    f { t with world := w.recordFailure provider billing t.world } = f t

/-- The responses are seen by none of this. -/
theorem blind_received (w : World σ) : Blind w Trace.received := by
  constructor <;> intros <;> rfl

namespace Blind

variable {w : World σ} {f : Trace σ → γ} (h : Blind w f)

include h

theorem push (m : Message) : Keeps f (LoopRun.push m) := fun t => h.session t _

theorem saveSession : Keeps f (LoopRun.saveSession w) := fun t => h.save t _

theorem afterComplete (provider : String) {again : Option (Run σ CompletionResponse)}
    (hagain : ∀ x, again = some x → Keeps f x) (result : Except LlmError CompletionResponse) :
    Keeps f (LoopRun.afterComplete w provider again result) := by
  have hgiveUp : ∀ isBilling message,
      Keeps f (giveUp w provider isBilling message : Run σ CompletionResponse) :=
    fun isBilling message t => h.failure t provider isBilling
  have hgetD : ∀ (o : Option (Run σ CompletionResponse)) isBilling message,
      (∀ x, o = some x → Keeps f x) → Keeps f (o.getD (giveUp w provider isBilling message)) := by
    intro o isBilling message ho
    cases o with
    | none => exact hgiveUp isBilling message
    | some x => exact ho x rfl
  cases result with
  | ok response => exact fun t => h.success t provider
  | error e =>
    cases e with
    | rateLimited | overloaded => exact hgetD again _ _ hagain
    | http | api | parse | missingApiKey =>
      refine hgetD _ _ _ fun x hx => ?_
      split_ifs at hx
      exact hagain x hx

theorem completeAttempts (provider : String) (request : LlmDriver.CompletionRequest)
    (retries : ℕ) : Keeps f (LoopRun.completeAttempts w provider request retries) := by
  have hcomplete : Keeps f (LoopRun.complete w request) := fun t => h.complete t request _
  induction retries with
  | zero => exact hcomplete.bind fun result => h.afterComplete provider (by simp) result
  | succ retries ih =>
    refine hcomplete.bind fun result => h.afterComplete provider (fun x hx => ?_) result
    obtain rfl := Option.some.inj hx
    exact ih

theorem callWithRetry (provider : String) (request : LlmDriver.CompletionRequest) :
    Keeps f (LoopRun.callWithRetry w provider request) := by
  have hcooldown : Keeps f (effect (w.cooldown provider)) := fun t => h.cooldown t provider
  refine hcooldown.bind fun verdict => ?_
  cases verdict with
  | reject reason secs => exact Keeps.throw _
  | allow | allowProbe => exact h.completeAttempts provider request maxRetries

theorem promote (cfg : Config) (response : CompletionResponse) :
    Keeps f (LoopRun.promote w cfg response) := by
  have hids : Keeps f (effect w.newIds) := fun t => h.newIds t
  refine Keeps.ite ?_ (Keeps.pure _)
  refine Keeps.bind (hids.bind fun _ => Keeps.pure _) fun recovered => ?_
  exact Keeps.ite (Keeps.pure _) (Keeps.pure _)

theorem autoLabel (userMessage : String) : Keeps f (LoopRun.autoLabel w userMessage) := by
  refine Keeps.get_bind fun t => Keeps.ite ?_ (Keeps.pure _)
  cases LoopText.deriveSessionLabel w.isAlphanumeric userMessage with
  | none => exact Keeps.pure _
  | some label =>
    refine Keeps.ite ?_ (Keeps.pure _)
    have hlabel : Keeps f (effect (w.setSessionLabel t.session.id label)) :=
      fun t' => h.label t' _ label
    refine hlabel.bind fun set => ?_
    split
    · exact fun t' => h.session t' _
    · exact Keeps.pure _

theorem endTurn (userMessage : String) (iteration : ℕ) (st : LoopState)
    (response : CompletionResponse) :
    Keeps f (LoopRun.endTurn w userMessage iteration st response) := by
  unfold LoopRun.endTurn
  dsimp only
  split_ifs
  · refine (h.push _).bind fun _ => h.saveSession.bind fun saved => ?_
    cases saved with
    | error e => exact Keeps.throw _
    | ok _ => exact Keeps.pure _
  · exact Keeps.pure _
  · refine (h.push _).bind fun _ => ?_
    refine Keeps.bind (fun t => h.session t _) fun _ => h.saveSession.bind fun saved => ?_
    cases saved with
    | error e => exact Keeps.throw _
    | ok _ =>
      refine (h.autoLabel userMessage).bind fun _ => ?_
      refine Keeps.bind (fun t => h.remember t _) fun _ => ?_
      exact Keeps.bind (fun t => h.fire t _ _) fun _ => Keeps.pure _

theorem maxTokens (iteration : ℕ) (st : LoopState) (response : CompletionResponse) :
    Keeps f (LoopRun.maxTokens w iteration st response) := by
  unfold LoopRun.maxTokens
  dsimp only
  split_ifs
  · refine (h.push _).bind fun _ => h.saveSession.bind fun _ => ?_
    exact Keeps.bind (fun t => h.fire t _ _) fun _ => Keeps.pure _
  · exact (h.push _).bind fun _ => Keeps.pure _

end Blind

/-! ### The branch of a round -/

/-- The response `r` is there, in a trace that is otherwise like `t`. -/
structure Asked (w : World σ) (st : LoopState) (t : Trace σ) (r : Received) (t₀ : Trace σ) :
    Prop where
  blind : ∀ {γ : Type} {f : Trace σ → γ}, Blind w f → f t₀ = f t
  session : t₀.session.messages = t.session.messages
  saves : t₀.saves = t.saves
  found : r.session = t.session.messages
  loopGuard : r.state.loopGuard = st.loopGuard

/-- A round fails before it has a response, or goes on with the branch of the response. -/
theorem round_eq (w : World σ) (cfg : Config) (systemPrompt userMessage : String) (iteration : ℕ)
    (st : LoopState) (t : Trace σ) :
    (∃ e t', run (round w cfg systemPrompt userMessage iteration st) t = (.error e, t') ∧
        ∀ {γ : Type} {f : Trace σ → γ}, Blind w f → f t' = f t) ∨
      ∃ r t₀, Asked w st t r t₀ ∧
        run (round w cfg systemPrompt userMessage iteration st) t =
          run (branch w cfg userMessage iteration r.state r.response)
            { t₀ with received := t₀.received ++ [r] } := by
  rw [round, run_enter_bind]
  dsimp only
  obtain ⟨n, hn, -⟩ := callWithRetry_does w cfg.provider
    (cfg.request systemPrompt (cfg.prepare systemPrompt st.messages))
    { t with entered := t.entered ++ [st] }
  have hblind : ∀ {γ : Type} {f : Trace σ → γ}, Blind w f → f (run (callWithRetry w cfg.provider
      (cfg.request systemPrompt (cfg.prepare systemPrompt st.messages)))
      { t with entered := t.entered ++ [st] }).2 = f t := by
    intro γ f hf
    rw [hf.callWithRetry, hf.entered]
  rcases hcall : run (callWithRetry w cfg.provider
      (cfg.request systemPrompt (cfg.prepare systemPrompt st.messages)))
      { t with entered := t.entered ++ [st] } with ⟨e | response, t₁⟩ <;> rw [hcall] at hn hblind
  · left
    rw [run_bind_of_error hcall]
    exact ⟨e, t₁, rfl, hblind⟩
  · right
    rw [run_bind_of_ok hcall]
    obtain ⟨response', hres, -, hq⟩ := promote_does w cfg response t₁
    have hpromoted : ∀ {γ : Type} {f : Trace σ → γ}, Blind w f →
        f (run (promote w cfg response) t₁).2 = f t := by
      intro γ f hf
      rw [hf.promote, hblind hf]
    rcases hprom : run (promote w cfg response) t₁ with ⟨e | response'', t₂⟩ <;>
      rw [hprom] at hres hq hpromoted
    · simp at hres
    rw [run_bind_of_ok hprom, run_receive_bind]
    have h₂ := hn.quiet hq
    refine ⟨⟨iteration,
        { st with
          messages := cfg.prepare systemPrompt st.messages
          totalUsage := st.totalUsage.add response.usage },
        t₂.session.messages, response''⟩, t₂, ⟨hpromoted, h₂.messages, ?_, h₂.messages, rfl⟩, rfl⟩
    rw [h₂.saves, List.append_nil]

theorem branch_received (w : World σ) (cfg : Config) (userMessage : String) (iteration : ℕ)
    (st : LoopState) (response : CompletionResponse) :
    Keeps Trace.received (branch w cfg userMessage iteration st response) := by
  have hblind := blind_received w
  unfold branch
  cases response.stopReason with
  | endTurn | stopSequence => exact hblind.endTurn userMessage iteration st response
  | maxTokens => exact hblind.maxTokens iteration st response
  | toolUse =>
    refine (hblind.push _).bind fun _ => Keeps.bind (fun t => ?_) fun r =>
      (hblind.push _).bind fun _ => hblind.saveSession.bind fun _ => Keeps.pure _
    rcases executeCalls_does w cfg response.toolCalls st.loopGuard [] t with
      ⟨_, _, _, _, _, hquiet, _⟩ | ⟨_, _, hadds, _⟩
    · exact hquiet.received.trans (List.append_nil _)
    · exact hadds.received.trans (List.append_nil _)

end LoopRun
end RustyHand
