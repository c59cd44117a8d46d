import RustyHand.Runtime.LoopStreaming
import RustyHand.Runtime.RoundSays
import RustyHand.Session.RepairRoles

/-!
# The requests that the agent loop sends

When every request of a run has roles that alternate from the user on, no empty message, and each
`ToolUse` answered in the next message.  The repair sees to it before the first round, if at most
twenty messages are left then; after that the loop appends a message of the assistant and one of the
user in each round, and neither is checked.

* `RequestOk`, `Ready`: a well formed request, and one with the user last;
* `BeginsWell`: the sessions whose first request is well formed;
* `Received.KeepsForm`: the responses after which the next request is;
* `requests_wellFormed`: every request of such a run.
-/

namespace RustyHand
namespace LoopRun

open Effects LlmDriver Pairing SessionRepair

variable {σ : Type}

/-- What a provider accepts: roles that alternate from the user on, no empty message, and every
`ToolUse` answered in the next message. -/
structure RequestOk (messages : List Message) : Prop where
  nonempty : messages ≠ []
  roles : ∀ i m, messages[i]? = some m → m.role = if i % 2 = 0 then .user else .assistant
  noEmpty : NoEmpty messages
  answered : ∀ i m, messages[i]? = some m → ∀ id ∈ m.useIds,
    ∃ n, messages[i + 1]? = some n ∧ id ∈ n.resultIds

/-- The user speaks last. -/
structure Ready (messages : List Message) : Prop extends RequestOk messages where
  odd : messages.length % 2 = 1

/-! ### What a round appends -/

/-- A turn of the assistant and one of the user are appended, which answers its uses. -/
theorem Ready.append {l : List Message} (h : Ready l) {c c' : MessageContent}
    (hc : c.isEmpty = false) (hc' : c'.isEmpty = false)
    (huse : ∀ id ∈ (⟨.assistant, c⟩ : Message).useIds, id ∈ (⟨.user, c'⟩ : Message).resultIds)
    (hnil : (⟨.user, c'⟩ : Message).useIds = []) :
    Ready (l ++ [⟨.assistant, c⟩, ⟨.user, c'⟩]) := by
  have hodd := h.odd
  -- a message of the new list is an old one or one of the two
  have hget : ∀ i m, (l ++ [⟨.assistant, c⟩, ⟨.user, c'⟩])[i]? = some m →
      (i < l.length ∧ l[i]? = some m) ∨ (i = l.length ∧ m = ⟨.assistant, c⟩) ∨
        (i = l.length + 1 ∧ m = ⟨.user, c'⟩) := by
    intro i m hm
    by_cases hi : i < l.length
    · rw [List.getElem?_append_left hi] at hm
      exact Or.inl ⟨hi, hm⟩
    · rw [List.getElem?_append_right (by omega)] at hm
      obtain ⟨k, rfl⟩ : ∃ k, i = l.length + k := ⟨i - l.length, by omega⟩
      rw [Nat.add_sub_cancel_left] at hm
      match k, hm with
      | 0, hm => exact Or.inr (Or.inl ⟨rfl, (Option.some.inj hm).symm⟩)
      | 1, hm => exact Or.inr (Or.inr ⟨rfl, (Option.some.inj hm).symm⟩)
  refine ⟨⟨by simp, fun i m hm => ?_, fun m hm => ?_, fun i m hm id hid => ?_⟩, ?_⟩
  · rcases hget i m hm with ⟨-, hm⟩ | ⟨rfl, rfl⟩ | ⟨rfl, rfl⟩
    · exact h.roles i m hm
    · rw [if_neg (by omega)]
    · rw [if_pos (by omega)]
  · rcases List.mem_append.1 hm with hm | hm
    · exact h.noEmpty m hm
    · rcases List.mem_pair.1 hm with rfl | rfl
      · exact hc
      · exact hc'
  · rcases hget i m hm with ⟨hi, hm⟩ | ⟨rfl, rfl⟩ | ⟨rfl, rfl⟩
    · obtain ⟨n, hn, hidn⟩ := h.answered i m hm id hid
      have hlt := (List.getElem?_eq_some_iff.1 hn).1
      exact ⟨n, by rw [List.getElem?_append_left hlt]; exact hn, hidn⟩
    · refine ⟨⟨.user, c'⟩, ?_, huse id hid⟩
      rw [List.getElem?_append_right (by omega), Nat.add_sub_cancel_left]
      rfl
    · rw [hnil] at hid
      cases hid
  · rw [List.length_append, List.length_cons, List.length_singleton]
    omega

theorem Ready.append_texts {l : List Message} (h : Ready l) {s s' : String} (hs : s ≠ "")
    (hs' : s' ≠ "") : Ready (l ++ [.assistant s, .user s']) :=
  h.append (by simpa [MessageContent.isEmpty] using hs)
    (by simpa [MessageContent.isEmpty] using hs') (fun id hid => absurd hid List.not_mem_nil) rfl

/-! ### What the preparation keeps -/

/-- What a well formed request shows of a message. -/
def outline (m : Message) : (Role × List String × List String) × Bool :=
  (shape m, m.content.isEmpty)

theorem Ready.congr {l l' : List Message} (hl : l'.map outline = l.map outline) (h : Ready l) :
    Ready l' := by
  have hget : ∀ (i : ℕ) m', l'[i]? = some m' →
      ∃ m : Message, l[i]? = some m ∧ outline m' = outline m := by
    intro i m' hm'
    have hi : (l'.map outline)[i]? = (l.map outline)[i]? := by rw [hl]
    rw [List.getElem?_map, List.getElem?_map, hm', Option.map_some, eq_comm,
      Option.map_eq_some_iff] at hi
    obtain ⟨m, hm, hout⟩ := hi
    exact ⟨m, hm, hout.symm⟩
  have hlen : l'.length = l.length := by simpa using congrArg List.length hl
  have hshape : l.map shape = l'.map shape := by
    have := congrArg (List.map Prod.fst) hl
    rw [List.map_map, List.map_map] at this
    exact this.symm
  refine ⟨⟨fun hnil => ?_, fun i m' hm' => ?_, fun m' hm' => ?_, fun i m' hm' id hid => ?_⟩,
    by rw [hlen]; exact h.odd⟩
  · rw [hnil, List.length_nil] at hlen
    exact h.nonempty (List.length_eq_zero_iff.1 hlen.symm)
  · obtain ⟨m, hm, hout⟩ := hget i m' hm'
    have hrole : m'.role = m.role := congrArg (·.1.1) hout
    rw [hrole]
    exact h.roles i m hm
  · obtain ⟨i, hi⟩ := List.mem_iff_getElem?.1 hm'
    obtain ⟨m, hm, hout⟩ := hget i m' hi
    have hempty : m'.content.isEmpty = m.content.isEmpty := congrArg Prod.snd hout
    rw [hempty]
    exact h.noEmpty m (List.mem_of_getElem? hm)
  · obtain ⟨m, hm, hout⟩ := hget i m' hm'
    have huse : m'.useIds = m.useIds := congrArg (·.1.2.1) hout
    rw [huse] at hid
    obtain ⟨n, hn, hidn⟩ := h.answered i m hm id hid
    obtain ⟨n', hn', hshape'⟩ := getElem?_of_shape hshape.symm hn
    have hres : n'.resultIds = n.resultIds := congrArg (·.2.2) hshape'
    exact ⟨n', hn', by rwa [hres]⟩

/-- The recovery from overflow leaves every message there, with its results truncated at most. -/
def KeepsMessages (cfg : Config) (systemPrompt : String) (messages : List Message) : Prop :=
  (ContextOverflow.recoverFromOverflow messages systemPrompt cfg.availableTools
      cfg.ctxWindow).2 = messages ∨
    (ContextOverflow.recoverFromOverflow messages systemPrompt cfg.availableTools
      cfg.ctxWindow).2 = messages.map ContextOverflow.truncateToolResults

theorem prepare_outline {cfg : Config} {systemPrompt : String} {messages : List Message}
    (h : KeepsMessages cfg systemPrompt messages) :
    (cfg.prepare systemPrompt messages).map outline = messages.map outline := by
  have hzip : ∀ l : List Message,
      l.map outline = (l.map shape).zip (l.map fun m => m.content.isEmpty) := by
    intro l
    rw [List.zip_map']
    rfl
  have hguard : ∀ l : List Message,
      (ContextBudget.applyContextGuard l cfg.budget).1.map outline = l.map outline := by
    intro l
    rw [hzip, hzip, ContextBudget.applyContextGuard_sameShape,
      ContextBudget.applyContextGuard_isEmpty]
  rw [Config.prepare, hguard]
  rcases h with h | h <;> rw [h]
  rw [List.map_map]
  refine List.map_congr_left fun m _ => ?_
  exact Prod.ext (ContextOverflow.shape_truncateToolResults m)
    (ContextOverflow.truncateToolResults_isEmpty m)

/-! ### The first request -/

/-- What the loop repairs: the session without the messages of the system, and the message of the
user. -/
def history (session : List Message) (userMessage : String) : List Message :=
  (session.filter fun m => m.role ≠ .system) ++ [.user userMessage]

/-- The message of the user has a text, the uses and results of the session stand under their roles
and use each id once, its first message that says something is the user's, and at most twenty
messages are left when it is repaired. -/
structure BeginsWell (session : List Message) (userMessage : String) : Prop where
  text : userMessage ≠ ""
  disciplined : Disciplined (history session userMessage)
  nodup : (toolUseIds (history session userMessage)).Nodup
  userFirst : UserFirst (history session userMessage)
  short : (validateAndRepair (history session userMessage)).length ≤ maxHistoryMessages

theorem roles_of_alternate {l : List Message} (hc : l.IsChain fun m n => m.role ≠ n.role)
    (hsys : NoSystem l) (hhead : ∃ m, l.head? = some m ∧ m.role = .user) :
    ∀ i m, l[i]? = some m → m.role = if i % 2 = 0 then .user else .assistant := by
  intro i
  induction i with
  | zero =>
    intro m hm
    obtain ⟨m', hm', hrole⟩ := hhead
    rw [List.head?_eq_getElem?, hm] at hm'
    rw [Option.some.inj hm']
    exact hrole
  | succ i ih =>
    intro m hm
    have hlt := (List.getElem?_eq_some_iff.1 hm).1
    have hprev := ih l[i] (List.getElem?_eq_getElem (by omega))
    have hne : l[i].role ≠ m.role := by
      have := List.isChain_iff_getElem.1 hc i hlt
      rwa [(List.getElem?_eq_some_iff.1 hm).2] at this
    have hm' := hsys m (List.mem_of_getElem? hm)
    rw [hprev] at hne
    by_cases hi : i % 2 = 0
    · rw [if_pos hi] at hne
      rw [if_neg (by omega)]
      cases hr : m.role <;> simp_all
    · rw [if_neg hi] at hne
      rw [if_pos (by omega)]
      cases hr : m.role <;> simp_all

/-- The history of the first request is well formed. -/
theorem BeginsWell.ready {session : List Message} {userMessage : String}
    (h : BeginsWell session userMessage) :
    Ready (startMessages (session ++ [.user userMessage])) := by
  have hfilter : (session ++ [Message.user userMessage]).filter (fun m => m.role ≠ Role.system) =
      history session userMessage := by
    rw [List.filter_append]
    rfl
  rw [startMessages, hfilter, if_neg (not_lt.2 h.short)]
  obtain ⟨hpaired, -⟩ := validateAndRepair_paired h.disciplined h.nodup
  have hsys : NoSystem (history session userMessage) := by
    intro m hm
    rcases List.mem_append.1 hm with hm | hm
    · simpa using (List.mem_filter.1 hm).2
    · obtain rfl := List.mem_singleton.1 hm
      simp [Message.user]
  have hroles := roles_of_alternate hpaired.alternate (noSystem_validateAndRepair hsys)
    (head_validateAndRepair h.disciplined h.nodup h.text h.userFirst)
  obtain ⟨last, hlast, hrole⟩ := getLast_validateAndRepair h.disciplined h.nodup h.text
  change (validateAndRepair (history session userMessage)).getLast? = some last at hlast
  rw [List.getLast?_eq_getElem?] at hlast
  have hpos : validateAndRepair (history session userMessage) ≠ [] := by
    intro hnil
    rw [hnil] at hlast
    cases hlast
  have hlen := List.length_pos_iff.2 hpos
  refine ⟨⟨hpos, hroles, noEmpty_validateAndRepair _, hpaired.answered⟩, ?_⟩
  -- the last message is the user's, so that its index is even
  by_contra hodd
  have hbad := hroles _ last hlast
  rw [if_neg (by omega), hrole] at hbad
  cases hbad

/-! ### Runs -/

/-- What the loop appends after the response is well formed: it does not use tools without a call,
and leaves a text when it goes on after the token limit. -/
structure Received.KeepsForm (r : Received) : Prop where
  toolUse : r.response.stopReason = .toolUse →
    r.response.content ≠ [] ∧ r.response.toolCalls ≠ [] ∧
      ∀ call ∈ r.response.toolUses, call.id ∈ r.response.toolCalls.map ToolCall.id
  maxTokens : r.response.stopReason = .maxTokens →
    r.state.consecutiveMaxTokens + 1 < AgentLoop.maxContinuations → r.response.text ≠ ""

/-- The responses that another round follows keep the form of the requests. -/
def FitsForm (cfg : Config) (received : List Received) : Prop :=
  ∀ r ∈ received, r.iteration + 1 < cfg.maxIterations → r.KeepsForm

/-- What holds before each round: in a run that fits, the messages are ready, and the requests so
far are well formed. -/
def FormInv (cfg : Config) (systemPrompt : String) (iteration : ℕ) (st : LoopState)
    (t : Trace σ) : Prop :=
  (∀ st ∈ t.entered, KeepsMessages cfg systemPrompt st.messages) → FitsForm cfg t.received →
    (iteration < cfg.maxIterations → Ready st.messages) ∧
      ∀ request ∈ t.requests, RequestOk request.messages

variable {w : World σ} {cfg : Config} {systemPrompt : String} {iteration : ℕ} {st st' : LoopState}
  {t t' : Trace σ} {result : Except RustyHandError Flow}

/-- A round that is entered with messages that are ready sends a well formed request. -/
theorem FormInv.requests (hinv : FormInv cfg systemPrompt iteration st t)
    (hlt : iteration < cfg.maxIterations)
    (hdoes : RoundSays w cfg systemPrompt iteration st { t with entered := t.entered ++ [st] }
      result t')
    (hkeeps : ∀ st ∈ t'.entered, KeepsMessages cfg systemPrompt st.messages)
    (hfits : FitsForm cfg t'.received) :
    Ready (cfg.prepare systemPrompt st.messages) ∧
      ∀ request ∈ t'.requests, RequestOk request.messages := by
  obtain ⟨hentered, n, hrequests⟩ := hdoes.requests
  dsimp only at hentered hrequests
  rw [hentered] at hkeeps
  have hsofar : FitsForm cfg t.received := by
    rcases hdoes.received with heq | ⟨q, r, -, heq⟩ <;> rw [heq] at hfits
    · exact hfits
    · exact fun r hr => hfits r (List.mem_append_left _ hr)
  obtain ⟨hready, hok⟩ := hinv (fun st hst => hkeeps st (List.mem_append_left _ hst)) hsofar
  have hprepared := (hready hlt).congr
    (prepare_outline (hkeeps st (List.mem_append_right _ (List.mem_singleton.2 rfl))))
  refine ⟨hprepared, fun request hrequest => ?_⟩
  rw [hrequests] at hrequest
  rcases List.mem_append.1 hrequest with hrequest | hrequest
  · exact hok request hrequest
  · obtain rfl := List.eq_of_mem_replicate hrequest
    exact hprepared.toRequestOk

/-- A round that goes on leaves messages that are ready, if its response keeps the form. -/
theorem FormInv.next (hinv : FormInv cfg systemPrompt iteration st t)
    (hlt : iteration < cfg.maxIterations)
    (hdoes : RoundSays w cfg systemPrompt iteration st { t with entered := t.entered ++ [st] }
      (.ok (.next st')) t') :
    FormInv cfg systemPrompt (iteration + 1) st' t' := by
  intro hkeeps hfits
  obtain ⟨hprepared, hok⟩ := hinv.requests hlt hdoes hkeeps hfits
  refine ⟨fun hmore => ?_, hok⟩
  have hform : ∀ {q : List LlmDriver.CompletionRequest} {r : Received},
      Got w cfg systemPrompt iteration st { t with entered := t.entered ++ [st] } q r →
      r ∈ t'.received → r.KeepsForm := fun hgot hr =>
          hfits _ hr (by rw [hgot.iteration]; exact hmore)
  cases hdoes with
  | silent q r _ _ hgot hend h => exact absurd rfl (hend st')
  | answered q r text _ _ hgot hfinal hend h => exact absurd rfl (hend st')
  | again q r _ hgot hans h =>
    rw [hgot.messages]
    exact hprepared.append_texts (by simp) (by simp)
  | ran q r g results _ hgot hstop hresults hcount _ h =>
    obtain ⟨hcontent, hcalls, hsub⟩ := (hform hgot (by rw [h.received]; simp)).toolUse hstop
    rw [hgot.messages]
    refine hprepared.append ?_ ?_ (fun id hid => ?_) hresults.ids.2
    · exact List.isEmpty_eq_false_iff.2 hcontent
    · refine List.isEmpty_eq_false_iff.2 fun hnil => hcalls ?_
      rw [← List.length_eq_zero_iff, hresults.length_eq, hnil]
      rfl
    · have huse : (⟨.assistant, .blocks r.response.content⟩ : Message).useIds =
          r.response.toolUses.map ToolCall.id := filterMap_useId r.response.content
      have hids : (⟨.user, .blocks results⟩ : Message).resultIds =
          r.response.toolCalls.map ToolCall.id := hresults.ids.1
      rw [huse] at hid
      obtain ⟨call, hcall, rfl⟩ := List.mem_map.1 hid
      rw [hids]
      exact hsub call hcall
  | continued q r _ hgot hstop hfew h =>
    rw [hgot.messages]
    exact hprepared.append_texts ((hform hgot (by rw [h.received]; simp)).maxTokens hstop hfew)
      (by simp)

/-- **The requests are well formed**, in a run of either loop from a session that begins well, whose
recovery from overflow drops nothing and whose responses keep the form. -/
theorem requests_wellFormed (w : World σ) (cfg : Config) (userMessage : String) (world : σ)
    (session : Session) (hbegin : BeginsWell session.messages userMessage)
    (hkeeps : ∀ st ∈ (runOn (runAgentLoop w cfg userMessage) world session).2.entered,
      KeepsMessages cfg (systemPromptOf w cfg userMessage world) st.messages)
    (hfits : FitsForm cfg (runOn (runAgentLoop w cfg userMessage) world session).2.received) :
    (∀ request ∈ (runOn (runAgentLoop w cfg userMessage) world session).2.requests,
        RequestOk request.messages) ∧
      ∀ request ∈ (runOn (runAgentLoopStreaming w cfg userMessage) world session).2.requests,
        RequestOk request.messages := by
  obtain ⟨-, hsame⟩ := same_runOn w cfg userMessage world session
  rw [← hsame.requests, and_self]
  obtain ⟨st, t, hbegins, hrun⟩ := runAgentLoop_does w cfg userMessage world session
  rw [hrun] at hkeeps hfits ⊢
  refine iterate_induction
    (I := FormInv cfg (systemPromptOf w cfg userMessage world))
    (F := fun t => (∀ st ∈ t.entered,
        KeepsMessages cfg (systemPromptOf w cfg userMessage world) st.messages) →
      FitsForm cfg t.received → ∀ request ∈ t.requests, RequestOk request.messages)
    (fun iteration st t t' st' hinv hlt hdoes => hinv.next hlt hdoes)
    (fun iteration st t t' result hinv hlt _ hdoes hkeeps hfits =>
      (hinv.requests hlt hdoes hkeeps hfits).2)
    (fun iteration st t s hinv hkeeps hfits => (hinv hkeeps hfits).2)
    cfg.maxIterations 0 (Nat.zero_add _) st t (fun _ _ => ⟨fun _ => ?_, ?_⟩) hkeeps hfits
  · rw [hbegins.messages, hbegins.session]
    exact hbegin.ready
  · rw [hbegins.requests]
    exact fun request h => absurd h List.not_mem_nil

/-! ### A text that is missing -/

/-- The defaults with two rounds. -/
def twoRounds : Config := { Config.sample with autonomousMaxIterations := some 2 }

/-- A driver that stops at its token limit with this text. -/
def stopsShort (content : List ContentBlock) : ℕ → Except LlmError CompletionResponse :=
  fun _ => .ok ⟨content, .maxTokens, [], ⟨1, 1⟩⟩

/-- A round that stops at the token limit, and goes on. -/
theorem round_stopsShort (content : List ContentBlock) (cfg : Config)
    (systemPrompt userMessage : String) (iteration : ℕ) (st : LoopState) (t : Trace ℕ)
    (hfew : st.consecutiveMaxTokens + 1 < AgentLoop.maxContinuations) :
    ∃ st' t',
      run (round (World.scripted (stopsShort content)) cfg systemPrompt userMessage iteration st)
        t = (.ok (.next st'), t') ∧
      st'.messages = cfg.prepare systemPrompt st.messages ++
        [.assistant (MessageContent.blocks content).textContent, .user "Please continue."] ∧
      st'.consecutiveMaxTokens = st.consecutiveMaxTokens + 1 ∧
      t'.requests = t.requests ++ [cfg.request systemPrompt
          (cfg.prepare systemPrompt st.messages)] ∧
      t'.entered = t.entered ++ [st] := by
  obtain ⟨st', t', hround, hmessages, -, hcount, hadds, hentered, -⟩ :=
    round_scripted (stopsShort content) ⟨content, .maxTokens, [], ⟨1, 1⟩⟩ cfg systemPrompt
      userMessage iteration st t rfl (Or.inr rfl)
  rw [← hcount] at hfew
  rw [hround, branch, maxTokens, if_neg (not_le.2 hfew), run_push_bind, run_pure]
  refine ⟨_, _, rfl, ?_, ?_, hadds.requests, hentered⟩
  · rw [← hmessages]
    rfl
  · rw [← hcount]

theorem iterate_of_next {w : World σ} {cfg : Config} {systemPrompt userMessage : String}
    {iteration : ℕ} {st st' : LoopState} {t t' : Trace σ}
    (h : run (round w cfg systemPrompt userMessage iteration st) t = (.ok (.next st'), t'))
    (fuel : ℕ) :
    run (iterate w cfg systemPrompt userMessage (fuel + 1) iteration st) t =
      run (iterate w cfg systemPrompt userMessage fuel (iteration + 1) st') t' := by
  rw [iterate, run_bind_of_ok h]

/-- The two rounds of such a run. -/
theorem runOn_stopsShort (content : List ContentBlock) :
    ∃ st₀ st₁,
      (runOn (runAgentLoop (World.scripted (stopsShort content)) twoRounds "hi") 0
        ⟨1, 1, [], 0, none⟩).2.entered = [st₀, st₁] ∧
      (runOn (runAgentLoop (World.scripted (stopsShort content)) twoRounds "hi") 0
        ⟨1, 1, [], 0, none⟩).2.requests =
          [twoRounds.request "" [.user "hi"],
            twoRounds.request "" (twoRounds.prepare "" st₁.messages)] ∧
      st₀.messages = [.user "hi"] ∧
      st₁.messages =
        [.user "hi", .assistant (MessageContent.blocks content).textContent,
          .user "Please continue."] := by
  obtain ⟨st₀, t₀, hbegins, hrun⟩ := runAgentLoop_does (World.scripted (stopsShort content))
    twoRounds "hi" 0 ⟨1, 1, [], 0, none⟩
  have hprompt : systemPromptOf (World.scripted (stopsShort content)) twoRounds "hi" 0 = "" := by
    rfl
  rw [hprompt] at hrun
  have hst₀ : st₀.messages = [.user "hi"] := by
    rw [hbegins.messages, hbegins.session]
    rfl
  obtain ⟨st₁, t₁, hround₁, hst₁, hcount₁, hrequests₁, hentered₁⟩ := round_stopsShort content
    twoRounds "" "hi" 0 st₀ t₀ (by rw [hbegins.consecutive]; decide)
  obtain ⟨st₂, t₂, hround₂, -, -, hrequests₂, hentered₂⟩ := round_stopsShort content
    twoRounds "" "hi" 1 st₁ t₁ (by rw [hcount₁, hbegins.consecutive]; decide)
  have hfirst : twoRounds.prepare "" st₀.messages = [.user "hi"] := by
    rw [hst₀]
    rfl
  rw [hfirst] at hst₁ hrequests₁
  have hiterate : run (iterate (World.scripted (stopsShort content)) twoRounds "" "hi" 2 0 st₀)
      t₀ = run (iterate (World.scripted (stopsShort content)) twoRounds "" "hi" 0 2 st₂) t₂ :=
    (iterate_of_next hround₁ 1).trans (iterate_of_next hround₂ 0)
  have htrace : (runOn (runAgentLoop (World.scripted (stopsShort content)) twoRounds "hi") 0
      ⟨1, 1, [], 0, none⟩).2 = { t₂ with saves := t₂.saves ++ [t₂.session.messages] } := by
    rw [hrun]
    exact congrArg Prod.snd hiterate
  refine ⟨st₀, st₁, ?_, ?_, hst₀, hst₁⟩
  · rw [htrace]
    show t₂.entered = _
    rw [hentered₂, hentered₁, hbegins.entered]
    rfl
  · rw [htrace]
    show t₂.requests = _
    rw [hrequests₂, hrequests₁, hbegins.requests]
    rfl

theorem keepsMessages_stopsShort {content : List ContentBlock}
    (h : KeepsMessages twoRounds "" [.user "hi",
      .assistant (MessageContent.blocks content).textContent, .user "Please continue."]) :
    ∀ st ∈ (runOn (runAgentLoop (World.scripted (stopsShort content)) twoRounds "hi") 0
        ⟨1, 1, [], 0, none⟩).2.entered,
      KeepsMessages twoRounds (systemPromptOf
          (World.scripted (stopsShort content)) twoRounds "hi" 0)
        st.messages := by
  obtain ⟨st₀, st₁, hentered, -, hst₀, hst₁⟩ := runOn_stopsShort content
  have hprompt : systemPromptOf (World.scripted (stopsShort content)) twoRounds "hi" 0 = "" := by
    rfl
  rw [hentered]
  intro st hst
  rcases List.mem_pair.1 hst with rfl | rfl
  · rw [hst₀, hprompt]
    exact Or.inl rfl
  · rw [hst₁, hprompt]
    exact h

theorem beginsWell_hi : BeginsWell [] "hi" where
  text := by decide
  disciplined := ⟨by decide, by decide⟩
  nodup := by decide
  userFirst := by decide
  short := by decide

/-- A run that stops at its token limit with some text. -/
theorem requests_wellFormed_text :
    (∀ request ∈ (runOn (runAgentLoop (World.scripted (stopsShort [.text "more"])) twoRounds "hi")
        0 ⟨1, 1, [], 0, none⟩).2.requests, RequestOk request.messages) ∧
      ∀ request ∈ (runOn (runAgentLoopStreaming (World.scripted (stopsShort [.text "more"]))
        twoRounds "hi") 0 ⟨1, 1, [], 0, none⟩).2.requests, RequestOk request.messages :=
  requests_wellFormed (World.scripted (stopsShort [.text "more"])) twoRounds "hi" 0
    ⟨1, 1, [], 0, none⟩ beginsWell_hi (keepsMessages_stopsShort (Or.inl rfl)) fun r hr _ => by
      obtain ⟨request, response, ⟨s, hs⟩, hgo⟩ := received_goesOn _ _ _ _ _ r hr
      obtain rfl : (⟨[.text "more"], .maxTokens, [], ⟨1, 1⟩⟩ : CompletionResponse) = response :=
        Except.ok.inj hs
      generalize hr' : r.response = response' at hgo
      cases hgo with
      | same =>
        exact ⟨fun h => by simp [hr'] at h, fun _ _ => by
          rw [hr']
          decide⟩
      | recovered calls hans _ => simp at hans

/-- A response that stops at the token limit without a text leaves an empty message in the next
request. -/
theorem requests_wellFormed_fails :
    ¬ ∀ (w : World ℕ) (cfg : Config) (userMessage : String) (world : ℕ) (session : Session),
      (∀ st ∈ (runOn (runAgentLoop w cfg userMessage) world session).2.entered,
        KeepsMessages cfg (systemPromptOf w cfg userMessage world) st.messages) →
      ∀ request ∈ (runOn (runAgentLoop w cfg userMessage) world session).2.requests,
        RequestOk request.messages := by
  intro hall
  have hok := hall (World.scripted (stopsShort [])) twoRounds "hi" 0 ⟨1, 1, [], 0, none⟩
    (keepsMessages_stopsShort (Or.inl rfl))
  obtain ⟨st₀, st₁, -, hrequests, -, hst₁⟩ := runOn_stopsShort []
  rw [hrequests] at hok
  have hbad := (hok _ (List.mem_cons_of_mem _ (List.mem_singleton.2 rfl))).noEmpty
  rw [hst₁] at hbad
  have hempty : Message.assistant "" ∈ twoRounds.prepare "" [.user "hi",
      .assistant (MessageContent.blocks []).textContent, .user "Please continue."] := by
    show Message.assistant "" ∈ [Message.user "hi", .assistant "", .user "Please continue."]
    simp
  have := hbad _ hempty
  cases this

end LoopRun
end RustyHand
