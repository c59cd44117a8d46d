import RustyHand.Kernel.Turn
import RustyHand.Memory.Canonical
import RustyHand.Runtime.Routing
import RustyHand.Session.Compaction
import RustyHand.Session.Overflow
import RustyHand.Session.Repair
import RustyHand.Types.Agent
import RustyHand.Types.Message

/-!
# A message to an agent

`rusty-hand-kernel/src/kernel.rs`: `send_message_with_handle` with `execute_llm_agent`, and
`send_message_streaming` with the task that it starts, as far as a turn is checked, given a model
and recorded.  Errors are the texts that they display.  What a model answers depends on the model
and on the session that the turn begins with; the rest of a request is the same on both paths.

* `World`: what the two paths read;
* `Outcome`: the checks made, the model chosen, the result and the effects;
* `sendMessage`, `sendMessageStreaming`;
* `Agree`, `agree_iff`: the two agree just where no turn succeeds and the same model is chosen.
-/

namespace RustyHand
namespace SendMessage

open AgentLoop CanonicalSession Compactor

/-! ### What is read -/

/-- `KernelMode`. -/
inductive KernelMode
  | stable
  | default
  | dev
  deriving DecidableEq

/-- What runs a turn of an agent. -/
inductive ModuleKind
  | wasm
  | python
  | llm
  deriving DecidableEq

/-- The start of the name of the module decides. -/
def moduleKind (module : String) : ModuleKind :=
  if (Text.stripStart "wasm:" module).isSome then .wasm
  else if (Text.stripStart "python:" module).isSome then .python
  else .llm

/-- What a turn reads of the entry of its agent. -/
structure Entry where
  module : String := "builtin:chat"
  mode : AgentMode := .full
  model : String
  systemPrompt : String := ""
  pinnedModel : Option String := none
  routing : Option ModelRoutingConfig := none
  maxIterations : Option ℕ := none

/-- What a driver answers in the rounds of a turn, and the tokens of each answer. -/
structure Replies where
  answers : ℕ → Answer
  usage : ℕ → TokenUsage

/-- What the two paths read beside the message: the configuration, what the checks return, the
entry, the stored session (`get_session` can fail), the tools before the mode filters them, the
prompt built for the turn, and what drivers and modules do. -/
structure World where
  agentId : String
  kernelMode : KernelMode := .default
  toLowercase : String → String
  schedulerQuota : Except String Unit := .ok ()
  costQuota : Except String Unit := .ok ()
  globalBudget : Except String Unit := .ok ()
  entry : Option Entry
  session : Except String (Option (List Message)) := .ok none
  availableTools : List ToolDefinition := []
  builtPrompt : String := ""
  withLinks : String → String
  resolveAlias : String → Option String
  driver : Except String Unit := .ok ()
  replies : String → List Message → Replies
  summarize : List Message → Option String
  runModule : ModuleKind → Except String String

/-! ### What comes out -/

/-- A check of a quota. -/
inductive Check
  | scheduler
  | cost
  | globalBudget
  deriving DecidableEq

/-- `AgentLoopResult`. -/
structure Reply where
  response : String
  totalUsage : TokenUsage
  iterations : ℕ
  deriving DecidableEq

/-- `UsageRecord`; its cost follows from the model and the tokens. -/
structure UsageRecord where
  model : String
  inputTokens : ℕ
  outputTokens : ℕ
  toolCalls : ℕ

/-- An effect of a turn on what is stored. -/
inductive Effect
  | saveSession (messages : List Message)
  | canonical (call : Call)
  | schedule (tokens toolCalls : ℕ)
  | meter (record : UsageRecord)
  | setRunning
  | audit (detail outcome : String)
  | recordPanic

/-- What a call did. -/
structure Outcome where
  checks : List Check
  model : Option String := none
  result : Except String Reply
  effects : List Effect := []

/-- Did it return a reply? -/
def Outcome.Succeeds (o : Outcome) : Prop := ∃ reply, o.result = .ok reply

/-! ### A turn -/

/-- `MAX_ITERATIONS`. -/
def maxIterations : ℕ := 50

/-- The tokens of a turn that ends with a reply, and the rounds it took. -/
def tally (replies : Replies) : (fuel iteration consecutive : ℕ) → TokenUsage →
    Option (TokenUsage × ℕ)
  | 0, _, _, _ => none
  | fuel + 1, iteration, consecutive, total =>
    match replies.answers iteration with
    | .failed _ => none
    | .endTurn text silent hasToolCalls =>
      let total := total.add (replies.usage iteration)
      if Text.trim text = "NO_REPLY" || silent then some (total, iteration + 1)
      else if Text.isBlank text && iteration = 0 && !hasToolCalls then
        tally replies fuel (iteration + 1) consecutive total
      else some (total, iteration + 1)
    | .toolUse _ (.error _) => none
    | .toolUse _ (.ok _) =>
      tally replies fuel (iteration + 1) 0 (total.add (replies.usage iteration))
    | .maxTokens _ =>
      let total := total.add (replies.usage iteration)
      if maxContinuations ≤ consecutive + 1 then some (total, iteration + 1)
      else tally replies fuel (iteration + 1) (consecutive + 1) total

/-- What the replies come to in a turn of at most `max` rounds. -/
def Replies.tally (replies : Replies) (max : ℕ) : Option (TokenUsage × ℕ) :=
  SendMessage.tally replies max 0 0 ⟨0, 0⟩

/-- The append to the canonical session after a turn. -/
def appendNew (before : ℕ) (session : List Message) : List Effect :=
  if before < session.length then [.canonical (.append (session.drop before) none)] else []

/-- The agent loop of a turn on a session, and what both paths record of it themselves. -/
def runLoop (w : World) (entry : Entry) (model message : String) (history : List Message) :
    Except String Reply × List Effect × List Message :=
  let max := entry.maxIterations.getD maxIterations
  let replies := w.replies model history
  let r := runAgentLoop max replies.answers history (w.withLinks message)
  let saves := r.saves.map Effect.saveSession
  match r.response with
  | .error e => (.error e, saves, r.messages)
  | .ok response =>
    -- the tally is there: `isSome_tally_iff`
    let totals := (replies.tally max).getD (⟨0, 0⟩, 0)
    let record : UsageRecord :=
      { model := model, inputTokens := totals.1.inputTokens
        outputTokens := totals.1.outputTokens, toolCalls := totals.2 - 1 }
    (.ok { response := response, totalUsage := totals.1, iterations := totals.2 },
      saves ++ appendNew history.length r.messages ++ [.meter record], r.messages)

/-- `execute_wasm_agent` and `execute_python_agent`. -/
def executeModule (w : World) (kind : ModuleKind) : Except String Reply :=
  (w.runModule kind).map fun response =>
    { response := response, totalUsage := ⟨0, 0⟩, iterations := 1 }

/-- The tokens and the tool calls of a reply, for the scheduler. -/
def Reply.schedule (reply : Reply) : Effect :=
  .schedule reply.totalUsage.total (reply.iterations - 1)

/-! ### `send_message_with_handle` -/

/-- The model of a turn of `execute_llm_agent`: pinned in stable mode, else routed. -/
def chooseModel (w : World) (entry : Entry) (message : String) : String :=
  if w.kernelMode = .stable then entry.pinnedModel.getD entry.model
  else
    match entry.routing with
    | none => entry.model
    | some config =>
      let probe : CompletionRequest :=
        { messages := [.user message]
          tools := w.availableTools.filter fun tool => entry.mode.allowsTool tool.name
          system := some w.builtPrompt }
      (ModelRouter.selectModel w.toLowercase (ModelRouter.resolveAliases w.resolveAlias config)
        probe).2

/-- `execute_llm_agent`. -/
def executeLlmAgent (w : World) (entry : Entry) (message : String) : Outcome :=
  match w.costQuota with
  | .error e => { checks := [.cost], result := .error e }
  | .ok () =>
    match w.globalBudget with
    | .error e => { checks := [.cost, .globalBudget], result := .error e }
    | .ok () =>
      match w.session with
      | .error e => { checks := [.cost, .globalBudget], result := .error e }
      | .ok stored =>
        let model := chooseModel w entry message
        match w.driver with
        | .error e =>
          { checks := [.cost, .globalBudget], model := some model, result := .error e }
        | .ok () =>
          let r := runLoop w entry model message (stored.getD [])
          { checks := [.cost, .globalBudget], model := some model, result := r.1, effects := r.2.1 }

/-- What is recorded once a turn is over. -/
def finished (o : Outcome) : Outcome :=
  match o.result with
  | .ok reply =>
    { o with
      checks := .scheduler :: o.checks
      effects := o.effects ++ [reply.schedule, .setRunning,
        .audit ("tokens_in=" ++ toString reply.totalUsage.inputTokens ++ ", tokens_out=" ++
          toString reply.totalUsage.outputTokens) "ok"] }
  | .error e =>
    { o with
      checks := .scheduler :: o.checks
      effects := o.effects ++ [.audit "agent loop failed" ("error: " ++ e), .recordPanic] }

/-- `send_message_with_handle`. -/
def sendMessage (w : World) (message : String) : Outcome :=
  match w.schedulerQuota with
  | .error e => { checks := [.scheduler], result := .error e }
  | .ok () =>
    match w.entry with
    | none => { checks := [.scheduler], result := .error ("Agent not found: " ++ w.agentId) }
    | some entry =>
      match moduleKind entry.module with
      | .llm => finished (executeLlmAgent w entry message)
      | kind => finished { checks := [], result := executeModule w kind }

/-! ### `send_message_streaming` -/

/-- `compact_agent_session`, when the stored session can be read: what it does, and the session
after it. -/
def compactAgentSession (w : World) (stored : Option (List Message)) :
    List Effect × Option (List Message) :=
  let messages := stored.getD []
  if !needsCompaction messages {} then ([], stored)
  else
    match w.driver with
    | .error _ => ([], stored)
    | .ok () =>
      let r := compactSession w.summarize messages {}
      let repaired := SessionRepair.validateAndRepair r.keptMessages
      ([.canonical (.store r.summary (messages.take r.compactedCount) r.keptMessages),
        .saveSession repaired], some repaired)

/-- Does a stored session need compaction before a turn? -/
def needsCompact (entry : Entry) (messages : List Message) : Bool :=
  needsCompaction messages {} ||
    needsCompactionByTokens (estimateTokenCount messages (some entry.systemPrompt) none) {}

/-- The compaction before a turn. -/
def autoCompact (w : World) (entry : Entry) (stored : Option (List Message)) :
    List Effect × Option (List Message) :=
  if needsCompact entry (stored.getD []) then compactAgentSession w stored else ([], stored)

/-- The compaction after a turn, on the session that the turn has saved. -/
def postCompact (w : World) (messages : List Message) : List Effect :=
  if needsCompactionByTokens (estimateTokenCount messages none none) {} then
    (compactAgentSession w (some messages)).1
  else []

/-- The task of a streaming turn. -/
def streamingTask (w : World) (entry : Entry) (message : String) (stored : Option (List Message)) :
    Except String Reply × List Effect :=
  let compacted := autoCompact w entry stored
  let r := runLoop w entry entry.model message (compacted.2.getD [])
  match r.1 with
  -- no audit record on this path, whatever the turn comes to
  | .ok reply =>
    (r.1, compacted.1 ++ r.2.1 ++ [reply.schedule, .setRunning] ++ postCompact w r.2.2)
  | .error _ => (r.1, compacted.1 ++ r.2.1 ++ [.recordPanic])

/-- The task of a streaming call to a module. -/
def streamingModule (w : World) (kind : ModuleKind) : Except String Reply × List Effect :=
  match executeModule w kind with
  | .ok reply => (.ok reply, [reply.schedule, .setRunning])
  | .error e => (.error e, [.recordPanic])

/-- `send_message_streaming` for an LLM agent, once the scheduler and the registry have let it
through. -/
def streamLlm (w : World) (entry : Entry) (message : String) : Outcome :=
  match w.costQuota with
  | .error e => { checks := [.scheduler, .cost], result := .error e }
  | .ok () =>
    match w.globalBudget with
    | .error e => { checks := [.scheduler, .cost, .globalBudget], result := .error e }
    | .ok () =>
      match w.session with
      | .error e => { checks := [.scheduler, .cost, .globalBudget], result := .error e }
      | .ok stored =>
        match w.driver with
        -- the model of the manifest: neither the pinned one nor the routing is looked at
        | .error e =>
          { checks := [.scheduler, .cost, .globalBudget], model := some entry.model
            result := .error e }
        | .ok () =>
          let r := streamingTask w entry message stored
          { checks := [.scheduler, .cost, .globalBudget], model := some entry.model
            result := r.1, effects := r.2 }

/-- `send_message_streaming`. -/
def sendMessageStreaming (w : World) (message : String) : Outcome :=
  match w.schedulerQuota with
  | .error e => { checks := [.scheduler], result := .error e }
  | .ok () =>
    match w.entry with
    | none => { checks := [.scheduler], result := .error ("Agent not found: " ++ w.agentId) }
    | some entry =>
      match moduleKind entry.module with
      | .llm => streamLlm w entry message
      | kind =>
        let r := streamingModule w kind
        { checks := [.scheduler], result := r.1, effects := r.2 }

/-! ### Agreement -/

/-- What a turn records: the sessions it saves, what it does to the canonical session, its usage
with the scheduler and with the metering, and its audit records. -/
structure Records where
  session : List (List Message)
  canonical : List Call
  schedule : List (ℕ × ℕ)
  meter : List UsageRecord
  audit : List (String × String)

/-- The session that an effect saves. -/
def Effect.session? : Effect → Option (List Message)
  | saveSession messages => some messages
  | _ => none

/-- The call on the canonical session. -/
def Effect.canonical? : Effect → Option Call
  | canonical call => some call
  | _ => none

/-- The usage recorded with the scheduler. -/
def Effect.schedule? : Effect → Option (ℕ × ℕ)
  | schedule tokens toolCalls => some (tokens, toolCalls)
  | _ => none

/-- The usage recorded with the metering. -/
def Effect.meter? : Effect → Option UsageRecord
  | meter record => some record
  | _ => none

/-- The audit record. -/
def Effect.audit? : Effect → Option (String × String)
  | audit detail outcome => some (detail, outcome)
  | _ => none

/-- What some effects record. -/
def records (effects : List Effect) : Records where
  session := effects.filterMap Effect.session?
  canonical := effects.filterMap Effect.canonical?
  schedule := effects.filterMap Effect.schedule?
  meter := effects.filterMap Effect.meter?
  audit := effects.filterMap Effect.audit?

/-- Two calls agree: they make the same checks, choose the same model, and where one of them returns
a reply they record the same. -/
structure Agree (a b : Outcome) : Prop where
  checks : a.checks = b.checks
  model : a.model = b.model
  records : a.Succeeds ∨ b.Succeeds → records a.effects = records b.effects

/-- The replies to a turn do not come to an end with a reply. -/
def NoReply (w : World) (entry : Entry) (model : String) (history : List Message) : Prop :=
  (w.replies model history).tally (entry.maxIterations.getD maxIterations) = none

/-- The call is refused, or no turn succeeds and the model is that of the manifest. -/
def NothingToRecord (w : World) (message : String) : Prop :=
  (∃ e, w.schedulerQuota = .error e) ∨ w.entry = none ∨ ∃ entry, w.entry = some entry ∧
    match moduleKind entry.module with
    | .llm =>
      (∃ e, w.costQuota = .error e) ∨ (∃ e, w.globalBudget = .error e) ∨
        (∃ e, w.session = .error e) ∨ chooseModel w entry message = entry.model ∧
          ((∃ e, w.driver = .error e) ∨ ∀ stored, w.session = .ok stored →
            NoReply w entry entry.model (stored.getD []) ∧
              NoReply w entry entry.model ((autoCompact w entry stored).2.getD []))
    | kind => ∃ e, w.runModule kind = .error e

variable {w : World} {entry : Entry} {message model : String} {history : List Message}

/-- The loop returns a reply just where its tally is there. -/
theorem isSome_tally_iff (max : ℕ) (replies : Replies) (history : List Message)
    (fuel iteration consecutive : ℕ) (pushed : List Message) (saves : List (List Message))
    (total : TokenUsage) :
    (∃ s, (rounds max replies.answers history fuel iteration consecutive pushed saves).response =
        .ok s) ↔ (tally replies fuel iteration consecutive total).isSome = true := by
  -- on the rounds left: the loop and the tally take the same branch in each
  induction fuel generalizing iteration consecutive pushed saves total with
  | zero => simp [rounds, tally]
  | succ fuel ih =>
    rw [rounds, tally]
    cases replies.answers iteration with
    | failed error => simp
    | endTurn text silent hasToolCalls =>
      dsimp only
      split_ifs
      · simp
      · exact ih ..
      · simp
    | toolUse blocks results =>
      cases results with
      | error error => simp
      | ok results => exact ih ..
    | maxTokens text =>
      dsimp only
      split_ifs
      · simp
      · exact ih ..

theorem runLoop_ok_iff : (∃ reply, (runLoop w entry model message history).1 = .ok reply) ↔
    ¬ NoReply w entry model history := by
  have hiff : (∃ s, (runAgentLoop (entry.maxIterations.getD maxIterations)
      (w.replies model history).answers history (w.withLinks message)).response = .ok s) ↔
      ((w.replies model history).tally (entry.maxIterations.getD maxIterations)).isSome = true :=
    isSome_tally_iff ..
  rw [NoReply, ← Ne, ← Option.isSome_iff_ne_none, ← hiff]
  unfold runLoop
  dsimp only
  cases (runAgentLoop (entry.maxIterations.getD maxIterations)
      (w.replies model history).answers history (w.withLinks message)).response with
  | error e => simp
  | ok response => simp

/-! ### What each path records -/

theorem records_append (a b : List Effect) : (records (a ++ b)).audit =
    (records a).audit ++ (records b).audit := List.filterMap_append

theorem audit_runLoop : (records (runLoop w entry model message history).2.1).audit = [] := by
  have hsaves : ∀ saves : List (List Message),
      (records (saves.map Effect.saveSession)).audit = [] := by
    intro saves
    show (saves.map Effect.saveSession).filterMap Effect.audit? = []
    rw [List.filterMap_map]
    exact List.filterMap_eq_nil_iff.2 fun _ _ => rfl
  unfold runLoop
  dsimp only
  cases (runAgentLoop (entry.maxIterations.getD maxIterations)
      (w.replies model history).answers history (w.withLinks message)).response with
  | error e => exact hsaves _
  | ok response =>
    rw [records_append, records_append, hsaves, appendNew]
    split <;> rfl

theorem audit_compactAgentSession (stored : Option (List Message)) :
    (records (compactAgentSession w stored).1).audit = [] := by
  unfold compactAgentSession
  dsimp only
  split
  · rfl
  · split <;> rfl

theorem audit_streamingTask (stored : Option (List Message)) :
    (records (streamingTask w entry message stored).2).audit = [] := by
  have hauto : (records (autoCompact w entry stored).1).audit = [] := by
    unfold autoCompact
    split
    · exact audit_compactAgentSession stored
    · rfl
  have hpost : ∀ messages, (records (postCompact w messages)).audit = [] := by
    intro messages
    unfold postCompact
    split
    · exact audit_compactAgentSession _
    · rfl
  unfold streamingTask
  dsimp only
  split
  · rw [records_append, records_append, records_append, hauto, audit_runLoop, hpost]
    rfl
  · rw [records_append, records_append, hauto, audit_runLoop]
    rfl

theorem audit_streamLlm (w : World) (entry : Entry) (message : String) :
    (records (streamLlm w entry message).effects).audit = [] := by
  unfold streamLlm
  cases w.costQuota with
  | error e => rfl
  | ok _ =>
    cases w.globalBudget with
    | error e => rfl
    | ok _ =>
      cases w.session with
      | error e => rfl
      | ok stored =>
        cases w.driver with
        | error e => rfl
        | ok _ => exact audit_streamingTask stored

theorem audit_streamingModule (w : World) (kind : ModuleKind) :
    (records (streamingModule w kind).2).audit = [] := by
  unfold streamingModule
  split <;> rfl

/-- The streaming path makes no audit record. -/
theorem audit_streaming (w : World) (message : String) :
    (records (sendMessageStreaming w message).effects).audit = [] := by
  unfold sendMessageStreaming
  cases w.schedulerQuota with
  | error e => rfl
  | ok _ =>
    cases w.entry with
    | none => rfl
    | some entry =>
      dsimp only
      split
      · exact audit_streamLlm w entry message
      · exact audit_streamingModule w _

/-- Once the scheduler and the registry have let it through, the other path makes one. -/
theorem audit_finished (o : Outcome) : (records (finished o).effects).audit ≠ [] := by
  unfold finished
  split
  · rw [records_append]
    exact List.append_ne_nil_of_right_ne_nil _ (List.cons_ne_nil _ _)
  · rw [records_append]
    exact List.append_ne_nil_of_right_ne_nil _ (List.cons_ne_nil _ _)

theorem succeeds_finished (o : Outcome) : (finished o).Succeeds ↔ o.Succeeds := by
  unfold finished Outcome.Succeeds
  cases o.result with
  | error e => simp
  | ok reply => simp

theorem finished_eq (o : Outcome) :
    (finished o).checks = .scheduler :: o.checks ∧ (finished o).model = o.model := by
  unfold finished
  split
  · exact ⟨rfl, rfl⟩
  · exact ⟨rfl, rfl⟩

/-- Two calls of which just one makes an audit record. -/
theorem agree_finished_iff {o b : Outcome} (hb : (records b.effects).audit = []) :
    Agree (finished o) b ↔ .scheduler :: o.checks = b.checks ∧ o.model = b.model ∧
      ¬ o.Succeeds ∧ ¬ b.Succeeds := by
  obtain ⟨hchecks, hmodel⟩ := finished_eq o
  rw [← hchecks, ← hmodel, ← succeeds_finished o, ← not_or]
  constructor
  · intro h
    refine ⟨h.checks, h.model, fun hsucceeds => audit_finished o ?_⟩
    rw [h.records hsucceeds]
    exact hb
  · rintro ⟨hchecks, hmodel, hnone⟩
    exact ⟨hchecks, hmodel, fun hsucceeds => absurd hsucceeds hnone⟩

/-! ### When they agree -/

theorem succeeds_streamingTask_iff {stored : Option (List Message)} :
    (∃ reply, (streamingTask w entry message stored).1 = .ok reply) ↔
      ¬ NoReply w entry entry.model ((autoCompact w entry stored).2.getD []) := by
  have hloop : (∃ reply, (runLoop w entry entry.model message
      ((autoCompact w entry stored).2.getD [])).1 = .ok reply) ↔ _ := runLoop_ok_iff
  rw [← hloop]
  unfold streamingTask
  dsimp only
  split <;> rfl

/-- The two calls of an LLM agent that the scheduler has let through. -/
theorem agree_llm_iff (w : World) (entry : Entry) (message : String) :
    Agree (finished (executeLlmAgent w entry message)) (streamLlm w entry message) ↔
      (∃ e, w.costQuota = .error e) ∨ (∃ e, w.globalBudget = .error e) ∨
        (∃ e, w.session = .error e) ∨ chooseModel w entry message = entry.model ∧
          ((∃ e, w.driver = .error e) ∨ ∀ stored, w.session = .ok stored →
            NoReply w entry entry.model (stored.getD []) ∧
              NoReply w entry entry.model ((autoCompact w entry stored).2.getD [])) := by
  rw [agree_finished_iff (audit_streamLlm w entry message)]
  unfold executeLlmAgent streamLlm
  cases w.costQuota with
  | error e => simp [Outcome.Succeeds]
  | ok _ =>
    cases w.globalBudget with
    | error e => simp [Outcome.Succeeds]
    | ok _ =>
      cases w.session with
      | error e => simp [Outcome.Succeeds]
      | ok stored =>
        cases w.driver with
        | error e => simp [Outcome.Succeeds]
        | ok _ =>
          simp only [Outcome.Succeeds, runLoop_ok_iff, succeeds_streamingTask_iff, not_not]
          simp only [Option.some.injEq, reduceCtorEq, exists_const, false_or, Except.ok.injEq,
            forall_eq', true_and]
          refine and_congr_right fun hmodel => ?_
          rw [hmodel]

/-- **When the two paths agree.**  Streaming and non-streaming turns make the same checks; they
choose the same model and record the same just where nothing is to be recorded: the call is refused,
or no turn succeeds and the model is that of the manifest. -/
theorem agree_iff (w : World) (message : String) :
    Agree (sendMessage w message) (sendMessageStreaming w message) ↔ NothingToRecord w message := by
  have hrefused : ∀ o : Outcome, ¬ o.Succeeds → Agree o o :=
    fun o ho => ⟨rfl, rfl, fun hsucceeds => absurd hsucceeds (by rwa [or_self])⟩
  have hmodule : ∀ kind, Agree (finished { checks := [], result := executeModule w kind })
      { checks := [.scheduler], result := (streamingModule w kind).1
        effects := (streamingModule w kind).2 } ↔ ∃ e, w.runModule kind = .error e := by
    intro kind
    rw [agree_finished_iff (audit_streamingModule w kind)]
    unfold streamingModule executeModule
    cases w.runModule kind with
    | error e => simp [Outcome.Succeeds, Except.map]
    | ok response => simp [Outcome.Succeeds, Except.map]
  unfold NothingToRecord sendMessageStreaming sendMessage
  cases w.schedulerQuota with
  | error e => exact iff_of_true (hrefused _ (by simp [Outcome.Succeeds])) (Or.inl ⟨e, rfl⟩)
  | ok _ =>
    cases w.entry with
    | none => exact iff_of_true (hrefused _ (by simp [Outcome.Succeeds])) (Or.inr (Or.inl rfl))
    | some entry =>
      simp only [reduceCtorEq, exists_const, false_or, Option.some.injEq, exists_eq_left']
      cases moduleKind entry.module with
      | llm => exact agree_llm_iff w entry message
      | wasm => exact hmodule .wasm
      | python => exact hmodule .python

/-- The registry's one agent answers every message with "hello". -/
def helloWorld : World where
  agentId := "0"
  toLowercase s := s
  entry := some { model := "m" }
  withLinks s := s
  resolveAlias _ := none
  replies _ _ := { answers := fun _ => .endTurn "hello" false false, usage := fun _ => ⟨1, 1⟩ }
  summarize _ := none
  runModule _ := .error ""

/-- A turn that succeeds has an audit record on one path only. -/
theorem hello_not_agree :
    ¬ ∀ (w : World) (message : String), Agree (sendMessage w message)
      (sendMessageStreaming w message) := by
  intro hall
  have hsucceeds : (sendMessage helloWorld "hi").Succeeds := ⟨⟨"hello", ⟨1, 1⟩, 1⟩, by decide⟩
  have haudit := congrArg Records.audit ((hall helloWorld "hi").records (Or.inl hsucceeds))
  rw [audit_streaming] at haudit
  exact audit_finished (executeLlmAgent helloWorld { model := "m" } "hi") haudit

end SendMessage
end RustyHand
