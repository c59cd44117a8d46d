import RustyHand.Kernel.SpawnTree
import RustyHand.Kernel.Triggers
import RustyHand.Runtime.HostFunctions
import RustyHand.Runtime.ProcessManager

/-!
# The depth of agent calls

Agents start turns of other agents: through the tools `agent_send` and `event_publish`
(`tool_runner.rs`), and, from WASM guests, through the host function `agent_send`
(`host_functions.rs`).  How deep a turn is, is kept in the task-local `AGENT_CALL_DEPTH`.

* `TaskLocal`: its value where a turn runs, and what becomes of it in new tasks and threads;
* `started`: the turns that a call starts;
* `DepthComplete`: what should hold of a chain of turns;
* `depthComplete_iff`: it holds if and only if the tool `agent_send` has started them all.
-/

namespace RustyHand
namespace CallDepth

open HostFunctions (Refusal checkCapability)
open ProcessManager (param)
open Scheduler (bind_eq_ok)

/-! ### The task-local -/

/-- The value of `AGENT_CALL_DEPTH` where a turn runs; there is none outside of a scope. -/
abbrev TaskLocal : Type := Option ℕ

/-- `current_agent_depth`. -/
def currentAgentDepth (context : TaskLocal) : ℕ := context.getD 0

/-- The value inside of `scope`. -/
def scope (depth : ℕ) : TaskLocal := some depth

/-- The value in a task of `tokio::spawn` and on a thread of `spawn_blocking`: a task-local is not
handed on. -/
def detached : TaskLocal := none

/-- A turn of an agent. -/
structure Turn where
  entry : AgentEntry
  context : TaskLocal

/-- What a call finds: the kernel and its triggers, what `check_quota` answers for an agent, and
what other crates do. -/
structure Around where
  kernel : Kernel
  triggers : TriggerEngine
  checkQuota : AgentId → Except String Unit
  parseId : String → Option AgentId
  toLowercase : String → String

/-- `send_message`, up to the start of the turn: the turn runs in the task of the call. -/
def sendMessage (a : Around) (context : TaskLocal) (id : AgentId) : Except String Turn :=
  match a.checkQuota id with
  | .error e => .error e
  | .ok () =>
    match a.kernel.registry.get id with
    | some entry => .ok ⟨entry, context⟩
    | none => .error ("Agent not found: " ++ toString id)

/-- `find_by_name`. -/
def findByName (r : AgentRegistry) (name : String) : Option AgentEntry :=
  (Table.lookup Prod.fst name r.nameIndex).bind fun p => r.get p.2

/-- `send_to_agent` of the kernel handle. -/
def sendToAgent (a : Around) (context : TaskLocal) (agentId : String) : Except String Turn :=
  match (a.parseId agentId).or ((findByName a.kernel.registry agentId).map AgentEntry.id) with
  | none => .error ("Agent not found: " ++ agentId)
  | some id => (sendMessage a context id).mapError ("Send failed: " ++ ·)

/-! ### The tools -/

/-- A tool call of an agent in its turn: the names of the tools of skills and MCP servers that it
may see, and the answer of the approval gate where the tool needs approval. -/
structure ToolCall where
  name : String
  input : Json
  extraTools : List String := []
  approval : Option (Except String Bool) := none

/-- The gates of `execute_tool`. -/
def gates (allowed : List String) (context : TaskLocal) (call : ToolCall) : Except String Unit :=
  if !allowed.contains call.name then
    .error ("Permission denied: agent does not have capability to use tool '" ++ call.name ++
      "'. Grant it with PATCH /api/agents/\x7bid\x7d/config and a JSON body like " ++
      "\x7b\"tools\":[\"" ++ call.name ++ "\"]\x7d (or \x7b\"tools\":[\"*\"]\x7d for all tools) — " ++
      "takes effect on the next message, no respawn needed.")
  else if (filterToolsByDepth [call.name]
      (currentAgentDepth context) maxAgentCallDepth).isEmpty then
    .error ("Permission denied: tool '" ++ call.name ++ "' is not available at subagent depth " ++
      toString (currentAgentDepth context))
  else
    match call.approval with
    | none | some (.ok true) => .ok ()
    | some (.ok false) =>
      .error ("Execution denied: '" ++ call.name ++
          "' requires human approval and was denied or " ++
        "timed out. The operation was not performed.")
    | some (.error e) => .error ("Approval system error: " ++ e)

/-- The tools that the agent of a turn may use. -/
def allowedTools (a : Around) (entry : AgentEntry) (extraTools : List String) : List String :=
  (a.kernel.availableTools entry.id extraTools).filter entry.mode.allowsTool

/-- `tool_agent_send`. -/
def toolAgentSend (a : Around) (context : TaskLocal) (input : Json) : Except String Turn := do
  let agentId ← param input "agent_id"
  let _ ← param input "message"
  let currentDepth := currentAgentDepth context
  if maxAgentCallDepth ≤ currentDepth then
    .error ("Inter-agent call depth exceeded (max " ++ toString maxAgentCallDepth ++
      "). A->B->C chain is too deep. Use the task queue instead.")
  else sendToAgent a (scope (currentDepth + 1)) agentId

/-- The description of the event that `event_publish` publishes. -/
def eventDescription (eventType : String) (payload : Json) : String :=
  let bytes := (Json.object [("data", payload), ("type", .string eventType)]).print
  "Custom event (" ++ toString (Text.byteLength bytes) ++ " bytes)"

/-- `publish_event`: a task for each trigger that fires. -/
def publishEvent (a : Around) (description : String) : List Turn :=
  (a.triggers.evaluateCustom a.toLowercase description).filterMap fun p =>
    (sendMessage a detached p.1).toOption

/-- `tool_event_publish`. -/
def toolEventPublish (a : Around) (input : Json) : Except String (List Turn) := do
  let eventType ← param input "event_type"
  .ok (publishEvent a (eventDescription eventType ((input.get "payload").getD (.object []))))

/-- `execute_tool`, by the turns that it starts. -/
def executeTool (a : Around) (turn : Turn) (call : ToolCall) : Except String (List Turn) := do
  gates (allowedTools a turn.entry call.extraTools) turn.context call
  match call.name with
  | "agent_send" => (toolAgentSend a turn.context call.input).map fun t => [t]
  | "event_publish" => toolEventPublish a call.input
  | _ => .ok []

/-! ### The host function -/

/-- A parameter of the host function. -/
def hostParam (params : Json) (key : String) : Except Refusal String :=
  match (params.get key).bind Json.asStr with
  | some s => .ok s
  | none => .error (.text ("Missing '" ++ key ++ "' parameter"))

/-- `host_agent_send`, on the thread of the guest. -/
def hostAgentSend (a : Around) (entry : AgentEntry) (params : Json) : Except Refusal Turn := do
  let target ← hostParam params "target"
  let _ ← hostParam params "message"
  checkCapability entry.manifest.toCapabilities (.agentMessage target)
  (sendToAgent a detached target).mapError .text

/-! ### Chains of turns -/

/-- A call in a turn: of a tool by an agent loop, or of the host function by a WASM guest. -/
inductive Call
  | tool (call : ToolCall)
  | hostAgentSend (params : Json)

/-- The turns that a call starts. -/
def started (a : Around) (turn : Turn) : Call → List Turn
  | .tool call =>
    if turn.entry.manifest.isWasm || turn.entry.manifest.isPython then []
    else ((executeTool a turn call).toOption).getD []
  | .hostAgentSend params =>
    if turn.entry.manifest.isWasm then (hostAgentSend a turn.entry params).toOption.toList else []

/-- A call, with what it found, and a turn that it started. -/
structure Link where
  around : Around
  call : Call
  turn : Turn

/-- Each turn was started by a call of the one before. -/
def IsChain : Turn → List Link → Prop
  | _, [] => True
  | turn, l :: links => l.turn ∈ started l.around turn l.call ∧ IsChain l.turn links

/-- A turn that no agent has started. -/
def outermost (entry : AgentEntry) : Turn := ⟨entry, none⟩

/-- The depth is complete: the n-th turn runs at depth n, no chain is longer than the limit, and
only in the first turn does a tool of `SUBAGENT_DENY_ALWAYS` pass the gates. -/
structure DepthComplete (links : List Link) : Prop where
  depth : ∀ (n : ℕ) (l : Link), links[n]? = some l → currentAgentDepth l.turn.context = n + 1
  bounded : links.length ≤ maxAgentCallDepth
  denied : ∀ l ∈ links, ∀ (allowed : List String) (call : ToolCall),
    call.name ∈ subagentDenyAlways → gates allowed l.turn.context call ≠ .ok ()

/-- The calls of the tool `agent_send`. -/
def Call.isAgentSend : Call → Bool
  | .tool call => call.name = "agent_send"
  | .hostAgentSend _ => false

/-! ### What becomes of the task-local -/

variable {a : Around} {context : TaskLocal} {turn t : Turn}

theorem sendMessage_context {id : AgentId} (h : sendMessage a context id = .ok t) :
    t.context = context := by
  unfold sendMessage at h
  split at h
  · cases h
  · split at h
    · cases h
      rfl
    · cases h

theorem sendToAgent_context {agentId : String} (h : sendToAgent a context agentId = .ok t) :
    t.context = context := by
  unfold sendToAgent at h
  split at h
  · cases h
  · rename_i id _
    cases hsend : sendMessage a context id with
    | error e => simp [hsend, Except.mapError] at h
    | ok t' =>
      rw [hsend] at h
      cases h
      exact sendMessage_context hsend

/-- The tool counts the depth up, below the limit. -/
theorem toolAgentSend_context {input : Json} (h : toolAgentSend a context input = .ok t) :
    currentAgentDepth context < maxAgentCallDepth ∧
      t.context = scope (currentAgentDepth context + 1) := by
  unfold toolAgentSend at h
  obtain ⟨agentId, -, h⟩ := bind_eq_ok.1 h
  obtain ⟨_, -, h⟩ := bind_eq_ok.1 h
  dsimp only at h
  split_ifs at h with hdepth
  exact ⟨not_le.1 hdepth, sendToAgent_context h⟩

/-- The turns of an event start in tasks of their own. -/
theorem publishEvent_context {description : String} (h : t ∈ publishEvent a description) :
    t.context = none := by
  obtain ⟨p, -, hp⟩ := List.mem_filterMap.1 h
  cases hsend : sendMessage a detached p.1 with
  | error e => simp [hsend, Except.toOption] at hp
  | ok t' =>
    obtain rfl : t' = t := by simpa [hsend, Except.toOption] using hp
    exact sendMessage_context hsend

theorem toolEventPublish_context {input : Json} {ts : List Turn}
    (h : toolEventPublish a input = .ok ts) (ht : t ∈ ts) : t.context = none := by
  unfold toolEventPublish at h
  obtain ⟨eventType, -, h⟩ := bind_eq_ok.1 h
  cases h
  exact publishEvent_context ht

/-- The host function starts the turn outside of every scope. -/
theorem hostAgentSend_context {entry : AgentEntry} {params : Json}
    (h : hostAgentSend a entry params = .ok t) : t.context = none := by
  unfold hostAgentSend at h
  obtain ⟨target, -, h⟩ := bind_eq_ok.1 h
  obtain ⟨_, -, h⟩ := bind_eq_ok.1 h
  obtain ⟨_, -, h⟩ := bind_eq_ok.1 h
  cases hsend : sendToAgent a detached target with
  | error e => simp [hsend, Except.mapError] at h
  | ok t' =>
    rw [hsend] at h
    cases h
    exact sendToAgent_context hsend

theorem started_agentSend {call : Call} (hcall : call.isAgentSend = true)
    (h : t ∈ started a turn call) :
    currentAgentDepth turn.context < maxAgentCallDepth ∧
      t.context = scope (currentAgentDepth turn.context + 1) := by
  cases call with
  | hostAgentSend params => cases hcall
  | tool call =>
    have hname : call.name = "agent_send" := by simpa [Call.isAgentSend] using hcall
    simp only [started] at h
    split_ifs at h with hkind
    · cases h
    cases hexec : executeTool a turn call with
    | error e => simp [hexec, Except.toOption] at h
    | ok ts =>
      rw [hexec] at h
      unfold executeTool at hexec
      obtain ⟨_, -, hexec⟩ := bind_eq_ok.1 hexec
      simp only [hname] at hexec
      cases hsend : toolAgentSend a turn.context call.input with
      | error e => simp [hsend, Except.map] at hexec
      | ok t' =>
        rw [hsend] at hexec
        cases hexec
        obtain rfl : t = t' := by simpa [Except.toOption] using h
        exact toolAgentSend_context hsend

theorem started_other {call : Call} (hcall : call.isAgentSend = false)
    (h : t ∈ started a turn call) : t.context = none := by
  cases call with
  | hostAgentSend params =>
    simp only [started] at h
    split_ifs at h with hkind
    · cases hsend : hostAgentSend a turn.entry params with
      | error e => simp [hsend, Except.toOption] at h
      | ok t' =>
        obtain rfl : t = t' := by simpa [hsend, Except.toOption] using h
        exact hostAgentSend_context hsend
    · cases h
  | tool call =>
    have hname : call.name ≠ "agent_send" := by simpa [Call.isAgentSend] using hcall
    simp only [started] at h
    split_ifs at h with hkind
    · cases h
    cases hexec : executeTool a turn call with
    | error e => simp [hexec, Except.toOption] at h
    | ok ts =>
      rw [hexec] at h
      unfold executeTool at hexec
      obtain ⟨_, -, hexec⟩ := bind_eq_ok.1 hexec
      split at hexec
      · exact absurd ‹_› hname
      · exact toolEventPublish_context hexec h
      · cases hexec
        cases h

/-! ### Chains -/

variable {links : List Link} {first : Turn}

/-- A tool of `SUBAGENT_DENY_ALWAYS` does not pass below the first turn. -/
theorem gates_denied (allowed : List String) {call : ToolCall}
    (hname : call.name ∈ subagentDenyAlways) (hdepth : 0 < currentAgentDepth context) :
    gates allowed context call ≠ .ok () := by
  have hfilter : (filterToolsByDepth [call.name] (currentAgentDepth context)
      maxAgentCallDepth).isEmpty = true := by
    simp [filterToolsByDepth, hdepth.ne', hname]
  unfold gates
  split_ifs <;> simp

theorem IsChain.depth (h : IsChain first links) (hcalls : ∀ l ∈ links, l.call.isAgentSend = true)
    (n : ℕ) (l : Link) (hl : links[n]? = some l) :
    currentAgentDepth l.turn.context = currentAgentDepth first.context + n + 1 ∧
      currentAgentDepth first.context + n < maxAgentCallDepth := by
  induction links generalizing first n with
  | nil => cases hl
  | cons m links ih =>
    obtain ⟨hlt, hcontext⟩ := started_agentSend (hcalls m List.mem_cons_self) h.1
    have hdepth : currentAgentDepth m.turn.context = currentAgentDepth first.context + 1 := by
      rw [hcontext]
      rfl
    cases n with
    | zero =>
      obtain rfl : m = l := by simpa using hl
      exact ⟨hdepth, hlt⟩
    | succ n =>
      obtain ⟨hl', hlt'⟩ := ih h.2 (fun l hl => hcalls l (List.mem_cons_of_mem m hl)) n hl
      omega

/-- A call of another kind breaks the count. -/
theorem IsChain.isAgentSend (h : IsChain first links)
    (hdepth : ∀ (n : ℕ) (l : Link), links[n]? = some l → currentAgentDepth l.turn.context ≠ 0) :
    ∀ l ∈ links, l.call.isAgentSend = true := by
  induction links generalizing first with
  | nil => simp
  | cons m links ih =>
    have hm : m.call.isAgentSend = true := by
      by_contra hother
      refine hdepth 0 m rfl ?_
      rw [started_other (by simpa using hother) h.1]
      rfl
    simp only [List.mem_cons, forall_eq_or_imp]
    exact ⟨hm, ih h.2 fun n l hl => hdepth (n + 1) l hl⟩

/-- The depth of a chain is complete if and only if every turn but the first was started by the tool
`agent_send`. -/
theorem depthComplete_iff {entry : AgentEntry} (h : IsChain (outermost entry) links) :
    DepthComplete links ↔ ∀ l ∈ links, l.call.isAgentSend = true := by
  constructor
  · intro hcomplete
    exact h.isAgentSend fun n l hl => by rw [hcomplete.depth n l hl]; exact n.succ_ne_zero
  · intro hcalls
    have hdepth : ∀ (n : ℕ) (l : Link), links[n]? = some l →
        currentAgentDepth l.turn.context = n + 1 ∧
        n < maxAgentCallDepth := by
      intro n l hl
      have := h.depth hcalls n l hl
      simpa [outermost, currentAgentDepth] using this
    refine ⟨fun n l hl => (hdepth n l hl).1, ?_, fun l hl allowed call hname => ?_⟩
    · by_contra hlong
      have hlast := (hdepth maxAgentCallDepth _ (List.getElem?_eq_getElem (not_le.1 hlong))).2
      exact lt_irrefl _ hlast
    · obtain ⟨n, hn⟩ := List.getElem?_of_mem hl
      exact gates_denied allowed hname (by rw [(hdepth n l hn).1]; exact n.succ_pos)

/-! ### Two agents -/

/-- An agent of a module, with tools and the right to message everyone. -/
def agentOf (id : AgentId) (name moduleName : String) (tools : List String) : AgentEntry :=
  { id := id, name := name
    manifest :=
      { name := name, «module» := moduleName
        capabilities := { tools := tools, agentMessage := ["*"] } }
    state := .running, mode := .full, parent := none, children := [], sessionId := 0 }

/-- An agent that sends messages, and a WASM guest that does. -/
def senders : Around where
  kernel :=
    { registry :=
        { agents := [agentOf 1 "ann" "builtin:chat" ["agent_send"],
            agentOf 2 "bob" "wasm:bob.wasm" []]
          nameIndex := [("ann", 1), ("bob", 2)] }
      capabilities := { grants := [(1, [.toolInvoke "agent_send"])] } }
  triggers := {}
  checkQuota _ := .ok ()
  parseId _ := none
  toLowercase := id

/-- A message of `ann` to an agent. -/
def sends (name : String) : Call :=
  .tool { name := "agent_send", input := .object [("agent_id", .string name),
    ("message", .string "hello")] }

/-- A message of a guest to an agent. -/
def guestSends (name : String) : Call :=
  .hostAgentSend (.object [("target", .string name), ("message", .string "hello")])

theorem depthComplete_sends :
    IsChain (outermost (agentOf 1 "ann" "builtin:chat" ["agent_send"]))
        [⟨senders, sends "bob", agentOf 2 "bob" "wasm:bob.wasm" [], scope 1⟩] ∧
      DepthComplete [⟨senders, sends "bob", agentOf 2 "bob" "wasm:bob.wasm" [], scope 1⟩] := by
  have h : IsChain (outermost (agentOf 1 "ann" "builtin:chat" ["agent_send"]))
      [⟨senders, sends "bob", agentOf 2 "bob" "wasm:bob.wasm" [], scope 1⟩] :=
    ⟨.head _, trivial⟩
  exact ⟨h, (depthComplete_iff h).2 (by decide)⟩

/-- The guest starts a turn at depth 0 again. -/
theorem depthComplete_fails :
    ¬ ∀ (entry : AgentEntry) (links : List Link), IsChain (outermost entry) links →
      DepthComplete links := by
  intro h
  have hdepth := (h (agentOf 1 "ann" "builtin:chat" ["agent_send"])
    [⟨senders, sends "bob", agentOf 2 "bob" "wasm:bob.wasm" [], scope 1⟩,
      ⟨senders, guestSends "ann", agentOf 1 "ann" "builtin:chat" ["agent_send"], none⟩]
    ⟨.head _, .head _, trivial⟩).depth 1 _ rfl
  exact absurd hdepth (by decide)

end CallDepth
end RustyHand
