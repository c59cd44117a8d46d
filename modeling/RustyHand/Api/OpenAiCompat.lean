import RustyHand.Drivers.OpenAIStream

/-!
# Tool calls in the OpenAI-compatible stream

`stream_response` of `rusty-hand-api/src/openai_compat.rs`: the events of an agent turn become the
chunks of one completion.  The events say nothing of the index that a call has upstream; the stream
counts the calls as they start.

* `forward`, `streamResponse`: the chunks;
* `addDelta`, `gather`: what a client makes of deltas, by their index;
* `Proper`, `InTurn`: the deltas of an upstream, and those that keep to one call at a time;
* `client_run`: what a client has after some deltas; `Lags`: what it misses;
* `clientCalls_iff`: when a client gets the calls of the upstream.
-/

namespace RustyHand
namespace OpenAiCompat

open LlmDriver Drivers OpenAI

/-! ### The chunks -/

/-- `OaiToolCallFunction`. -/
structure OaiToolCallFunction where
  name : Option String
  arguments : Option String

/-- `OaiToolCall`. -/
structure OaiToolCall where
  index : ℕ
  id : Option String
  callType : Option String
  function : OaiToolCallFunction

/-- `ChunkDelta`. -/
structure ChunkDelta where
  role : Option String := none
  content : Option String := none
  toolCalls : Option (List OaiToolCall) := none

/-- `ChunkChoice`. -/
structure ChunkChoice where
  index : ℕ
  delta : ChunkDelta
  finishReason : Option String

/-- `ChatCompletionChunk`. -/
structure ChatCompletionChunk where
  id : String
  object : String
  created : ℕ
  model : String
  choices : List ChunkChoice

/-- The data of an event that is sent. -/
inductive SseData
  | chunk (chunk : ChatCompletionChunk)
  | done

/-- What all chunks of a stream have in common. -/
structure Completion where
  requestId : String
  created : ℕ
  agentName : String

variable (completion : Completion)

/-- `make_chunk`. -/
def makeChunk (delta : ChunkDelta) (finishReason : Option String) : SseData :=
  .chunk
    { id := completion.requestId
      object := "chat.completion.chunk"
      created := completion.created
      model := completion.agentName
      choices := [⟨0, delta, finishReason⟩] }

/-- The forwarder, up to the end of the events; `toolIndex` counts the calls that have started. -/
def forward : ℕ → List StreamEvent → List SseData
  | _, [] => []
  | toolIndex, .textDelta text :: events =>
    makeChunk completion { content := some text } none :: forward toolIndex events
  | toolIndex, .toolUseStart id name :: events =>
    makeChunk completion
        { toolCalls :=
            some [⟨toolIndex, some id, some "function", ⟨some name, some ""⟩⟩] } none ::
      forward (toolIndex + 1) events
  | toolIndex, .toolInputDelta text :: events =>
    makeChunk completion
        { toolCalls := some [⟨toolIndex - 1, none, none, ⟨none, some text⟩⟩] } none ::
      forward toolIndex events
  | toolIndex, _ :: events => forward toolIndex events

/-- `stream_response`: what a client that stays receives of the events of a turn. -/
def streamResponse (events : List StreamEvent) : List SseData :=
  makeChunk completion { role := some "assistant" } none :: forward completion 0 events ++
    [makeChunk completion {} (some "stop"), .done]

/-! ### A client -/

/-- A tool call, as far as its deltas have come. -/
structure StreamedCall where
  id : String := ""
  name : String := ""
  arguments : String := ""
  deriving DecidableEq

/-- A delta of a call: the arguments are put together. -/
def StreamedCall.add (call : StreamedCall) (d : CallDelta) : StreamedCall where
  id := d.id.getD call.id
  name := d.name.getD call.name
  arguments := call.arguments ++ d.arguments.getD ""

/-- A delta of one of the calls, by its index; an index that is new begins a call. -/
def addDelta : List (ℕ × StreamedCall) → CallDelta → List (ℕ × StreamedCall)
  | [], d => [(d.index, StreamedCall.add {} d)]
  | (i, call) :: calls, d =>
    if i = d.index then (i, call.add d) :: calls else (i, call) :: addDelta calls d

/-- The calls that some deltas come to, in the order in which they begin. -/
def gather (deltas : List CallDelta) : List StreamedCall :=
  (deltas.foldl addDelta []).map Prod.snd

/-- The delta that a client reads in a chunk. -/
def OaiToolCall.read (call : OaiToolCall) : CallDelta :=
  ⟨call.index, call.id, call.function.name, call.function.arguments⟩

/-- The deltas of tool calls in what is sent. -/
def SseData.callDeltas : SseData → List CallDelta
  | .chunk c =>
    c.choices.flatMap fun choice => (choice.delta.toolCalls.getD []).map OaiToolCall.read
  | .done => []

/-- The calls that a client gets of a stream. -/
def clientCalls (stream : List SseData) : List StreamedCall :=
  gather (stream.flatMap SseData.callDeltas)

/-! ### The events of a turn -/

/-- The event is of a tool call that is being streamed. -/
def isToolDelta : StreamEvent → Bool
  | .toolUseStart _ _ | .toolInputDelta _ => true
  | _ => false

/-- The events of tool calls that are being streamed. -/
def toolDeltas (events : List StreamEvent) : List StreamEvent := events.filter isToolDelta

@[simp] theorem toolDeltas_append (events events' : List StreamEvent) :
    toolDeltas (events ++ events') = toolDeltas events ++ toolDeltas events' :=
  List.filter_append ..

/-- One call of the loop to the driver: the body that the provider streams, and what the loop sends
until its next call. -/
structure Iteration where
  retriesLeft : ℕ
  body : Body
  notices : List StreamEvent
  unrelated : ∀ e ∈ notices, isToolDelta e = false

/-- The deltas of tool calls that a provider streams before an error. -/
def Iteration.callDeltas (serde : Serde) (iteration : Iteration) : List CallDelta :=
  ((untilError ((arrived takeLines [] iteration.body).1.filterMap
    (readLine serde.parse))).flatMap deltasOf).flatMap Delta.toolCalls

/-- The events of an iteration. -/
def Iteration.events (serde : Serde) (iteration : Iteration) : List StreamEvent :=
  (readStream serde iteration.retriesLeft iteration.body).2 ++ iteration.notices

/-- The events that the driver sends for some deltas of tool calls. -/
def callStream (toolAccum : List (String × String × String)) : List CallDelta → List StreamEvent
  | [] => []
  | d :: ds => callEvents toolAccum d ++ callStream (accumulate toolAccum d) ds

theorem callStream_append (toolAccum : List (String × String × String))
    (ds ds' : List CallDelta) :
    callStream toolAccum (ds ++ ds') =
      callStream toolAccum ds ++ callStream (ds.foldl accumulate toolAccum) ds' := by
  induction ds generalizing toolAccum with
  | nil => rfl
  | cons d ds ih =>
    rw [List.cons_append, callStream, callStream, ih, List.append_assoc, List.foldl_cons]

theorem toolDeltas_callEvents (toolAccum : List (String × String × String)) (d : CallDelta) :
    toolDeltas (callEvents toolAccum d) = callEvents toolAccum d := by
  unfold callEvents
  dsimp only
  rw [toolDeltas_append]
  congr 1
  · cases d.name <;> rfl
  · split_ifs <;> rfl

theorem foldl_call_events (st : StreamState) (calls : List CallDelta) :
    toolDeltas (calls.foldl StreamState.call st).events =
      toolDeltas st.events ++ callStream st.toolAccum calls := by
  induction calls generalizing st with
  | nil => exact (List.append_nil _).symm
  | cons d calls ih =>
    rw [List.foldl_cons, ih, callStream, ← List.append_assoc]
    congr 1
    rw [StreamState.call, toolDeltas_append, toolDeltas_callEvents]

theorem toolDeltas_segments (segments : List Segment) :
    toolDeltas (segments.flatMap Segment.events) = [] := by
  induction segments with
  | nil => rfl
  | cons segment segments ih =>
    rw [List.flatMap_cons, toolDeltas_append, ih, List.append_nil]
    cases segment with
    | visible _ | hidden _ =>
      rw [Segment.events]
      split_ifs <;> rfl

/-- A delta: the events of its tool calls are added. -/
theorem delta_events (st : StreamState) (d : Delta) :
    toolDeltas (st.delta d).events =
      toolDeltas st.events ++ callStream st.toolAccum d.toolCalls := by
  unfold StreamState.delta
  dsimp only
  rw [foldl_call_events]
  have hreasoning : ∀ reasoning, toolDeltas (st.reasoning reasoning).events =
      toolDeltas st.events ∧ (st.reasoning reasoning).toolAccum = st.toolAccum := by
    intro reasoning
    unfold StreamState.reasoning
    split_ifs
    · exact ⟨rfl, rfl⟩
    · exact ⟨by simp [toolDeltas, isToolDelta], rfl⟩
  obtain ⟨hevents, haccum⟩ := hreasoning (d.reasoning.getD "")
  rw [StreamState.content]
  dsimp only
  rw [toolDeltas_append, toolDeltas_segments, List.append_nil, hevents, haccum]

theorem foldl_delta_events (st : StreamState) (ds : List Delta) :
    toolDeltas (ds.foldl StreamState.delta st).events =
      toolDeltas st.events ++ callStream st.toolAccum (ds.flatMap Delta.toolCalls) := by
  induction ds generalizing st with
  | nil => exact (List.append_nil _).symm
  | cons d ds ih =>
    rw [List.foldl_cons, ih, delta_events, List.flatMap_cons, callStream_append,
      List.append_assoc, (delta_follows st d).toolAccum]
    simp

theorem steps_events (st : StreamState) (events : List Json) :
    toolDeltas (steps StreamState.step st events).1.events =
      toolDeltas st.events ++
        callStream st.toolAccum
          (((untilError events).flatMap deltasOf).flatMap Delta.toolCalls) := by
  induction events generalizing st with
  | nil => exact (List.append_nil _).symm
  | cons json events ih =>
    rw [steps_cons]
    cases herr : json.get "error" with
    | some err =>
      simp [StreamState.step, untilError, herr, callStream]
    | none =>
      have huntil : untilError (json :: events) = json :: untilError events := by
        rw [untilError, List.takeWhile_cons, herr]
        rfl
      have hstep : st.step json = .ok ((deltasOf json).foldl StreamState.delta
          { st with usage := readUsage st.usage json }) := by
        rw [StreamState.step, herr]
        rfl
      rw [hstep, huntil]
      dsimp only
      rw [ih, foldl_delta_events, (foldl_delta_follows _ _).toolAccum, List.flatMap_cons,
        List.flatMap_append, callStream_append, List.append_assoc]

/-- The tool calls of an iteration are streamed as the driver reads their deltas. -/
theorem Iteration.toolDeltas_events (serde : Serde) (iteration : Iteration) :
    toolDeltas (iteration.events serde) = callStream [] (iteration.callDeltas serde) := by
  have hnotices : toolDeltas iteration.notices = [] :=
    List.filter_eq_nil_iff.2 fun e he => by simpa using iteration.unrelated e he
  have hclosing : ∀ st : StreamState, toolDeltas (st.closing serde) = [] := by
    intro st
    refine List.filter_eq_nil_iff.2 fun e he => ?_
    rcases List.mem_append.1 he with he | he
    · obtain ⟨c, -, rfl⟩ := List.mem_map.1 he
      simp [isToolDelta]
    · rw [List.mem_singleton.1 he]
      simp [isToolDelta]
  have hread : toolDeltas (StreamState.read serde iteration.body).1.events =
      callStream [] (iteration.callDeltas serde) := by
    rw [StreamState.read, read_eq]
    exact steps_events {} _
  rw [Iteration.events, toolDeltas_append, hnotices, List.append_nil, ← hread, readStream]
  split
  · rfl
  · by_cases hempty : (StreamState.read serde iteration.body).1.isEmpty
    · rw [if_pos hempty]
    · rw [if_neg hempty, toolDeltas_append, hclosing, List.append_nil]

/-! ### What a client makes of it -/

/-- The calls, by the index that the stream counts. -/
def numbered (calls : List StreamedCall) : List (ℕ × StreamedCall) := calls.zipIdx.map Prod.swap

theorem numbered_append (calls : List StreamedCall) (call : StreamedCall) :
    numbered (calls ++ [call]) = numbered calls ++ [(calls.length, call)] := by
  simp [numbered, List.zipIdx_append]

/-- The next index is not taken. -/
theorem length_not_mem_numbered (calls : List StreamedCall) :
    calls.length ∉ (numbered calls).map Prod.fst := by
  intro hmem
  obtain ⟨e, he, hlen⟩ := List.mem_map.1 hmem
  obtain ⟨e', he', rfl⟩ := List.mem_map.1 he
  exact absurd (List.snd_lt_of_mem_zipIdx he') (Nat.not_lt.2 hlen.ge)

theorem numbered_snd (calls : List StreamedCall) : (numbered calls).map Prod.snd = calls := by
  rw [numbered, List.map_map]
  exact List.zipIdx_map_fst 0 calls

theorem addDelta_new {calls : List (ℕ × StreamedCall)} {d : CallDelta}
    (h : d.index ∉ calls.map Prod.fst) :
    addDelta calls d = calls ++ [(d.index, StreamedCall.add {} d)] := by
  induction calls with
  | nil => rfl
  | cons e calls ih =>
    obtain ⟨i, call⟩ := e
    rw [List.map_cons, List.mem_cons, not_or] at h
    rw [addDelta, if_neg (Ne.symm h.1), ih h.2]
    rfl

/-- A call that has begun goes on. -/
theorem addDelta_again {before after : List (ℕ × StreamedCall)} {call : StreamedCall}
    {d : CallDelta} (h : d.index ∉ before.map Prod.fst) :
    addDelta (before ++ (d.index, call) :: after) d =
      before ++ (d.index, call.add d) :: after := by
  induction before with
  | nil => exact if_pos rfl
  | cons e before ih =>
    obtain ⟨i, call'⟩ := e
    rw [List.map_cons, List.mem_cons, not_or] at h
    rw [List.cons_append, addDelta, if_neg (Ne.symm h.1), ih h.2]
    rfl

/-- The indices of the calls, in the order in which they begin. -/
theorem keys_addDelta (calls : List (ℕ × StreamedCall)) (d : CallDelta) :
    (addDelta calls d).map Prod.fst =
      if d.index ∈ calls.map Prod.fst then calls.map Prod.fst
      else calls.map Prod.fst ++ [d.index] := by
  induction calls with
  | nil => rfl
  | cons e calls ih =>
    obtain ⟨i, call⟩ := e
    rw [addDelta]
    by_cases hi : i = d.index
    · simp [hi]
    · rw [if_neg hi, List.map_cons, ih]
      by_cases hmem : d.index ∈ calls.map Prod.fst
      · simp [hmem]
      · rw [if_neg hmem, if_neg]
        · rfl
        · rw [List.map_cons, List.mem_cons, not_or]
          exact ⟨Ne.symm hi, hmem⟩

theorem nodup_addDelta {calls : List (ℕ × StreamedCall)} (h : (calls.map Prod.fst).Nodup)
    (d : CallDelta) : ((addDelta calls d).map Prod.fst).Nodup := by
  rw [keys_addDelta]
  split_ifs with hmem
  · exact h
  · exact List.nodup_append.2 ⟨h, List.nodup_singleton _, by
      rintro i hi i' hi' rfl
      exact hmem (List.mem_singleton.1 hi' ▸ hi)⟩

/-- A client that has some calls already, and receives the chunks of some events more. -/
def clientFrom (calls : List StreamedCall) (events : List StreamEvent) :
    List (ℕ × StreamedCall) :=
  ((forward completion calls.length events).flatMap SseData.callDeltas).foldl addDelta
    (numbered calls)

variable {completion}

theorem clientFrom_toolDeltas (calls : List StreamedCall) (events : List StreamEvent) :
    clientFrom completion calls events = clientFrom completion calls (toolDeltas events) := by
  have hforward : ∀ n, (forward completion n events).flatMap SseData.callDeltas =
      (forward completion n (toolDeltas events)).flatMap SseData.callDeltas := by
    intro n
    induction events generalizing n with
    | nil => rfl
    | cons e events ih =>
      cases e with
      | toolUseStart id name =>
        rw [toolDeltas, List.filter_cons_of_pos rfl, forward, forward, List.flatMap_cons,
          List.flatMap_cons, ih]
        rfl
      | toolInputDelta text =>
        rw [toolDeltas, List.filter_cons_of_pos rfl, forward, forward, List.flatMap_cons,
          List.flatMap_cons, ih]
        rfl
      | textDelta text =>
        rw [toolDeltas, List.filter_cons_of_neg (by simp [isToolDelta]), forward,
          List.flatMap_cons, ih]
        rfl
      | _ =>
        rw [toolDeltas, List.filter_cons_of_neg (by simp [isToolDelta]), forward, ih]
        · rfl
        all_goals simp
  rw [clientFrom, clientFrom, hforward]

theorem clientFrom_start (calls : List StreamedCall) (id name : String)
    (events : List StreamEvent) :
    clientFrom completion calls (.toolUseStart id name :: events) =
      clientFrom completion (calls ++ [⟨id, name, ""⟩]) events := by
  rw [clientFrom, clientFrom, forward, List.flatMap_cons, List.foldl_append, List.length_append,
    numbered_append]
  congr 1
  exact addDelta_new (d := ⟨calls.length, some id, some name, some ""⟩)
    (length_not_mem_numbered calls)

/-- The input goes to the call that has started last. -/
theorem clientFrom_input (calls : List StreamedCall) (call : StreamedCall) (text : String)
    (events : List StreamEvent) :
    clientFrom completion (calls ++ [call]) (.toolInputDelta text :: events) =
      clientFrom completion (calls ++ [{ call with arguments := call.arguments ++ text }])
        events := by
  rw [clientFrom, clientFrom, forward, List.flatMap_cons, List.foldl_append, List.length_append,
    numbered_append, numbered_append, List.length_append]
  congr 1
  exact addDelta_again (d := ⟨calls.length, none, none, some text⟩)
    (length_not_mem_numbered calls)

/-- The id of an entry; an entry that is not there has none. -/
def idAt (toolAccum : List (String × String × String)) (i : ℕ) : String :=
  (toolAccum[i]?.getD ("", "", "")).1

theorem idAt_append_replicate (toolAccum : List (String × String × String)) (k i : ℕ) :
    idAt (toolAccum ++ List.replicate k ("", "", "")) i = idAt toolAccum i := by
  unfold idAt
  by_cases hi : i < toolAccum.length
  · rw [List.getElem?_append_left hi]
  · rw [List.getElem?_append_right (by omega), List.getElem?_replicate,
      List.getElem?_eq_none (l := toolAccum) (by omega)]
    split_ifs <;> rfl

theorem idAt_accumulate (toolAccum : List (String × String × String)) (d : CallDelta) (i : ℕ) :
    idAt (accumulate toolAccum d) i =
      if i = d.index then d.id.getD (idAt toolAccum i) else idAt toolAccum i := by
  have hgrown := idAt_append_replicate toolAccum (d.index + 1 - toolAccum.length) i
  unfold accumulate
  dsimp only
  split_ifs with hi
  · subst hi
    have hlt : d.index <
        (toolAccum ++ List.replicate (d.index + 1 - toolAccum.length) ("", "", "")).length := by
      rw [List.length_append, List.length_replicate]
      omega
    rw [← hgrown]
    unfold idAt
    rw [List.getElem?_modify_eq, List.getElem?_eq_getElem hlt]
    rfl
  · rw [← hgrown]
    unfold idAt
    rw [List.getElem?_modify_ne _ _ (Ne.symm hi)]

theorem free_accumulate {calls : List (ℕ × StreamedCall)}
    {toolAccum : List (String × String × String)}
    (hfree : ∀ i, i ∉ calls.map Prod.fst → idAt toolAccum i = "") (d : CallDelta) :
    ∀ i, i ∉ (addDelta calls d).map Prod.fst → idAt (accumulate toolAccum d) i = "" := by
  intro i hi
  have hi' : i ∉ calls.map Prod.fst ∧ i ≠ d.index := by
    rw [keys_addDelta] at hi
    split_ifs at hi with hmem
    · exact ⟨hi, fun heq => hi (heq ▸ hmem)⟩
    · simpa [not_or] using hi
  rw [idAt_accumulate, if_neg hi'.2, hfree i hi'.1]

theorem clientFrom_begin {d : CallDelta} {toolAccum : List (String × String × String)}
    (hname : d.name ≠ none) (hfree : idAt toolAccum d.index = "") (calls : List StreamedCall)
    (events : List StreamEvent) :
    clientFrom completion calls (callEvents toolAccum d ++ events) =
      clientFrom completion (calls ++ [StreamedCall.add {} d]) events := by
  obtain ⟨name, hname⟩ := Option.ne_none_iff_exists'.1 hname
  have hid : idAt (accumulate toolAccum d) d.index = d.id.getD "" := by
    rw [idAt_accumulate, if_pos rfl, hfree]
  unfold callEvents
  dsimp only
  rw [← idAt, hid, hname, StreamedCall.add, hname, String.empty_append]
  by_cases hargs : d.arguments.getD "" = ""
  · rw [if_pos hargs, hargs]
    exact clientFrom_start ..
  · rw [if_neg hargs]
    refine (clientFrom_start ..).trans ((clientFrom_input ..).trans ?_)
    rw [String.empty_append]
    rfl

/-- What follows goes to the call that has begun last. -/
theorem clientFrom_goesOn {d : CallDelta} (toolAccum : List (String × String × String))
    (hname : d.name = none) (calls : List StreamedCall) (call : StreamedCall)
    (events : List StreamEvent) :
    clientFrom completion (calls ++ [call]) (callEvents toolAccum d ++ events) =
      clientFrom completion
        (calls ++ [{ call with arguments := call.arguments ++ d.arguments.getD "" }]) events := by
  unfold callEvents
  rw [hname]
  dsimp only
  by_cases hargs : d.arguments.getD "" = ""
  · rw [if_pos hargs, hargs, String.append_empty]
    rfl
  · rw [if_neg hargs]
    exact clientFrom_input ..

/-! ### Upstreams -/

/-- The deltas of an upstream that has begun calls with these indices and ids: the first delta of a
call has its name and its id, and what follows has neither, or the id again. -/
def Proper (begun : List (ℕ × String)) : List CallDelta → Prop
  | [] => True
  | d :: ds =>
    match begun.lookup d.index with
    | none => d.name ≠ none ∧ Proper (begun ++ [(d.index, d.id.getD "")]) ds
    | some id => d.name = none ∧ (d.id = none ∨ d.id = some id) ∧ Proper begun ds

/-- Arguments come in the turn of their call: no other call has begun since. -/
def InTurn (begun : List ℕ) : List CallDelta → Prop
  | [] => True
  | d :: ds =>
    if d.index ∈ begun then
      (d.arguments.getD "" = "" ∨ begun.getLast? = some d.index) ∧ InTurn begun ds
    else InTurn (begun ++ [d.index]) ds

/-- A call behind which another has begun lacks some of its arguments. -/
def Lags (got calls : List StreamedCall) : Prop :=
  ∃ (p : ℕ) (short long : StreamedCall), p + 1 < got.length ∧ got[p]? = some short ∧
    calls[p]? = some long ∧ short.arguments.length < long.arguments.length

section Lags

variable {got calls : List StreamedCall}

theorem Lags.ne (h : Lags got calls) : got ≠ calls := by
  rintro rfl
  obtain ⟨p, short, long, -, hshort, hlong, hlt⟩ := h
  obtain rfl := Option.some.inj (hshort.symm.trans hlong)
  omega

theorem Lags.append (h : Lags got calls) (more more' : List StreamedCall) :
    Lags (got ++ more) (calls ++ more') := by
  obtain ⟨p, short, long, hp, hshort, hlong, hlt⟩ := h
  refine ⟨p, short, long, ?_, List.getElem?_append_left ?_ |>.trans hshort, ?_, hlt⟩
  · rw [List.length_append]
    omega
  · omega
  · rw [List.getElem?_append_left (List.getElem?_eq_some_iff.1 hlong).1, hlong]

/-- What the last call gets does not help one before it. -/
theorem Lags.last {call : StreamedCall} (h : Lags (got ++ [call]) calls) (call' : StreamedCall) :
    Lags (got ++ [call']) calls := by
  obtain ⟨p, short, long, hp, hshort, hlong, hlt⟩ := h
  rw [List.length_append, List.length_singleton] at hp
  rw [List.getElem?_append_left (by omega)] at hshort
  refine ⟨p, short, long, ?_, ?_, hlong, hlt⟩
  · rw [List.length_append, List.length_singleton]
    omega
  · rw [List.getElem?_append_left (by omega), hshort]

theorem Lags.grow {before after : List StreamedCall} {call call' : StreamedCall}
    (h : Lags got (before ++ call :: after))
    (hle : call.arguments.length ≤ call'.arguments.length) :
    Lags got (before ++ call' :: after) := by
  obtain ⟨p, short, long, hp, hshort, hlong, hlt⟩ := h
  rcases Nat.lt_trichotomy p before.length with hlt' | rfl | hlt'
  · rw [List.getElem?_append_left hlt'] at hlong
    exact ⟨p, short, long, hp, hshort, by rw [List.getElem?_append_left hlt', hlong], hlt⟩
  · rw [List.getElem?_append_right (Nat.le_refl _), Nat.sub_self, List.getElem?_cons_zero] at hlong
    obtain rfl := Option.some.inj hlong
    refine ⟨before.length, short, call', hp, hshort, ?_, by omega⟩
    rw [List.getElem?_append_right (Nat.le_refl _), Nat.sub_self, List.getElem?_cons_zero]
  · obtain ⟨k, rfl⟩ : ∃ k, p = before.length + 1 + k := ⟨p - (before.length + 1), by omega⟩
    refine ⟨_, short, long, hp, hshort, ?_, hlt⟩
    rw [← hlong]
    simp [List.getElem?_append_right, Nat.add_assoc, Nat.add_comm 1 k]

/-- Arguments that go to the last call instead of an earlier one. -/
theorem lags_of_misplaced {before after : List StreamedCall} {call call' last : StreamedCall}
    (last' : StreamedCall) (hlt : call.arguments.length < call'.arguments.length) :
    Lags (before ++ call :: (after ++ [last'])) (before ++ call' :: (after ++ [last])) := by
  refine ⟨before.length, call, call', ?_, ?_, ?_, hlt⟩
  · simp only [List.length_append, List.length_cons]
    omega
  all_goals
    rw [List.getElem?_append_right (Nat.le_refl _), Nat.sub_self, List.getElem?_cons_zero]

end Lags

/-- The indices and the ids of calls. -/
def begun (calls : List (ℕ × StreamedCall)) : List (ℕ × String) :=
  calls.map fun e => (e.1, e.2.id)

theorem lookup_begun_none {calls : List (ℕ × StreamedCall)} {i : ℕ}
    (h : (begun calls).lookup i = none) : i ∉ calls.map Prod.fst := by
  intro hmem
  obtain ⟨e, he, rfl⟩ := List.mem_map.1 hmem
  have hne := List.lookup_eq_none_iff.1 h _ (List.mem_map_of_mem he)
  simp at hne

theorem lookup_begun_some {calls : List (ℕ × StreamedCall)} {i : ℕ} {id : String}
    (h : (begun calls).lookup i = some id) :
    ∃ before call after, calls = before ++ (i, call) :: after ∧ call.id = id := by
  obtain ⟨before, after, hcalls, -⟩ := List.lookup_eq_some_iff.1 h
  obtain ⟨before, rest, rfl, rfl, hrest⟩ := List.map_eq_append_iff.1 hcalls
  obtain ⟨e, after, rfl, he, rfl⟩ := List.map_eq_cons_iff.1 hrest
  obtain ⟨i', call⟩ := e
  obtain ⟨rfl, rfl⟩ := Prod.mk.inj he
  exact ⟨before, call, after, rfl, rfl⟩

theorem continued {before after got : List StreamedCall} {call last : StreamedCall} (args : String)
    (h : got ++ [last] = before ++ call :: after ∨
      Lags (got ++ [last]) (before ++ call :: after)) :
    (got ++ [{ last with arguments := last.arguments ++ args }] =
          before ++ { call with arguments := call.arguments ++ args } :: after ∨
        Lags (got ++ [{ last with arguments := last.arguments ++ args }])
          (before ++ { call with arguments := call.arguments ++ args } :: after)) ∧
      (got ++ [{ last with arguments := last.arguments ++ args }] =
          before ++ { call with arguments := call.arguments ++ args } :: after ↔
        got ++ [last] = before ++ call :: after ∧ (args = "" ∨ after = [])) := by
  rcases h with heq | hlags
  · rcases List.eq_nil_or_concat' after with rfl | ⟨after, e, rfl⟩
    · obtain ⟨rfl, hlast⟩ := List.append_inj' heq rfl
      obtain rfl := List.singleton_inj.1 hlast
      exact ⟨.inl rfl, iff_of_true rfl ⟨rfl, .inr rfl⟩⟩
    · rw [← List.cons_append, ← List.append_assoc] at heq
      obtain ⟨rfl, hlast⟩ := List.append_inj' heq rfl
      obtain rfl := List.singleton_inj.1 hlast
      rw [List.append_assoc, List.cons_append]
      by_cases hargs : args = ""
      · subst hargs
        simp only [String.append_empty, List.append_assoc, List.cons_append]
        exact ⟨.inl trivial, by simp⟩
      · have hlt : call.arguments.length < (call.arguments ++ args).length := by
          have hne : args.length ≠ 0 := fun h => hargs (String.length_eq_zero_iff.1 h)
          rw [String.length_append]
          omega
        have hlags := @lags_of_misplaced before after call
          { call with arguments := call.arguments ++ args } last
          { last with arguments := last.arguments ++ args } hlt
        refine ⟨.inr hlags, iff_of_false hlags.ne ?_⟩
        rintro ⟨-, rfl | hnil⟩
        · exact hargs rfl
        · exact absurd hnil (by simp)
  · have hle : call.arguments.length ≤ (call.arguments ++ args).length := by
      rw [String.length_append]
      omega
    have hlags' := @Lags.grow _ _ _ call { call with arguments := call.arguments ++ args }
      (hlags.last { last with arguments := last.arguments ++ args }) hle
    exact ⟨.inr hlags', iff_of_false hlags'.ne fun h => hlags.ne h.1⟩

theorem getLast?_eq_iff {before after : List (ℕ × StreamedCall)} {i : ℕ} {call : StreamedCall}
    (h : ((before ++ (i, call) :: after).map Prod.fst).Nodup) :
    ((before ++ (i, call) :: after).map Prod.fst).getLast? = some i ↔
      after.map Prod.snd = [] := by
  rcases List.eq_nil_or_concat' after with rfl | ⟨after, e, rfl⟩
  · simp
  · have hne : e.1 ≠ i := by
      rintro rfl
      simp [List.nodup_append] at h
    have hlast : ((before ++ (i, call) :: (after ++ [e])).map Prod.fst).getLast? = some e.1 := by
      rw [← List.cons_append, ← List.append_assoc, List.map_append, List.map_singleton,
        List.getLast?_concat]
    rw [hlast]
    exact iff_of_false (fun heq => hne (Option.some.inj heq)) (by simp)

/-- What follows for a call is put at its end. -/
theorem addDelta_goesOn {before after : List (ℕ × StreamedCall)} {call : StreamedCall}
    {d : CallDelta} (hnodup : ((before ++ (d.index, call) :: after).map Prod.fst).Nodup)
    (hname : d.name = none) (hid : d.id = none ∨ d.id = some call.id) :
    addDelta (before ++ (d.index, call) :: after) d =
      before ++ (d.index, { call with arguments := call.arguments ++ d.arguments.getD "" }) ::
        after := by
  have hbefore : d.index ∉ before.map Prod.fst := by
    intro hmem
    rw [List.map_append, List.nodup_append] at hnodup
    exact hnodup.2.2 _ hmem _ (List.mem_cons_self ..) rfl
  rw [addDelta_again hbefore, StreamedCall.add, hname]
  rcases hid with hid | hid <;> rw [hid] <;> rfl

/-- What a client has after some deltas of a stream, if it has got `got` of `calls` before. -/
theorem client_run (completion : Completion) (earlier : List StreamedCall) (ds : List CallDelta)
    (calls : List (ℕ × StreamedCall)) (toolAccum : List (String × String × String))
    (got : List StreamedCall) (hproper : Proper (begun calls) ds)
    (hnodup : (calls.map Prod.fst).Nodup)
    (hfree : ∀ i, i ∉ calls.map Prod.fst → idAt toolAccum i = "")
    (hgot : got = earlier ++ calls.map Prod.snd ∨ Lags got (earlier ++ calls.map Prod.snd)) :
    ∃ got', (∀ events, clientFrom completion got (callStream toolAccum ds ++ events) =
        clientFrom completion got' events) ∧
      (got' = earlier ++ (ds.foldl addDelta calls).map Prod.snd ∨
        Lags got' (earlier ++ (ds.foldl addDelta calls).map Prod.snd)) ∧
      (got' = earlier ++ (ds.foldl addDelta calls).map Prod.snd ↔
        got = earlier ++ calls.map Prod.snd ∧ InTurn (calls.map Prod.fst) ds) := by
  induction ds generalizing calls toolAccum got with
  | nil => exact ⟨got, fun _ => rfl, hgot, by simp [InTurn]⟩
  | cons d ds ih =>
    rw [List.foldl_cons]
    simp only [callStream, List.append_assoc]
    unfold Proper at hproper
    unfold InTurn
    have hkeys := keys_addDelta calls d
    have hnodup' := nodup_addDelta hnodup d
    have hfree' := free_accumulate hfree d
    cases hlookup : (begun calls).lookup d.index with
    | none =>
      rw [hlookup] at hproper
      obtain ⟨hname, hproper⟩ := hproper
      have hnew := lookup_begun_none hlookup
      have hadd := addDelta_new hnew
      have hbegun : begun (addDelta calls d) = begun calls ++ [(d.index, d.id.getD "")] := by
        rw [hadd]
        simp [begun, StreamedCall.add]
      have hsnd : earlier ++ (addDelta calls d).map Prod.snd =
          earlier ++ calls.map Prod.snd ++ [StreamedCall.add {} d] := by
        rw [hadd]
        simp
      rw [if_neg hnew] at hkeys ⊢
      obtain ⟨got', hevents, hgot', hiff⟩ := ih _ (accumulate toolAccum d)
        (got ++ [StreamedCall.add {} d]) (hbegun ▸ hproper) hnodup' hfree'
        (by
          rw [hsnd]
          exact hgot.imp (fun h => by rw [h]) fun h => h.append _ _)
      refine ⟨got', fun events => ?_, hgot', hiff.trans ?_⟩
      · rw [clientFrom_begin hname (hfree _ hnew), hevents]
      · rw [hsnd, List.append_left_inj, hkeys]
    | some id =>
      rw [hlookup] at hproper
      obtain ⟨hname, hid, hproper⟩ := hproper
      obtain ⟨before, call, after, rfl, rfl⟩ := lookup_begun_some hlookup
      have hadd := addDelta_goesOn hnodup hname hid
      have hbegun : begun (addDelta (before ++ (d.index, call) :: after) d) =
          begun (before ++ (d.index, call) :: after) := by
        rw [hadd]
        simp [begun]
      have hmem : d.index ∈ (before ++ (d.index, call) :: after).map Prod.fst := by simp
      have hsnd : ∀ call' : StreamedCall,
          earlier ++ (before ++ (d.index, call') :: after).map Prod.snd =
            earlier ++ before.map Prod.snd ++ call' :: after.map Prod.snd := by simp
      rw [if_pos hmem] at hkeys ⊢
      rw [hsnd] at hgot ⊢
      rcases List.eq_nil_or_concat' got with rfl | ⟨got, last, rfl⟩
      · rcases hgot with hgot | ⟨_, _, _, hp, -⟩
        · exact absurd hgot.symm (by simp)
        · exact absurd hp (by simp)
      · obtain ⟨hstep, hstepiff⟩ := continued (d.arguments.getD "") hgot
        obtain ⟨got', hevents, hgot', hiff⟩ := ih _ (accumulate toolAccum d) _
          (hbegun ▸ hproper) hnodup' hfree' (by rw [hadd, hsnd]; exact hstep)
        refine ⟨got', fun events => ?_, hgot', hiff.trans ?_⟩
        · rw [clientFrom_goesOn toolAccum hname, hevents]
        · rw [hkeys, hadd, hsnd, hstepiff, getLast?_eq_iff hnodup, and_assoc]

/-- The client's calls, by the deltas that the driver has read. -/
theorem clientCalls_eq (completion : Completion) (serde : Serde) (iterations : List Iteration) :
    clientCalls (streamResponse completion (iterations.flatMap (Iteration.events serde))) =
      (clientFrom completion []
        (iterations.flatMap fun it => callStream [] (it.callDeltas serde))).map Prod.snd := by
  have hdeltas : toolDeltas (iterations.flatMap (Iteration.events serde)) =
      iterations.flatMap fun it => callStream [] (it.callDeltas serde) := by
    rw [toolDeltas, List.filter_flatMap]
    exact congrArg₂ _ (funext fun it => it.toolDeltas_events serde) rfl
  rw [← hdeltas, ← clientFrom_toolDeltas, clientCalls, streamResponse, gather, clientFrom]
  congr 2
  simp [SseData.callDeltas, makeChunk]

/-- What a client has after some iterations more, if it has got `got` of `calls` before. -/
theorem client_iterations (completion : Completion) (serde : Serde) (iterations : List Iteration)
    (hproper : ∀ it ∈ iterations, Proper [] (it.callDeltas serde))
    {got calls : List StreamedCall} (hgot : got = calls ∨ Lags got calls) :
    ∃ got', clientFrom completion got
          (iterations.flatMap fun it => callStream [] (it.callDeltas serde)) = numbered got' ∧
      (got' = calls ++ iterations.flatMap (fun it => gather (it.callDeltas serde)) ↔
        got = calls ∧ ∀ it ∈ iterations, InTurn [] (it.callDeltas serde)) := by
  induction iterations generalizing got calls with
  | nil => exact ⟨got, rfl, by simp⟩
  | cons it iterations ih =>
    obtain ⟨hfirst, hproper⟩ := List.forall_mem_cons.1 hproper
    obtain ⟨got', hevents, hgot', hiff⟩ := client_run completion calls (it.callDeltas serde) [] []
      got hfirst List.nodup_nil (fun _ _ => rfl) (by simpa using hgot)
    obtain ⟨got'', hrest, hiff'⟩ := ih hproper hgot'
    refine ⟨got'', by rw [List.flatMap_cons, hevents, hrest], ?_⟩
    rw [List.flatMap_cons, ← List.append_assoc, List.forall_mem_cons, ← and_assoc]
    refine hiff'.trans (and_congr (hiff.trans ?_) Iff.rfl)
    rw [List.map_nil, List.append_nil, List.map_nil]

/-- A client gets the calls that an upstream streams over some iterations if and only if all
arguments come in the turn of their call. -/
theorem clientCalls_iff (completion : Completion) (serde : Serde) (iterations : List Iteration)
    (hproper : ∀ it ∈ iterations, Proper [] (it.callDeltas serde)) :
    clientCalls (streamResponse completion (iterations.flatMap (Iteration.events serde))) =
        iterations.flatMap (fun it => gather (it.callDeltas serde)) ↔
      ∀ it ∈ iterations, InTurn [] (it.callDeltas serde) := by
  obtain ⟨got, hevents, hiff⟩ := client_iterations completion serde iterations hproper
    (.inl rfl : ([] : List StreamedCall) = [] ∨ Lags [] [])
  rw [clientCalls_eq, hevents, numbered_snd]
  simpa using hiff

section Interleaved

/-- A delta of a tool call, as a provider sends it. -/
def callJson (entries : List (String × Json)) : Json :=
  .object [("choices", .array [.object [("delta", .object [("tool_calls",
    .array [.object entries])])]])]

/-- The first delta of a call. -/
def startJson (index id name : String) : Json :=
  callJson [("index", .number index), ("id", .string id),
    ("function", .object [("name", .string name), ("arguments", .string "")])]

/-- Arguments for a call. -/
def argumentsJson (index arguments : String) : Json :=
  callJson [("index", .number index), ("function", .object [("arguments", .string arguments)])]

/-- The reading of some events. -/
def readingOf (events : List Json) : Serde where
  parse s :=
    match (events.map fun event => (event.toString, event)).lookup s with
    | some event => .ok event
    | none => .error "expected value"
  oaiResponse _ := .error "expected value"

/-- A stream of some events. -/
def streaming (events : List Json) : Iteration where
  retriesLeft := 0
  body := events.map fun event => .ok ("data: " ++ event.toString ++ "\n")
  notices := []
  unrelated := by simp

/-- The deltas of two calls, the first of them begun and done before the other. -/
def oneByOne : List Json :=
  [startJson "0" "a" "read", argumentsJson "0" "1", startJson "1" "b" "write",
    argumentsJson "1" "2"]

/-- The same deltas, but both calls are begun first. -/
def bothFirst : List Json :=
  [startJson "0" "a" "read", startJson "1" "b" "write", argumentsJson "0" "1",
    argumentsJson "1" "2"]

/-- A completion. -/
def someCompletion : Completion := ⟨"chatcmpl-1", 0, "agent"⟩

theorem arrived_lines {ls : List (List Char)} (h : ∀ line ∈ ls, '\n' ∉ line) :
    arrived takeLines [] (ls.map fun line => .ok (String.ofList (line ++ ['\n']))) =
      (ls, none) := by
  induction ls with
  | nil => rfl
  | cons line ls ih =>
    rw [List.forall_mem_cons] at h
    rw [List.map_cons, arrived, List.nil_append, String.toList_ofList, takeLines_line h.1]
    dsimp only
    rw [ih h.2]
    rfl

/-- The event can be read off its text. -/
theorem parse_readingOf {events : List Json} (hnodup : (events.map Json.print).Nodup) {event : Json}
    (h : event ∈ events) : (readingOf events).parse event.toString = .ok event := by
  have hlookup : (events.map fun event => (event.toString, event)).lookup event.toString =
      some event := by
    induction events with
    | nil => exact absurd h List.not_mem_nil
    | cons first events ih =>
      rw [List.map_cons, List.nodup_cons] at hnodup
      rw [List.map_cons, List.lookup_cons]
      by_cases heq : event = first
      · rw [heq, beq_self_eq_true]
      · have hmem := (List.mem_cons.1 h).resolve_left heq
        have hne : event.toString ≠ first.toString := fun htext =>
          hnodup.1 (String.ofList_injective htext ▸ List.mem_map_of_mem hmem)
        rw [beq_false_of_ne hne]
        exact ih hnodup.2 hmem
  show (match (events.map fun event => (event.toString, event)).lookup event.toString with
    | some event => Except.ok event
    | none => .error "expected value") = .ok event
  rw [hlookup]

theorem readLine_object {parse : String → Except String Json} {entries : List (String × Json)}
    (h : parse (Json.object entries).toString = .ok (.object entries)) :
    readLine parse ("data: ".toList ++ (Json.object entries).print) = some (.object entries) := by
  have hprint : (Json.object entries).print =
      '\x7b' :: (Json.printEntries entries ++ ['\x7d']) := by
    rw [Json.print]
  rw [Json.toString, hprint] at h
  rw [hprint, readLine_data h]

theorem callDeltas_streaming {events : List Json} (hnodup : (events.map Json.print).Nodup)
    (hobject : ∀ event ∈ events, ∃ entries, event = .object entries)
    (hline : ∀ event ∈ events, '\n' ∉ event.print) :
    (streaming events).callDeltas (readingOf events) =
      ((untilError events).flatMap deltasOf).flatMap Delta.toolCalls := by
  have hbody : (streaming events).body = (events.map fun event =>
      "data: ".toList ++ event.print).map fun line => .ok (String.ofList (line ++ ['\n'])) := by
    rw [List.map_map]
    refine List.map_congr_left fun event _ => congrArg Except.ok (String.toList_inj.1 ?_)
    simp [Json.toString]
  have hlines : ∀ line ∈ events.map fun event => "data: ".toList ++ event.print,
      '\n' ∉ line := by
    rw [List.forall_mem_map]
    intro event hevent hmem
    rcases List.mem_append.1 hmem with hmem | hmem
    · exact absurd hmem (by decide)
    · exact hline event hevent hmem
  have hread : (events.map fun event => "data: ".toList ++ event.print).filterMap
      (readLine (readingOf events).parse) = events := by
    rw [List.filterMap_map]
    refine (List.filterMap_congr fun event hevent => ?_).trans List.filterMap_some
    obtain ⟨entries, rfl⟩ := hobject event hevent
    exact readLine_object (parse_readingOf hnodup hevent)
  rw [Iteration.callDeltas, hbody, arrived_lines hlines]
  dsimp only
  rw [hread]

theorem callDeltas_oneByOne : (streaming oneByOne).callDeltas (readingOf oneByOne) =
    [⟨0, some "a", some "read", some ""⟩, ⟨0, none, none, some "1"⟩,
      ⟨1, some "b", some "write", some ""⟩, ⟨1, none, none, some "2"⟩] := by
  rw [callDeltas_streaming (by decide)
    (by simp [oneByOne, startJson, argumentsJson, callJson]) (by decide)]
  decide

theorem callDeltas_bothFirst : (streaming bothFirst).callDeltas (readingOf bothFirst) =
    [⟨0, some "a", some "read", some ""⟩, ⟨1, some "b", some "write", some ""⟩,
      ⟨0, none, none, some "1"⟩, ⟨1, none, none, some "2"⟩] := by
  rw [callDeltas_streaming (by decide)
    (by simp [bothFirst, startJson, argumentsJson, callJson]) (by decide)]
  decide

/-- One call after the other. -/
theorem clientCalls_oneByOne :
    clientCalls (streamResponse someCompletion
        ([streaming oneByOne].flatMap (Iteration.events (readingOf oneByOne)))) =
      [streaming oneByOne].flatMap (fun it => gather (it.callDeltas (readingOf oneByOne))) := by
  refine (clientCalls_iff someCompletion (readingOf oneByOne) [streaming oneByOne] ?_).2 ?_
  · rw [List.forall_mem_singleton, callDeltas_oneByOne]
    simp [Proper, List.lookup_cons]
  · rw [List.forall_mem_singleton, callDeltas_oneByOne]
    simp [InTurn]

/-- The arguments of both calls end up with the second. -/
theorem clientCalls_bothFirst :
    ¬ ∀ (serde : Serde) (iterations : List Iteration),
      (∀ it ∈ iterations, Proper [] (it.callDeltas serde)) →
      clientCalls (streamResponse someCompletion (iterations.flatMap (Iteration.events serde))) =
        iterations.flatMap fun it => gather (it.callDeltas serde) := by
  intro hall
  have hcalls := hall (readingOf bothFirst) [streaming bothFirst] (by
    rw [List.forall_mem_singleton, callDeltas_bothFirst]
    simp [Proper, List.lookup_cons])
  rw [clientCalls_eq, List.flatMap_singleton, List.flatMap_singleton,
    callDeltas_bothFirst] at hcalls
  revert hcalls
  decide

end Interleaved

end OpenAiCompat
end RustyHand
