import RustyHand.Drivers.OpenAI

/-!
# What a stream of the OpenAI driver comes to

The state of a stream is a function of the deltas before an error, whatever the pieces of the body
are.

* `pieces`: what the tags make of some deltas;
* `Follows`: a state after some deltas;
* `steps_follows`: the events of a stream are followed;
* `readStream_done`, `refused_done`: the replies that give a response.
-/

namespace RustyHand
namespace OpenAI

open LlmDriver Drivers
open SendMessage (TokenUsage)

@[simp] theorem visibleText_nil : visibleText [] = [] := rfl

@[simp] theorem hiddenText_nil : hiddenText [] = [] := rfl

@[simp] theorem visibleText_visible (s : List Char) (segments : List Segment) :
    visibleText (.visible s :: segments) = s ++ visibleText segments := rfl

@[simp] theorem visibleText_hidden (s : List Char) (segments : List Segment) :
    visibleText (.hidden s :: segments) = visibleText segments := rfl

@[simp] theorem hiddenText_hidden (s : List Char) (segments : List Segment) :
    hiddenText (.hidden s :: segments) = s ++ hiddenText segments := rfl

@[simp] theorem visibleText_append (segments segments' : List Segment) :
    visibleText (segments ++ segments') = visibleText segments ++ visibleText segments' :=
  List.flatMap_append

@[simp] theorem hiddenText_append (segments segments' : List Segment) :
    hiddenText (segments ++ segments') = hiddenText segments ++ hiddenText segments' :=
  List.flatMap_append

/-! ### Deltas -/

/-- What the tags make of some deltas: their reasoning is hidden, and their text is cut. -/
def pieces (inThinking : Bool) : List Delta → List Segment × Bool
  | [] => ([], inThinking)
  | d :: ds =>
    let r := routeText inThinking (d.content.getD "").toList
    let rest := pieces r.2 ds
    (.hidden (d.reasoning.getD "").toList :: (r.1 ++ rest.1), rest.2)

theorem pieces_cons (inThinking : Bool) (d : Delta) (ds : List Delta) :
    pieces inThinking (d :: ds) =
      let r := routeText inThinking (d.content.getD "").toList
      (.hidden (d.reasoning.getD "").toList :: (r.1 ++ (pieces r.2 ds).1), (pieces r.2 ds).2) := rfl

theorem pieces_append (inThinking : Bool) (ds ds' : List Delta) :
    pieces inThinking (ds ++ ds') =
      ((pieces inThinking ds).1 ++ (pieces (pieces inThinking ds).2 ds').1,
        (pieces (pieces inThinking ds).2 ds').2) := by
  induction ds generalizing inThinking with
  | nil => rfl
  | cons d ds ih =>
    simp only [List.cons_append, pieces_cons, ih, List.append_assoc]

/-- The last reason to stop. -/
def lastReason (finishReason : Option String) (ds : List Delta) : Option String :=
  ds.foldl (fun reason d => d.finishReason.or reason) finishReason

/-- `st'` is `st` after the deltas, and what has been sent meanwhile is their visible text. -/
structure Follows (st : StreamState) (ds : List Delta) (st' : StreamState) : Prop where
  text : st'.text = st.text ++ visibleText (pieces st.inThinking ds).1
  thinking : st'.thinking = st.thinking ++ hiddenText (pieces st.inThinking ds).1
  inThinking : st'.inThinking = (pieces st.inThinking ds).2
  toolAccum : st'.toolAccum = (ds.flatMap Delta.toolCalls).foldl accumulate st.toolAccum
  finishReason : st'.finishReason = lastReason st.finishReason ds
  sent : deltaText st'.events =
    deltaText st.events ++ String.ofList (visibleText (pieces st.inThinking ds).1)

theorem Follows.trans {st st' st'' : StreamState} {ds ds' : List Delta} (h : Follows st ds st')
    (h' : Follows st' ds' st'') : Follows st (ds ++ ds') st'' where
  text := by
    rw [h'.text, h.text, h.inThinking, pieces_append, visibleText_append, List.append_assoc]
  thinking := by
    rw [h'.thinking, h.thinking, h.inThinking, pieces_append, hiddenText_append, List.append_assoc]
  inThinking := by rw [h'.inThinking, h.inThinking, pieces_append]
  toolAccum := by rw [h'.toolAccum, h.toolAccum, List.flatMap_append, List.foldl_append]
  finishReason := by
    rw [h'.finishReason, h.finishReason, lastReason, lastReason, lastReason, List.foldl_append]
  sent := by
    rw [h'.sent, h.sent, h.inThinking, pieces_append, visibleText_append, String.ofList_append,
      String.append_assoc]

theorem deltaText_segments (segments : List Segment) :
    deltaText (segments.flatMap Segment.events) = String.ofList (visibleText segments) := by
  induction segments with
  | nil => rfl
  | cons segment segments ih =>
    rw [List.flatMap_cons, deltaText_append, ih]
    cases segment with
    | visible s =>
      rw [visibleText_visible, String.ofList_append, Segment.events]
      split_ifs with hs
      · subst hs
        rfl
      · rw [deltaText_textDelta]
    | hidden s =>
      rw [visibleText_hidden, Segment.events]
      split_ifs <;> exact String.empty_append ..

theorem deltaText_callEvents (toolAccum : List (String × String × String)) (d : CallDelta) :
    deltaText (callEvents toolAccum d) = "" := by
  unfold callEvents
  rw [deltaText_append]
  cases d.name <;> split_ifs <;> rfl

theorem foldl_call (st : StreamState) (calls : List CallDelta) :
    ∃ events, deltaText events = "" ∧ calls.foldl StreamState.call st =
      { st with
        toolAccum := calls.foldl accumulate st.toolAccum
        events := st.events ++ events } := by
  induction calls generalizing st with
  | nil => exact ⟨[], rfl, by rw [List.append_nil]; rfl⟩
  | cons d calls ih =>
    obtain ⟨events, htext, h⟩ := ih (st.call d)
    refine ⟨callEvents st.toolAccum d ++ events, ?_, ?_⟩
    · rw [deltaText_append, deltaText_callEvents, htext]
      rfl
    · rw [List.foldl_cons, h]
      simp only [StreamState.call, List.foldl_cons, List.append_assoc]

theorem delta_follows (st : StreamState) (d : Delta) : Follows st [d] (st.delta d) := by
  obtain ⟨events, htext, hcalls⟩ := foldl_call
    ((st.reasoning (d.reasoning.getD "")).content (d.content.getD "")) d.toolCalls
  have hreason : ∃ events, deltaText events = "" ∧ st.reasoning (d.reasoning.getD "") =
      { st with
        thinking := st.thinking ++ (d.reasoning.getD "").toList
        events := st.events ++ events } := by
    unfold StreamState.reasoning
    split_ifs with h
    · exact ⟨[], rfl, by rw [h]; simp⟩
    · exact ⟨[.thinkingDelta (d.reasoning.getD "")], rfl, rfl⟩
  obtain ⟨events', htext', hreason⟩ := hreason
  rw [hreason] at hcalls
  have hdelta : st.delta d =
      { st with
        text := st.text ++ visibleText (routeText st.inThinking (d.content.getD "").toList).1
        thinking := st.thinking ++ (d.reasoning.getD "").toList ++
          hiddenText (routeText st.inThinking (d.content.getD "").toList).1
        inThinking := (routeText st.inThinking (d.content.getD "").toList).2
        toolAccum := d.toolCalls.foldl accumulate st.toolAccum
        finishReason := d.finishReason.or st.finishReason
        events := st.events ++ events' ++
          (routeText st.inThinking (d.content.getD "").toList).1.flatMap Segment.events ++
            events } := by
    unfold StreamState.delta
    dsimp only
    rw [hreason, hcalls]
    rfl
  rw [hdelta]
  constructor
  · simp [pieces]
  · simp [pieces]
  · rfl
  · simp
  · rfl
  · simp only [deltaText_append, htext, htext', deltaText_segments, pieces]
    simp

theorem foldl_delta_usage (st : StreamState) (ds : List Delta) :
    (ds.foldl StreamState.delta st).usage = st.usage := by
  induction ds generalizing st with
  | nil => rfl
  | cons d ds ih =>
    obtain ⟨events, _, hcalls⟩ := foldl_call
      ((st.reasoning (d.reasoning.getD "")).content (d.content.getD "")) d.toolCalls
    rw [List.foldl_cons, ih, StreamState.delta]
    dsimp only
    rw [hcalls]
    unfold StreamState.content StreamState.reasoning
    split_ifs <;> rfl

theorem foldl_delta_follows (st : StreamState) (ds : List Delta) :
    Follows st ds (ds.foldl StreamState.delta st) := by
  induction ds generalizing st with
  | nil => constructor <;> simp [pieces, lastReason]
  | cons d ds ih => exact (delta_follows st d).trans (ih (st.delta d))

/-! ### Events -/

/-- The events before an error. -/
def untilError (events : List Json) : List Json :=
  events.takeWhile fun json => (json.get "error").isNone

/-- The deltas of an event. -/
def deltasOf (json : Json) : List Delta :=
  ((json.index "choices").asArray.getD []).map readDelta

theorem steps_follows (st : StreamState) (events : List Json) :
    Follows st ((untilError events).flatMap deltasOf) (steps StreamState.step st events).1 ∧
      (steps StreamState.step st events).1.usage =
          (untilError events).foldl readUsage st.usage := by
  induction events generalizing st with
  | nil => exact ⟨foldl_delta_follows st [], rfl⟩
  | cons json events ih =>
    rw [steps_cons]
    cases herr : json.get "error" with
    | some err =>
      have hstep : st.step json = .error (streamError err) := by
        unfold StreamState.step
        rw [herr]
      have huntil : untilError (json :: events) = [] := by
        rw [untilError, List.takeWhile_cons, herr]
        rfl
      rw [hstep, huntil]
      exact ⟨foldl_delta_follows st [], rfl⟩
    | none =>
      have hstep : st.step json = .ok ((deltasOf json).foldl StreamState.delta
          { st with usage := readUsage st.usage json }) := by
        unfold StreamState.step
        rw [herr]
        rfl
      have huntil : untilError (json :: events) = json :: untilError events := by
        rw [untilError, List.takeWhile_cons, herr]
        rfl
      rw [hstep, huntil]
      obtain ⟨hrest, husage⟩ := ih ((deltasOf json).foldl StreamState.delta
        { st with usage := readUsage st.usage json })
      have hfirst := foldl_delta_follows
        { st with usage := readUsage st.usage json } (deltasOf json)
      have hfirst' : Follows st (deltasOf json) ((deltasOf json).foldl StreamState.delta
          { st with usage := readUsage st.usage json }) :=
        ⟨hfirst.text, hfirst.thinking, hfirst.inThinking, hfirst.toolAccum, hfirst.finishReason,
          hfirst.sent⟩
      refine ⟨hfirst'.trans hrest, ?_⟩
      rw [husage, List.foldl_cons, foldl_delta_usage]

/-- A line that is sent is taken as it is. -/
theorem takeLines_line {line : List Char} (h : '\n' ∉ line) :
    takeLines (line ++ ['\n']) = ([line], []) := by
  induction line with
  | nil => rfl
  | cons c line ih =>
    rw [List.mem_cons, not_or] at h
    rw [List.cons_append, takeLines, ih h.2]
    exact if_neg (Ne.symm h.1)

theorem readLine_data {parse : String → Except String Json} {inner : List Char} {json : Json}
    (h : parse (String.ofList ('\x7b' :: (inner ++ ['\x7d']))) = .ok json) :
    readLine parse ("data: ".toList ++ '\x7b' :: (inner ++ ['\x7d'])) = some json := by
  have htrim : trimEnd ("data: ".toList ++ '\x7b' :: (inner ++ ['\x7d'])) =
      "data: ".toList ++ '\x7b' :: (inner ++ ['\x7d']) := by
    rw [trimEnd, ← List.cons_append, ← List.append_assoc, List.reverse_append,
      List.reverse_singleton, List.singleton_append, List.dropWhile_cons_of_neg (by decide),
      List.reverse_cons, List.reverse_reverse]
  have hvalue : fieldValue "data:" ("data: ".toList ++ '\x7b' :: (inner ++ ['\x7d'])) =
      some ('\x7b' :: (inner ++ ['\x7d'])) := rfl
  have hdone : '\x7b' :: (inner ++ ['\x7d']) ≠ "[DONE]".toList := by simp
  rw [readLine, htrim, hvalue]
  show (if '\x7b' :: (inner ++ ['\x7d']) = "[DONE]".toList then none
    else (parse (String.ofList ('\x7b' :: (inner ++ ['\x7d'])))).toOption) = _
  rw [if_neg hdone, h]
  rfl

/-- A body that begins with an event. -/
theorem read_cons {parse : String → Except String Json} {st : StreamState} {event : String}
    {inner : List Char} {json : Json} {body : Body}
    (hevent : event = String.ofList ('\x7b' :: (inner ++ ['\x7d']))) (h : parse event = .ok json)
    (hline : '\n' ∉ inner) :
    Drivers.read takeLines (readLine parse) StreamState.step st []
        (.ok ("data: " ++ event ++ "\n") :: body) =
      match st.step json with
      | .error e => (st, some e)
      | .ok st => Drivers.read takeLines (readLine parse) StreamState.step st [] body := by
  have hpiece : ("data: " ++ event ++ "\n").toList =
      "data: ".toList ++ '\x7b' :: (inner ++ ['\x7d']) ++ ['\n'] := by
    rw [hevent]
    simp
  have hline' : '\n' ∉ "data: ".toList ++ '\x7b' :: (inner ++ ['\x7d']) := by simp [hline]
  rw [Drivers.read, List.nil_append, hpiece, takeLines_line hline',
    List.filterMap_cons_some (readLine_data (hevent ▸ h)), List.filterMap_nil, steps_cons]
  dsimp only
  cases st.step json <;> rfl

/-! ### Attempts that succeed -/

variable {serde : Serde}

theorem readStream_done {n : ℕ} {body : Body} {response : CompletionResponse}
    (h : (readStream serde n body).1 = .done response) :
    response = (StreamState.read serde body).1.response serde := by
  unfold readStream at h
  dsimp only at h
  split at h
  · cases h
  · split_ifs at h
    exact (Outcome.done.inj h).symm

theorem deltaText_closing (st : StreamState) : deltaText (st.closing serde) = "" := by
  unfold StreamState.closing
  rw [deltaText_append, deltaText, List.filterMap_map]
  rw [show (StreamEvent.delta? ∘ fun c : ToolCall => .toolUseEnd c.id c.name c.input) =
    fun _ => none from rfl, List.filterMap_none]
  rfl

/-- What a stream sends is what has been read of it, and its end if it succeeds. -/
theorem readStream_sends (serde : Serde) (n : ℕ) (body : Body) :
    ∃ closing, deltaText closing = "" ∧
      (readStream serde n body).2 = (StreamState.read serde body).1.events ++ closing := by
  unfold readStream
  dsimp only
  split
  · exact ⟨[], rfl, (List.append_nil _).symm⟩
  · split_ifs
    · exact ⟨[], rfl, (List.append_nil _).symm⟩
    · exact ⟨[], rfl, (List.append_nil _).symm⟩
    · exact ⟨_, deltaText_closing _, rfl⟩

/-- A refusal gives a response only where one is recovered from it. -/
theorem refused_done {status n maxTokens : ℕ} {body : String} {response : CompletionResponse}
    (h : (refused serde status body n maxTokens).1 = .done response) :
    (status = 400 ∧ Text.containsText body "tool_use_failed" = true) ∧
      parseGroqFailedToolCall serde body = some response := by
  have hiff : (decide (status = 400) && Text.containsText body "tool_use_failed") = true ↔
      status = 400 ∧ Text.containsText body "tool_use_failed" = true := by
    rw [Bool.and_eq_true, decide_eq_true_eq]
  unfold refused at h
  dsimp only at h
  by_cases hfailed : (decide (status = 400) && Text.containsText body "tool_use_failed") = true
  · rw [if_pos hfailed] at h
    cases hparse : parseGroqFailedToolCall serde body with
    | some response' =>
      rw [hparse] at h
      exact ⟨hiff.1 hfailed, congrArg some (Outcome.done.inj h)⟩
    | none =>
      rw [hparse] at h
      dsimp only at h
      split_ifs at h
  · rw [if_neg hfailed] at h
    dsimp only at h
    split_ifs at h

theorem notSuccess_done {status n maxTokens : ℕ} {body : Body} {response : CompletionResponse}
    (h : (notSuccess serde status body n maxTokens).1 = .done response) :
    (status = 400 ∧ Text.containsText (readOrExplain body) "tool_use_failed" = true) ∧
      parseGroqFailedToolCall serde (readOrExplain body) = some response := by
  unfold notSuccess at h
  split_ifs at h
  exact refused_done h

/-- What a recovered response is made of. -/
theorem parseGroq_some {body : String} {response : CompletionResponse}
    (h : parseGroqFailedToolCall serde body = some response) :
    ∃ failed toolCalls, failedGeneration serde.parse body = some failed ∧
      failedCalls serde.parse failed.length failed.toList [] = some toolCalls ∧
      (toolCalls = [] ∧ Text.isBlank failed = false ∧
          response = ⟨[.text failed], .endTurn, [], ⟨0, 0⟩⟩ ∨
        toolCalls ≠ [] ∧ response = ⟨[], .toolUse, toolCalls, ⟨0, 0⟩⟩) := by
  unfold parseGroqFailedToolCall at h
  obtain ⟨failed, hfailed, h⟩ := Option.bind_eq_some_iff.1 h
  obtain ⟨toolCalls, hcalls, h⟩ := Option.bind_eq_some_iff.1 h
  refine ⟨failed, toolCalls, hfailed, hcalls, ?_⟩
  split_ifs at h with hnil hblank
  · exact .inl ⟨List.isEmpty_iff.1 hnil, by simpa using hblank, (Option.some.inj h).symm⟩
  · exact .inr ⟨fun hnil' => hnil (List.isEmpty_iff.2 hnil'), (Option.some.inj h).symm⟩

end OpenAI
end RustyHand
