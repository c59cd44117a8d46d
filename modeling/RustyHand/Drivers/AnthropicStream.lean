import RustyHand.Drivers.Anthropic

/-!
# What a stream of the Anthropic driver comes to

The driver sends every text delta on, and adds it to the last block if that is a block of text.  The
text of the response is what has been sent as long as no text comes outside of such a block.

* `textDeltas`: the text deltas of some events, with where they come;
* `Follows`: a state after some events;
* `join_inText_iff`: when the text of the blocks is the text of the deltas.
-/

namespace RustyHand
namespace Anthropic

open LlmDriver Drivers
open SendMessage (TokenUsage)

/-! ### Text deltas -/

/-- The text of a text delta. -/
def SseEvent.textDelta? (event : SseEvent) : Option String :=
  if event.type = "content_block_delta" ∧
      ((event.json.index "delta").index "type").asStr.getD "" = "text_delta" then
    ((event.json.index "delta").index "text").asStr
  else none

/-- Whether the last block is one of text after an event. -/
def SseEvent.inText (inText : Bool) (event : SseEvent) : Bool :=
  if event.type = "content_block_start" then
    match ((event.json.index "content_block").index "type").asStr.getD "" with
    | "text" => true
    | "tool_use" => false
    | "thinking" => false
    | _ => inText
  else inText

/-- The text deltas of some events, each with whether it comes in a block of text. -/
def textDeltas (inText : Bool) : List SseEvent → List (Bool × String)
  | [] => []
  | event :: events =>
    (event.textDelta?.map fun text => (inText, text)).toList ++
      textDeltas (event.inText inText) events

/-- The text of some deltas. -/
def allText (deltas : List (Bool × String)) : String := String.join (deltas.map Prod.snd)

/-- The text of the deltas that come in a block of text. -/
def blockText (deltas : List (Bool × String)) : String := allText (deltas.filter Prod.fst)

theorem allText_append (deltas deltas' : List (Bool × String)) :
    allText (deltas ++ deltas') = allText deltas ++ allText deltas' := by
  rw [allText, List.map_append, String.join_append]
  rfl

theorem blockText_append (deltas deltas' : List (Bool × String)) :
    blockText (deltas ++ deltas') = blockText deltas ++ blockText deltas' := by
  rw [blockText, List.filter_append, allText_append]
  rfl

@[simp] theorem allText_singleton (delta : Bool × String) : allText [delta] = delta.2 := by
  simp [allText]

@[simp] theorem blockText_singleton (inText : Bool) (text : String) :
    blockText [(inText, text)] = if inText then text else "" := by
  cases inText with
  | true => exact allText_singleton _
  | false => rfl

theorem length_blockText_le (deltas : List (Bool × String)) :
    (blockText deltas).length ≤ (allText deltas).length := by
  induction deltas with
  | nil => exact le_rfl
  | cons delta deltas ih =>
    obtain ⟨inText, text⟩ := delta
    rw [← List.singleton_append, blockText_append, allText_append, String.length_append,
      String.length_append]
    refine Nat.add_le_add ?_ ih
    rw [blockText_singleton, allText_singleton]
    split_ifs
    · exact le_rfl
    · exact Nat.zero_le _

/-- Nothing is lost of the text if and only if nothing of it comes outside of a block of text. -/
theorem blockText_eq_iff (deltas : List (Bool × String)) :
    blockText deltas = allText deltas ↔ ∀ delta ∈ deltas, delta.1 = false → delta.2 = "" := by
  induction deltas with
  | nil => simp [blockText]
  | cons delta deltas ih =>
    obtain ⟨inText, text⟩ := delta
    rw [← List.singleton_append, blockText_append, allText_append, blockText_singleton,
      allText_singleton, List.singleton_append, List.forall_mem_cons, ← ih]
    cases inText with
    | true => simp [String.append_right_inj]
    | false =>
      constructor
      · intro h
        have hlen := congrArg String.length h
        have hle := length_blockText_le deltas
        simp only [Bool.false_eq_true, if_false, String.length_append, String.length_empty]
          at hlen
        have htext : text = "" := String.length_eq_zero_iff.1 (by omega)
        subst htext
        exact ⟨fun _ => rfl, by simpa using h⟩
      · rintro ⟨htext, h⟩
        rw [htext rfl, h]
        simp

/-! ### Blocks -/

/-- The text of a block. -/
def ContentBlockAccum.text? : ContentBlockAccum → Option String
  | .text s => some s
  | _ => none

/-- The text of some blocks. -/
def blocksText (blocks : List ContentBlockAccum) : String :=
  String.join (blocks.filterMap ContentBlockAccum.text?)

/-- The last block is one of text. -/
def lastIsText (blocks : List ContentBlockAccum) : Bool :=
  (blocks.getLast?.bind ContentBlockAccum.text?).isSome

theorem text_response (serde : Serde) (st : StreamState) :
    (st.response serde).text = blocksText st.blocks := by
  unfold CompletionResponse.text StreamState.response blocksText
  rw [List.filterMap_map]
  congr 2
  funext block
  cases block <;> rfl

theorem blocksText_append (blocks blocks' : List ContentBlockAccum) :
    blocksText (blocks ++ blocks') = blocksText blocks ++ blocksText blocks' := by
  rw [blocksText, List.filterMap_append, String.join_append]
  rfl

theorem lastIsText_concat (blocks : List ContentBlockAccum) (block : ContentBlockAccum) :
    lastIsText (blocks ++ [block]) = block.text?.isSome := by
  rw [lastIsText, List.getLast?_concat]
  rfl

theorem modifyLast_concat (f : ContentBlockAccum → ContentBlockAccum)
    (blocks : List ContentBlockAccum) (block : ContentBlockAccum) :
    modifyLast f (blocks ++ [block]) = blocks ++ [f block] := by
  rw [modifyLast, List.getLast?_concat, List.dropLast_concat]

theorem lastIsText_modifyLast {f : ContentBlockAccum → ContentBlockAccum}
    (hf : ∀ block, (f block).text?.isSome = block.text?.isSome) (blocks : List ContentBlockAccum) :
    lastIsText (modifyLast f blocks) = lastIsText blocks := by
  obtain rfl | ⟨blocks, block, rfl⟩ := List.eq_nil_or_concat blocks
  · rfl
  · rw [List.concat_eq_append, modifyLast_concat, lastIsText_concat, lastIsText_concat, hf]

theorem blocksText_modifyLast {f : ContentBlockAccum → ContentBlockAccum}
    (hf : ∀ block, (f block).text? = block.text?) (blocks : List ContentBlockAccum) :
    blocksText (modifyLast f blocks) = blocksText blocks := by
  obtain rfl | ⟨blocks, block, rfl⟩ := List.eq_nil_or_concat blocks
  · rfl
  · rw [List.concat_eq_append, modifyLast_concat, blocksText_append, blocksText_append]
    simp only [blocksText, List.filterMap_cons, hf]

theorem blocksText_pushText (text : String) (blocks : List ContentBlockAccum) :
    blocksText (modifyLast (ContentBlockAccum.pushText text) blocks) =
      blocksText blocks ++ if lastIsText blocks then text else "" := by
  obtain rfl | ⟨blocks, block, rfl⟩ := List.eq_nil_or_concat blocks
  · rfl
  · rw [List.concat_eq_append, modifyLast_concat, blocksText_append, blocksText_append,
      lastIsText_concat, String.append_assoc]
    cases block <;> simp [blocksText, ContentBlockAccum.pushText, ContentBlockAccum.text?]

/-! ### Events -/

/-- `st'` is `st` after the events, as far as text goes. -/
structure Follows (st : StreamState) (events : List SseEvent) (st' : StreamState) : Prop where
  inText : lastIsText st'.blocks = events.foldl SseEvent.inText (lastIsText st.blocks)
  text : blocksText st'.blocks =
    blocksText st.blocks ++ blockText (textDeltas (lastIsText st.blocks) events)
  sent : deltaText st'.events =
    deltaText st.events ++ allText (textDeltas (lastIsText st.blocks) events)

theorem textDeltas_append (inText : Bool) (events events' : List SseEvent) :
    textDeltas inText (events ++ events') =
      textDeltas inText events ++ textDeltas (events.foldl SseEvent.inText inText) events' := by
  induction events generalizing inText with
  | nil => rfl
  | cons event events ih =>
    rw [List.cons_append, textDeltas, textDeltas, ih, List.append_assoc]
    rfl

theorem Follows.refl (st : StreamState) : Follows st [] st := by
  constructor <;> simp [textDeltas, blockText, allText]

theorem Follows.trans {st st' st'' : StreamState} {events events' : List SseEvent}
    (h : Follows st events st') (h' : Follows st' events' st'') :
    Follows st (events ++ events') st'' where
  inText := by rw [h'.inText, h.inText, List.foldl_append]
  text := by
    rw [h'.text, h.text, h.inText, textDeltas_append, blockText_append, String.append_assoc]
  sent := by
    rw [h'.sent, h.sent, h.inText, textDeltas_append, allText_append, String.append_assoc]

/-- An event without text. -/
theorem Follows.of_quiet {st st' : StreamState} {event : SseEvent}
    (hdelta : event.textDelta? = none)
    (hlast : lastIsText st'.blocks = event.inText (lastIsText st.blocks))
    (htext : blocksText st'.blocks = blocksText st.blocks)
    (hsent : deltaText st'.events = deltaText st.events) : Follows st [event] st' := by
  have hnone : textDeltas (lastIsText st.blocks) [event] = [] := by
    rw [textDeltas, hdelta]
    rfl
  refine ⟨hlast, ?_, ?_⟩
  · rw [hnone, htext]
    exact (String.append_empty ..).symm
  · rw [hnone, hsent]
    exact (String.append_empty ..).symm

theorem textDelta?_of_type {event : SseEvent} (h : event.type ≠ "content_block_delta") :
    event.textDelta? = none := if_neg fun h' => h h'.1

theorem inText_of_type {event : SseEvent} (h : event.type ≠ "content_block_start") (inText : Bool) :
    event.inText inText = inText := if_neg h

theorem blockStart_follows (st : StreamState) {event : SseEvent}
    (h : event.type = "content_block_start") : Follows st [event] (st.blockStart event.json) := by
  have hdelta : event.textDelta? = none := textDelta?_of_type (by rw [h]; decide)
  have htext : ∀ block : ContentBlockAccum, block.text?.getD "" = "" →
      blocksText (st.blocks ++ [block]) = blocksText st.blocks := by
    intro block hblock
    rw [blocksText_append]
    cases block with
    | text t =>
      obtain rfl : t = "" := hblock
      exact String.append_empty ..
    | thinking t => exact String.append_empty ..
    | toolUse id name inputJson => exact String.append_empty ..
  have hin : ∀ inText, event.inText inText =
      match ((event.json.index "content_block").index "type").asStr.getD "" with
      | "text" => true
      | "tool_use" => false
      | "thinking" => false
      | _ => inText := fun inText => if_pos h
  rw [StreamState.blockStart]
  dsimp only
  split
  · next htype =>
    refine .of_quiet hdelta ?_ (htext _ rfl) rfl
    rw [hin, htype]
    exact lastIsText_concat _ _
  · next htype =>
    refine .of_quiet hdelta ?_ (htext _ rfl) ?_
    · rw [hin, htype]
      exact lastIsText_concat _ _
    · rw [deltaText_append]
      exact String.append_empty ..
  · next htype =>
    refine .of_quiet hdelta ?_ (htext _ rfl) rfl
    rw [hin, htype]
    exact lastIsText_concat _ _
  · next htext huse hthinking =>
    refine .of_quiet hdelta ?_ rfl rfl
    rw [hin]
    split
    · contradiction
    · contradiction
    · contradiction
    · rfl

theorem blockDelta_follows (st : StreamState) {event : SseEvent}
    (h : event.type = "content_block_delta") : Follows st [event] (st.blockDelta event.json) := by
  have hlast : ∀ st' : StreamState, lastIsText st'.blocks = lastIsText st.blocks →
      lastIsText st'.blocks = event.inText (lastIsText st.blocks) := by
    intro st' h'
    rw [h', inText_of_type (by rw [h]; decide)]
  rw [StreamState.blockDelta]
  split
  · next htype =>
    have hdelta : event.textDelta? = ((event.json.index "delta").index "text").asStr :=
      if_pos ⟨h, htype⟩
    cases htext : ((event.json.index "delta").index "text").asStr with
    | none =>
      exact .of_quiet (hdelta.trans htext) (hlast _ rfl) rfl rfl
    | some text =>
      have hdeltas : textDeltas (lastIsText st.blocks) [event] =
          [(lastIsText st.blocks, text)] := by
        rw [textDeltas, hdelta, htext]
        rfl
      refine ⟨hlast _ (lastIsText_modifyLast (fun block => by cases block <;> rfl) _), ?_, ?_⟩
      · rw [hdeltas, blockText_singleton]
        exact blocksText_pushText _ _
      · rw [hdeltas, allText_singleton, ← deltaText_textDelta text, ← deltaText_append,
          deltaText_textDelta]
  · next htype =>
    have hdelta : event.textDelta? = none := if_neg fun h' => by
      rw [htype] at h'
      exact absurd h'.2 (by decide)
    split
    · refine .of_quiet hdelta
        (hlast _ (lastIsText_modifyLast (fun block => by cases block <;> rfl) _))
        (blocksText_modifyLast (fun block => by cases block <;> rfl) _) ?_
      rw [deltaText_append]
      exact String.append_empty ..
    · exact .of_quiet hdelta (hlast _ rfl) rfl rfl
  · next htype =>
    have hdelta : event.textDelta? = none := if_neg fun h' => by
      rw [htype] at h'
      exact absurd h'.2 (by decide)
    split
    · refine .of_quiet hdelta
        (hlast _ (lastIsText_modifyLast (fun block => by cases block <;> rfl) _))
        (blocksText_modifyLast (fun block => by cases block <;> rfl) _) ?_
      rw [deltaText_append]
      exact String.append_empty ..
    · exact .of_quiet hdelta (hlast _ rfl) rfl rfl
  · next htype _ _ => exact .of_quiet (if_neg fun h' => htype h'.2) (hlast _ rfl) rfl rfl

theorem step_follows {serde : Serde} {st st' : StreamState} {event : SseEvent}
    (h : st.step serde event = .ok st') : Follows st [event] st' ∧ event.type ≠ "error" := by
  have hquiet : ∀ st' : StreamState, event.type ≠ "content_block_delta" →
      event.type ≠ "content_block_start" → st'.blocks = st.blocks →
      deltaText st'.events = deltaText st.events → Follows st [event] st' := by
    intro st' hdelta hstart hblocks hsent
    exact .of_quiet (textDelta?_of_type hdelta) (by rw [inText_of_type hstart, hblocks])
      (by rw [hblocks]) hsent
  unfold StreamState.step at h
  split at h
  all_goals first | obtain rfl := Except.ok.inj h | cases h
  · next htype => exact ⟨hquiet _ (by rw [htype]; decide) (by rw [htype]; decide) rfl rfl, by
      rw [htype]; decide⟩
  · next htype => exact ⟨blockStart_follows st htype, by rw [htype]; decide⟩
  · next htype => exact ⟨blockDelta_follows st htype, by rw [htype]; decide⟩
  · next htype =>
    refine ⟨hquiet _ (by rw [htype]; decide) (by rw [htype]; decide) ?_ ?_, by rw [htype]; decide⟩
    · unfold StreamState.blockStop
      split <;> rfl
    · unfold StreamState.blockStop
      split
      · rw [deltaText_append]
        exact String.append_empty ..
      · rfl
  · next htype => exact ⟨hquiet _ (by rw [htype]; decide) (by rw [htype]; decide) rfl rfl, by
      rw [htype]; decide⟩
  · next _ hstart hdelta _ _ herror => exact ⟨hquiet _ hdelta hstart rfl rfl, herror⟩

theorem step_error {serde : Serde} {st : StreamState} {event : SseEvent} {e : LlmError}
    (h : st.step serde event = .error e) : event.type = "error" := by
  unfold StreamState.step at h
  split at h <;> first | assumption | cases h

/-- The events before an error. -/
def untilError (events : List SseEvent) : List SseEvent :=
  events.takeWhile fun event => event.type ≠ "error"

theorem steps_follows (serde : Serde) (st : StreamState) (events : List SseEvent) :
    Follows st (untilError events) (steps (StreamState.step serde) st events).1 := by
  induction events generalizing st with
  | nil => exact .refl st
  | cons event events ih =>
    rw [steps_cons]
    cases hstep : st.step serde event with
    | error e =>
      have huntil : untilError (event :: events) = [] := by
        rw [untilError, List.takeWhile_cons_of_neg]
        simp [step_error hstep]
      rw [huntil]
      exact .refl st
    | ok st' =>
      obtain ⟨hfollows, htype⟩ := step_follows hstep
      have huntil : untilError (event :: events) = event :: untilError events := by
        rw [untilError, List.takeWhile_cons_of_pos]
        · rfl
        · simp [htype]
      rw [huntil]
      exact hfollows.trans (ih st')

/-! ### Attempts that succeed -/

theorem readStream_done {serde : Serde} {n : ℕ} {body : Body} {response : CompletionResponse}
    (h : (readStream serde n body).1 = .done response) :
    response = (StreamState.read serde body).1.response serde := by
  unfold readStream at h
  dsimp only at h
  split at h
  · cases h
  · split_ifs at h
    exact (Outcome.done.inj h).symm

/-- What a stream sends is what has been read of it, and its end if it succeeds. -/
theorem readStream_sends (serde : Serde) (n : ℕ) (body : Body) :
    ∃ closing, deltaText closing = "" ∧
      (readStream serde n body).2 = (StreamState.read serde body).1.events ++ closing := by
  unfold readStream
  dsimp only
  split
  · exact ⟨[], rfl, (List.append_nil _).symm⟩
  · split_ifs
    · exact ⟨[], rfl, (List.append_nil _).symm⟩
    · exact ⟨[], rfl, (List.append_nil _).symm⟩
    · exact ⟨_, rfl, rfl⟩

theorem notSuccess_ne_done (serde : Serde) (status : ℕ) (body : Body) (n : ℕ)
    (response : CompletionResponse) : notSuccess serde status body n ≠ .done response := by
  unfold notSuccess
  split_ifs <;> simp

end Anthropic
end RustyHand
