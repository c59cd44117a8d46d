import RustyHand.Drivers.Anthropic
import RustyHand.Drivers.OpenAI
import RustyHand.Lib.Utf8

/-!
# The bytes of a stream

`decode_sse_bytes` of `rusty-hand-runtime/src/drivers/openai.rs` and `anthropic.rs` (one copy in
each) turns the bytes of a stream into text as they arrive; bytes of a character that is not yet
complete wait for the next chunk.  The streams themselves then go by lines, or by texts that end
with a blank line.

* `fromUtf8`: `std::str::from_utf8`;
* `decodeSseBytes`: the bytes of a chunk; `decodeLoop_eq`: what the loop comes to;
* `readBytes`: a stream as the drivers read it; `readBytes_eq`: the parts that it processes;
* `readBytes_eq_read`: the stream of its texts;
* `stream_chunk_independent`: the chunks do not matter.
-/

namespace RustyHand
namespace Drivers

open LlmDriver
open Scanning
open Utf8 (front replacement)

/-! ### `decode_sse_bytes` -/

/-- `Utf8Error`. -/
structure Utf8Error where
  validUpTo : ℕ
  errorLen : Option ℕ

/-- `std::str::from_utf8`. -/
def fromUtf8 : List UInt8 → Except Utf8Error (List Char)
  | [] => .ok []
  | a :: bytes =>
    match _h : front a bytes with
    | .char c rest =>
      match fromUtf8 rest with
      | .ok cs => .ok (c :: cs)
      | .error e =>
        .error { e with validUpTo := (bytes.length + 1 - rest.length) + e.validUpTo }
    | .invalid rest => .error ⟨0, some (bytes.length + 1 - rest.length)⟩
    | .incomplete => .error ⟨0, none⟩
termination_by bytes => bytes.length
decreasing_by
  exact Nat.lt_succ_of_le
    (Utf8.decoded_suffix (by rw [_h]; rfl : (front a bytes).decoded = some (c, rest))).length_le

theorem fromUtf8_of_char {a : UInt8} {bytes rest : List UInt8} {c : Char}
    (h : front a bytes = .char c rest) :
    fromUtf8 (a :: bytes) =
      match fromUtf8 rest with
      | .ok cs => .ok (c :: cs)
      | .error e =>
        .error { e with validUpTo := (bytes.length + 1 - rest.length) + e.validUpTo } := by
  rw [fromUtf8]
  split
  · rename_i heq
    rw [h] at heq
    obtain ⟨rfl, rfl⟩ := Utf8.Front.char.inj heq
    rfl
  · rename_i heq
    rw [h] at heq
    exact nomatch heq
  · rename_i heq
    rw [h] at heq
    exact nomatch heq

theorem fromUtf8_of_invalid {a : UInt8} {bytes rest : List UInt8}
    (h : front a bytes = .invalid rest) :
    fromUtf8 (a :: bytes) = .error ⟨0, some (bytes.length + 1 - rest.length)⟩ := by
  rw [fromUtf8]
  split <;> simp_all

theorem fromUtf8_of_incomplete {a : UInt8} {bytes : List UInt8}
    (h : front a bytes = .incomplete) : fromUtf8 (a :: bytes) = .error ⟨0, none⟩ := by
  rw [fromUtf8]
  split <;> simp_all

/-- An error of `from_utf8`: the text before it, and what is decoded behind it. -/
structure Utf8Error.Explains (e : Utf8Error) (bytes : List UInt8) : Prop where
  invalid : ∀ bad, e.errorLen = some bad → ∃ s, 0 < bad ∧ e.validUpTo + bad ≤ bytes.length ∧
    fromUtf8 (bytes.take e.validUpTo) = .ok s ∧
      Utf8.decode bytes =
        (s ++ replacement :: (Utf8.decode (bytes.drop (e.validUpTo + bad))).1,
          (Utf8.decode (bytes.drop (e.validUpTo + bad))).2)
  incomplete : e.errorLen = none → ∃ s, fromUtf8 (bytes.take e.validUpTo) = .ok s ∧
    Utf8.decode bytes = (s, bytes.drop e.validUpTo)

/-- A sequence that is no character in front is explained by an error there. -/
theorem explains_of_invalid {a : UInt8} {used rest : List UInt8}
    (h : front a (used ++ rest) = .invalid rest) :
    Utf8Error.Explains ⟨0, some (used.length + 1)⟩ (a :: (used ++ rest)) where
  invalid bad hsome := by
    obtain rfl := Option.some.inj hsome
    refine ⟨[], Nat.succ_pos _, ?_, by simp [fromUtf8], ?_⟩
    · simp
    · dsimp only
      rw [Nat.zero_add, List.drop_succ_cons, List.drop_left]
      exact Utf8.decode_of_some (by rw [h]; rfl)
  incomplete hnone := by simp at hnone

/-- With a character in front, an error explains the same a little later. -/
theorem Utf8Error.Explains.char {e : Utf8Error} {a : UInt8} {used rest : List UInt8} {c : Char}
    (h : e.Explains rest) (hused : ∀ other, front a (used ++ other) = .char c other) :
    Utf8Error.Explains { e with validUpTo := used.length + 1 + e.validUpTo }
      (a :: (used ++ rest)) := by
  have hdecode : Utf8.decode (a :: (used ++ rest)) =
      (c :: (Utf8.decode rest).1, (Utf8.decode rest).2) :=
    Utf8.decode_of_some (by rw [hused]; rfl)
  have htake : ∀ s, fromUtf8 (rest.take e.validUpTo) = .ok s →
      fromUtf8 ((a :: (used ++ rest)).take (used.length + 1 + e.validUpTo)) = .ok (c :: s) := by
    intro s hs
    rw [Nat.add_right_comm, List.take_succ_cons, List.take_length_add_append,
      fromUtf8_of_char (hused _), hs]
  have hdrop : ∀ n, (a :: (used ++ rest)).drop (used.length + 1 + n) = rest.drop n := by
    intro n
    rw [Nat.add_right_comm, List.drop_succ_cons, List.drop_length_add_append]
  constructor
  · intro bad hsome
    obtain ⟨s, hpos, hle, hok, hs⟩ := h.invalid bad hsome
    refine ⟨c :: s, hpos, ?_, htake s hok, ?_⟩
    · simp only [List.length_cons, List.length_append]
      omega
    · dsimp only
      rw [Nat.add_assoc, hdrop, hdecode, hs]
      rfl
  · intro hnone
    obtain ⟨s, hok, hs⟩ := h.incomplete hnone
    refine ⟨c :: s, htake s hok, ?_⟩
    dsimp only
    rw [hdrop, hdecode, hs]

theorem fromUtf8_explains (bytes : List UInt8) :
    match fromUtf8 bytes with
    | .ok s => Utf8.decode bytes = (s, [])
    | .error e => e.Explains bytes := by
  have hlen : ∀ used rest : List UInt8,
      (used ++ rest).length + 1 - rest.length = used.length + 1 := by
    intro used rest
    rw [List.length_append]
    omega
  induction bytes using Utf8.decode_induction with
  | nil => simp [fromUtf8, Utf8.decode]
  | none a bytes h =>
    cases hfront : front a bytes with
    | char _ _ | invalid _ =>
      rw [hfront, Utf8.Front.decoded] at h
      cases h
    | incomplete =>
      rw [fromUtf8_of_incomplete hfront]
      refine ⟨fun bad hbad => (by cases hbad), fun _ => ⟨[], by simp [fromUtf8], ?_⟩⟩
      rw [Utf8.decode_of_none h]
      rfl
  | some a bytes c rest h ih =>
    cases hfront : front a bytes with
    | incomplete =>
      rw [hfront, Utf8.Front.decoded] at h
      cases h
    | invalid rest' =>
      rw [hfront] at h
      obtain ⟨rfl, rfl⟩ := Prod.mk.inj (Option.some.inj h.symm)
      obtain ⟨used, rfl, -⟩ := Utf8.front_invalid_used hfront
      rw [fromUtf8_of_invalid hfront, hlen]
      exact explains_of_invalid hfront
    | char c' rest' =>
      rw [hfront] at h
      obtain ⟨rfl, rfl⟩ := Prod.mk.inj (Option.some.inj h.symm)
      obtain ⟨used, rfl, hused⟩ := Utf8.front_char_used hfront
      rw [fromUtf8_of_char hfront, hlen]
      cases hrest : fromUtf8 rest with
      | ok s =>
        rw [hrest] at ih
        dsimp only at ih ⊢
        rw [Utf8.decode_of_some (by rw [hfront]; rfl), ih]
      | error e =>
        rw [hrest] at ih
        exact Utf8Error.Explains.char ih hused

/-- The loop of `decode_sse_bytes`. -/
def decodeLoop (pending : List UInt8) (buffer : List Char) : List UInt8 × List Char :=
  match _h : fromUtf8 pending with
  | .ok s => ([], buffer ++ s)
  | .error e =>
    let valid := e.validUpTo
    let buffer :=
      if 0 < valid then
        match fromUtf8 (pending.take valid) with
        | .ok s => buffer ++ s
        | .error _ => buffer
      else buffer
    match _hbad : e.errorLen with
    | some bad => decodeLoop (pending.drop (valid + bad)) (buffer ++ [replacement])
    | none => (pending.drop valid, buffer)
termination_by pending.length
decreasing_by
  have he := fromUtf8_explains pending
  rw [_h] at he
  obtain ⟨-, hpos, hle, -⟩ := he.invalid bad _hbad
  rw [List.length_drop]
  omega

/-- `decode_sse_bytes`. -/
def decodeSseBytes (pending chunk : List UInt8) (buffer : List Char) : List UInt8 × List Char :=
  decodeLoop (pending ++ chunk) buffer

/-- What is pushed in front of an error is the text before it. -/
theorem push_valid {pending : List UInt8} {valid : ℕ} {s : List Char}
    (h : fromUtf8 (pending.take valid) = .ok s) (buffer : List Char) :
    (if 0 < valid then
      match fromUtf8 (pending.take valid) with
      | .ok s => buffer ++ s
      | .error _ => buffer
    else buffer) = buffer ++ s := by
  by_cases hvalid : 0 < valid
  · rw [if_pos hvalid, h]
  · rw [if_neg hvalid]
    obtain rfl : valid = 0 := by omega
    obtain rfl : [] = s := by simpa [fromUtf8] using h
    rw [List.append_nil]

theorem decodeLoop_eq (pending : List UInt8) (buffer : List Char) :
    decodeLoop pending buffer = ((Utf8.decode pending).2, buffer ++ (Utf8.decode pending).1) := by
  induction hn : pending.length using Nat.strongRecOn generalizing pending buffer with
  | ind n ih =>
    have he := fromUtf8_explains pending
    rw [decodeLoop]
    split
    · rename_i s hs
      rw [hs] at he
      dsimp only at he
      rw [he]
    · rename_i e herror
      rw [herror] at he
      split
      · rename_i bad hbad
        obtain ⟨s, hpos, hle, hok, hdecode⟩ := he.invalid bad hbad
        have hlt : (pending.drop (e.validUpTo + bad)).length < n := by
          rw [List.length_drop]
          omega
        rw [ih _ hlt _ _ rfl, push_valid hok, hdecode]
        simp
      · rename_i hnone
        obtain ⟨s, hok, hdecode⟩ := he.incomplete hnone
        dsimp only
        rw [push_valid hok, hdecode]

theorem decodeSseBytes_eq (pending chunk : List UInt8) (buffer : List Char) :
    decodeSseBytes pending chunk buffer =
      ((Utf8.decode (pending ++ chunk)).2, buffer ++ (Utf8.decode (pending ++ chunk)).1) :=
  decodeLoop_eq _ _

/-- The text that the calls of `decode_sse_bytes` for a stream put into its buffer, the last call,
without bytes, included. -/
def decodedText (chunks : List (List UInt8)) : List Char :=
  let r := chunks.foldl (fun r chunk => decodeSseBytes r.1 chunk r.2) ([], [])
  (decodeSseBytes r.1 [] r.2).2

theorem foldl_decodeSseBytes (chunks : List (List UInt8)) (pending : List UInt8)
    (buffer : List Char) :
    chunks.foldl (fun r chunk => decodeSseBytes r.1 chunk r.2) (pending, buffer) =
      ((feed Utf8.decode pending chunks).2, buffer ++ (feed Utf8.decode pending chunks).1) := by
  induction chunks generalizing pending buffer with
  | nil => simp [feed]
  | cons chunk chunks ih =>
    rw [List.foldl_cons, decodeSseBytes_eq, ih, feed]
    simp

theorem decode_incremental : Incremental Utf8.decode := Utf8.decode_append

theorem decodedText_eq (chunks : List (List UInt8)) :
    decodedText chunks = (Utf8.decode chunks.flatten).1 := by
  rw [decodedText, foldl_decodeSseBytes, decodeSseBytes_eq, List.append_nil,
    feed_eq decode_incremental (by rw [Utf8.decode]), List.nil_append, scan_left decode_incremental]
  simp

/-! ### Lines and events -/

theorem takeLines_cons (c : Char) (cs : List Char) :
    takeLines (c :: cs) =
      if c = '\n' then ([] :: (takeLines cs).1, (takeLines cs).2)
      else
        match (takeLines cs).1 with
        | [] => ([], c :: (takeLines cs).2)
        | line :: lines => ((c :: line) :: lines, (takeLines cs).2) := rfl

/-- A text without a complete line is left. -/
theorem takeLines_none {cs : List Char} (h : (takeLines cs).1 = []) : (takeLines cs).2 = cs := by
  induction cs with
  | nil => rfl
  | cons c cs ih =>
    rw [takeLines_cons] at h ⊢
    split_ifs at h ⊢ with hc
    cases hlines : (takeLines cs).1 with
    | nil =>
      dsimp only
      rw [ih hlines]
    | cons line lines =>
      rw [hlines] at h
      exact nomatch h

theorem takeLines_incremental : Incremental takeLines := by
  intro xs ys
  induction xs with
  | nil => rfl
  | cons c xs ih =>
    rw [List.cons_append, takeLines_cons, takeLines_cons c xs, ih]
    split_ifs with hc
    · rfl
    · cases hlines : (takeLines xs).1 with
      | nil =>
        dsimp only
        rw [takeLines_none hlines, List.nil_append, List.nil_append, List.cons_append,
          takeLines_cons, if_neg hc]
      | cons line lines => rfl

theorem takeParagraphs_cons {c : Char} {cs : List Char} (h : ∀ rest, c = '\n' → cs ≠ '\n' :: rest) :
    takeParagraphs (c :: cs) =
      match (takeParagraphs cs).1 with
      | [] => ([], c :: (takeParagraphs cs).2)
      | text :: texts => ((c :: text) :: texts, (takeParagraphs cs).2) :=
  takeParagraphs.eq_3 c cs h

/-- A text without a blank line is left. -/
theorem takeParagraphs_none {cs : List Char} (h : (takeParagraphs cs).1 = []) :
    (takeParagraphs cs).2 = cs := by
  induction cs using takeParagraphs.induct with
  | case1 => rfl
  | case2 cs _ => exact nomatch h
  | case3 c cs hc r hnone ih =>
    rw [takeParagraphs_cons hc, hnone]
    dsimp only
    rw [ih hnone]
  | case4 c cs hc r text texts hsome _ =>
    rw [takeParagraphs_cons hc, hsome] at h
    exact nomatch h

theorem takeParagraphs_incremental : Incremental takeParagraphs := by
  intro xs ys
  induction xs using takeParagraphs.induct with
  | case1 => rfl
  | case2 xs ih =>
    rw [List.cons_append, List.cons_append, takeParagraphs, takeParagraphs, ih]
    rfl
  | case3 c xs hc r hnone _ =>
    -- all of it is left, and a line break at its end may still become one of two
    have hleft : (takeParagraphs (c :: xs)).1 = [] := by
      rw [takeParagraphs_cons hc, hnone]
    rw [takeParagraphs_none hleft, hleft, List.nil_append]
  | case4 c xs hc r text texts hsome ih =>
    have hc' : ∀ rest, c = '\n' → xs ++ ys ≠ '\n' :: rest := by
      intro rest hnewline hxs
      cases xs with
      | nil => exact nomatch hsome
      | cons d xs => exact hc xs hnewline (by rw [(List.cons.inj hxs).1])
    rw [List.cons_append, takeParagraphs_cons hc', takeParagraphs_cons hc, ih, hsome]
    rfl

/-! ### Streams -/

/-- A body: the bytes of its chunks, up to an error of the connection. -/
abbrev ByteBody : Type := List (Except String (List UInt8))

/-- A body of some chunks, and what the connection fails with behind them, if it does. -/
def received (chunks : List (List UInt8)) (failure : Option String) : ByteBody :=
  chunks.map .ok ++ (failure.map .error).toList

/-- What has been read of a stream: the parts that have been processed, the state, and an error. -/
structure Processed (S : Type) where
  parts : List (List Char)
  state : S
  error : Option LlmError

section Stream

variable {S E : Type}

/-- Some parts more in front. -/
def Processed.after (parts : List (List Char)) (p : Processed S) : Processed S :=
  { p with parts := parts ++ p.parts }

/-- What comes next, if there is no error. -/
def Processed.andThen (p : Processed S) (next : S → Processed S) : Processed S :=
  match p.error with
  | some _ => p
  | none => (next p.state).after p.parts

/-- The connection may fail behind the parts. -/
def Processed.failing (failure : Option String) (p : Processed S) : Processed S :=
  { p with error := p.error.or (failure.map .http) }

/-- Some complete parts, up to an error. -/
def process (decode : List Char → Option E) (step : S → E → Except LlmError S) (st : S) :
    List (List Char) → Processed S
  | [] => ⟨[], st, none⟩
  | part :: parts =>
    match decode part with
    | none => (process decode step st parts).after [part]
    | some event =>
      match step st event with
      | .error e => ⟨[part], st, some e⟩
      | .ok st => (process decode step st parts).after [part]

/-- The body of a stream, up to an error: its bytes are decoded, and `split` takes the complete
parts of what has arrived. -/
def readBytes (split : List Char → List (List Char) × List Char) (decode : List Char → Option E)
    (step : S → E → Except LlmError S) (st : S) (pending : List UInt8) (buffer : List Char) :
    ByteBody → Processed S
  | [] => ⟨[], st, none⟩
  | .error e :: _ => ⟨[], st, some (.http e)⟩
  | .ok chunk :: body =>
    let d := decodeSseBytes pending chunk buffer
    let r := split d.2
    (process decode step st r.1).andThen fun st => readBytes split decode step st d.1 r.2 body

variable (decode : List Char → Option E) (step : S → E → Except LlmError S)

theorem after_andThen (parts : List (List Char)) (p : Processed S) (next : S → Processed S) :
    (p.after parts).andThen next = (p.andThen next).after parts := by
  obtain ⟨parts', st, error⟩ := p
  cases error with
  | some e => rfl
  | none =>
    unfold Processed.andThen Processed.after
    dsimp only
    rw [List.append_assoc]

theorem andThen_failing (failure : Option String) (p : Processed S) (next : S → Processed S) :
    (p.andThen next).failing failure = p.andThen fun st => (next st).failing failure := by
  obtain ⟨parts, st, error⟩ := p
  cases error <;> rfl

theorem process_append (st : S) (parts parts' : List (List Char)) :
    process decode step st (parts ++ parts') =
      (process decode step st parts).andThen fun st => process decode step st parts' := by
  induction parts generalizing st with
  | nil => rfl
  | cons part parts ih =>
    rw [List.cons_append, process, process]
    cases decode part with
    | none =>
      dsimp only
      rw [ih, after_andThen]
    | some event =>
      dsimp only
      cases step st event with
      | error e => rfl
      | ok st' =>
        dsimp only
        rw [ih, after_andThen]

/-- The parts are processed as the events that they are read as. -/
theorem process_steps (st : S) (parts : List (List Char)) :
    ((process decode step st parts).state, (process decode step st parts).error) =
      steps step st (parts.filterMap decode) := by
  induction parts generalizing st with
  | nil => rfl
  | cons part parts ih =>
    rw [process]
    cases hpart : decode part with
    | none =>
      rw [List.filterMap_cons_none hpart]
      exact ih st
    | some event =>
      rw [List.filterMap_cons_some hpart, steps_cons]
      dsimp only
      cases step st event with
      | error e => rfl
      | ok st' => exact ih st'

/-- The parts of a stream are those of the text that all its bytes come to. -/
theorem readBytes_eq {split : List Char → List (List Char) × List Char} (hsplit : Incremental split)
    (st : S) {pending : List UInt8} {buffer : List Char}
    (hpending : Utf8.decode pending = ([], pending)) (hbuffer : split buffer = ([], buffer))
    (chunks : List (List UInt8)) (failure : Option String) :
    readBytes split decode step st pending buffer (received chunks failure) =
      (process decode step st
        (split (buffer ++ (Utf8.decode (pending ++ chunks.flatten)).1)).1).failing failure := by
  induction chunks generalizing st pending buffer with
  | nil =>
    rw [List.flatten_nil, List.append_nil, hpending, List.append_nil, hbuffer]
    cases failure <;> rfl
  | cons chunk chunks ih =>
    have hreceived : received (chunk :: chunks) failure =
        .ok chunk :: received chunks failure := rfl
    rw [hreceived, readBytes, decodeSseBytes_eq, List.flatten_cons, ← List.append_assoc,
      decode_incremental (pending ++ chunk)]
    dsimp only
    rw [← List.append_assoc buffer, hsplit (buffer ++ _), process_append, andThen_failing]
    congr 1
    funext st'
    exact ih st' (scan_left decode_incremental _) (scan_left hsplit _)

/-- The texts that the chunks of a body are decoded to. -/
def texts (pending : List UInt8) : ByteBody → Body
  | [] => []
  | .error e :: _ => [.error e]
  | .ok chunk :: body =>
    let d := decodeSseBytes pending chunk []
    .ok (String.ofList d.2) :: texts d.1 body

/-- A body is read as its texts are. -/
theorem readBytes_eq_read (split : List Char → List (List Char) × List Char) (st : S)
    (pending : List UInt8) (buffer : List Char) (body : ByteBody) :
    ((readBytes split decode step st pending buffer body).state,
        (readBytes split decode step st pending buffer body).error) =
      read split decode step st buffer (texts pending body) := by
  induction body generalizing st pending buffer with
  | nil => rfl
  | cons piece body ih =>
    cases piece with
    | error e => rfl
    | ok chunk =>
      rw [readBytes, texts, decodeSseBytes_eq, decodeSseBytes_eq, read, String.toList_ofList]
      dsimp only
      rw [List.nil_append, ← process_steps, Processed.andThen]
      cases h : (process decode step st
        (split (buffer ++ (Utf8.decode (pending ++ chunk)).1)).1).error with
      | some e => rw [h]
      | none => exact ih _ _ _

end Stream

end Drivers

open Drivers Scanning

/-- The stream of `OpenAIDriver`, by its bytes. -/
def OpenAI.readByteStream (serde : OpenAI.Serde) (body : ByteBody) : Processed OpenAI.StreamState :=
  readBytes takeLines (OpenAI.readLine serde.parse) OpenAI.StreamState.step {} [] [] body

/-- The stream of `AnthropicDriver`, by its bytes. -/
def Anthropic.readByteStream (serde : Anthropic.Serde) (body : ByteBody) :
    Processed Anthropic.StreamState :=
  readBytes takeParagraphs (Anthropic.readEvent serde.parse) (Anthropic.StreamState.step serde) {}
    [] [] body

theorem OpenAI.readByteStream_eq_read (serde : OpenAI.Serde) (body : ByteBody) :
    ((OpenAI.readByteStream serde body).state, (OpenAI.readByteStream serde body).error) =
      OpenAI.StreamState.read serde (texts [] body) :=
  readBytes_eq_read _ _ _ _ _ _ _

theorem Anthropic.readByteStream_eq_read (serde : Anthropic.Serde) (body : ByteBody) :
    ((Anthropic.readByteStream serde body).state, (Anthropic.readByteStream serde body).error) =
      Anthropic.StreamState.read serde (texts [] body) :=
  readBytes_eq_read _ _ _ _ _ _ _

/-- However the bytes of a stream are split, its parsers process the lines and events that they
process of one chunk, and the text is the lossy decoding of the bytes without a truncated character
at their end. -/
theorem stream_chunk_independent (serde : OpenAI.Serde) (serde' : Anthropic.Serde)
    (chunks : List (List UInt8)) (failure : Option String) :
    OpenAI.readByteStream serde (received chunks failure) =
        OpenAI.readByteStream serde (received [chunks.flatten] failure) ∧
      Anthropic.readByteStream serde' (received chunks failure) =
        Anthropic.readByteStream serde' (received [chunks.flatten] failure) ∧
      ∃ whole left, chunks.flatten = whole ++ left ∧ (left = [] ∨ Utf8.Truncated left) ∧
        decodedText chunks = Utf8.lossy whole := by
  have hpending : Utf8.decode [] = ([], []) := by rw [Utf8.decode]
  have hone : [chunks.flatten].flatten = chunks.flatten := List.flatten_singleton
  refine ⟨?_, ?_, ?_⟩
  · unfold OpenAI.readByteStream
    rw [readBytes_eq _ _ takeLines_incremental _ hpending rfl,
      readBytes_eq _ _ takeLines_incremental _ hpending rfl, hone]
  · unfold Anthropic.readByteStream
    rw [readBytes_eq _ _ takeParagraphs_incremental _ hpending rfl,
      readBytes_eq _ _ takeParagraphs_incremental _ hpending rfl, hone]
  · obtain ⟨whole, hwhole, hlossy⟩ := Utf8.exists_lossy chunks.flatten
    refine ⟨whole, _, hwhole, Utf8.truncated_left _, ?_⟩
    rw [decodedText_eq, hlossy]

end RustyHand
