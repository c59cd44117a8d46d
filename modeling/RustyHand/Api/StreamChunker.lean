import RustyHand.Types.Text

/-!
# The stream chunker

`rusty-hand-api/src/stream_chunker.rs`: text is buffered and leaves in chunks that end where
Markdown may be cut.  Offsets are in characters, where the source goes through byte indexes of
characters.

* `push`, `tryFlush`, `flushRemaining`: the chunker;
* `outputs`: what comes out of a run of calls;
* `Restores`: the text that outputs stand for;
* `openFence`: whether a text ends inside a code fence; `openFence_append_iff`: a text in two parts;
* `KeepsLines`, `KeepsFences`: the runs that cut no fence line, and those that cut no fence;
* `outputs_restore_and_close`: what holds of every run, and of the former ones.
-/

namespace RustyHand

open Text

namespace StreamChunker

/-! ### Rust's strings -/

/-- `text.split_inclusive('\n')`. -/
def splitInclusive : List Char → List (List Char)
  | [] => []
  | c :: cs =>
    if c = '\n' then [c] :: splitInclusive cs
    else
      match splitInclusive cs with
      | [] => [[c]]
      | line :: lines => (c :: line) :: lines

/-- `line.trim()`. -/
def trimmed (line : List Char) : List Char := (trim (String.ofList line)).toList

/-- `text.rfind(pattern)`. -/
def rfind (pattern : List Char) : List Char → Option ℕ
  | [] => if pattern = [] then some 0 else none
  | c :: cs =>
    match rfind pattern cs with
    | some pos => some (pos + 1)
    | none => if pattern <+: c :: cs then some 0 else none

/-! ### The chunker -/

/-- What opens and closes a code fence. -/
def fence : List Char := "```".toList

end StreamChunker

open StreamChunker

/-- `StreamChunker`. -/
structure StreamChunker where
  buffer : List Char
  inCodeFence : Bool
  fenceMarker : List Char
  minChunkChars : ℕ
  maxChunkChars : ℕ

namespace StreamChunker

/-- `StreamChunker::new`. -/
def new (minChunkChars maxChunkChars : ℕ) : StreamChunker :=
  { buffer := []
    inCodeFence := false
    fenceMarker := []
    minChunkChars := minChunkChars
    maxChunkChars := maxChunkChars }

/-- A line, or what a text has of one, as the loop of `push` takes it. -/
def pushLine (chunker : StreamChunker) (line : List Char) : StreamChunker :=
  let chunker := { chunker with buffer := chunker.buffer ++ line }
  if fence <+: trimmed line then
    if chunker.inCodeFence then
      if trimmed line = fence ∨ chunker.fenceMarker <+: trimmed line then
        { chunker with inCodeFence := false, fenceMarker := [] }
      else chunker
    else { chunker with inCodeFence := true, fenceMarker := fence }
  else chunker

/-- `push`. -/
def push (chunker : StreamChunker) (text : List Char) : StreamChunker :=
  (splitInclusive text).foldl pushLine chunker

/-- `byte_index_at_char`. -/
def indexAtChar (text : List Char) (charIdx : ℕ) : ℕ := min charIdx text.length

/-- `find_last_in_range`. -/
def findLastInRange (text pattern : List Char) (start stop : ℕ) : Option ℕ :=
  if stop ≤ start then none
  else (rfind pattern ((text.take (min stop text.length)).drop start)).map (start + ·)

/-- What a chunk may end with, the best first: a paragraph, a line, or a sentence. -/
def endings : List (List Char) :=
  ["\n\n".toList, "\n".toList, ". ".toList, "! ".toList, "? ".toList]

/-- `break_at` of `try_flush`: behind the last ending of the first kind that the search range has,
or else at the maximum. -/
def breakAt (chunker : StreamChunker) : Option ℕ :=
  let bufferedChars := chunker.buffer.length
  let start := indexAtChar chunker.buffer chunker.minChunkChars
  let stop := indexAtChar chunker.buffer (min chunker.maxChunkChars bufferedChars)
  match endings.findSome? fun ending =>
    (findLastInRange chunker.buffer ending start stop).map (· + ending.length) with
  | some breakAt => some breakAt
  | none =>
    if chunker.maxChunkChars ≤ bufferedChars then
      some (indexAtChar chunker.buffer chunker.maxChunkChars)
    else none

/-- What is put behind a chunk that ends inside a fence. -/
def closing : List Char := "\n```\n".toList

/-- What the buffer goes on with behind such a chunk. -/
def reopening (fenceMarker : List Char) : List Char :=
  fence ++ fenceMarker.dropWhile (· = '\x60') ++ ['\n']

/-- `try_flush`. -/
def tryFlush (chunker : StreamChunker) : Option (List Char) × StreamChunker :=
  let bufferedChars := chunker.buffer.length
  if bufferedChars < chunker.minChunkChars then (none, chunker)
  else if chunker.inCodeFence ∧ bufferedChars < chunker.maxChunkChars then (none, chunker)
  else if chunker.inCodeFence ∧ chunker.maxChunkChars ≤ bufferedChars then
    (some (chunker.buffer ++ closing), { chunker with buffer := reopening chunker.fenceMarker })
  else
    match chunker.breakAt with
    | some breakAt =>
      (some (chunker.buffer.take breakAt), { chunker with buffer := chunker.buffer.drop breakAt })
    | none => (none, chunker)

/-- `flush_remaining`. -/
def flushRemaining (chunker : StreamChunker) : Option (List Char) × StreamChunker :=
  if chunker.buffer = [] then (none, chunker)
  else (some chunker.buffer, { chunker with buffer := [] })

/-! ### Runs -/

/-- A call of a run. -/
inductive Call
  | push (text : List Char)
  | tryFlush

/-- An output, and whether a closing has been put behind it. -/
structure Output where
  text : List Char
  closed : Bool

/-- What comes out of some calls, and of `flush_remaining` behind them.  A chunk that is taken
inside a fence is closed. -/
def outputs (chunker : StreamChunker) : List Call → List Output
  | [] => (chunker.flushRemaining.1.map (⟨·, false⟩)).toList
  | .push text :: calls => outputs (chunker.push text) calls
  | .tryFlush :: calls =>
    (chunker.tryFlush.1.map (⟨·, chunker.inCodeFence⟩)).toList ++ outputs chunker.tryFlush.2 calls

/-- The text that is pushed. -/
def pushed : List Call → List Char
  | [] => []
  | .push text :: calls => text ++ pushed calls
  | .tryFlush :: calls => pushed calls

/-- What stands in front of an output because of the one before it. -/
def reopeningIf (reopened : Bool) : List Char := if reopened then fence ++ ['\n'] else []

/-- What stands behind an output. -/
def closingIf (closed : Bool) : List Char := if closed then closing else []

/-- Without what has been put in, the outputs in order are the text.  The flag tells whether the
output in front has been closed. -/
inductive Restores : Bool → List Output → List Char → Prop
  | nil : Restores false [] []
  | cons {reopened closed : Bool} {outputs : List Output} {rest : List Char} (piece : List Char) :
    Restores closed outputs rest →
      Restores reopened (⟨reopeningIf reopened ++ piece ++ closingIf closed, closed⟩ :: outputs)
        (piece ++ rest)

/-! ### What the calls do -/

variable {chunker : StreamChunker} {n : ℕ}

theorem flatten_splitInclusive (text : List Char) : (splitInclusive text).flatten = text := by
  induction text with
  | nil => rfl
  | cons c cs ih =>
    rw [splitInclusive]
    split_ifs with hc
    · rw [List.flatten_cons, ih]
      rfl
    · split
      · rename_i hnil
        rw [hnil] at ih
        rw [← ih]
        rfl
      · rename_i line lines hlines
        rw [hlines] at ih
        rw [← ih]
        rfl

theorem pushLine_buffer (chunker : StreamChunker) (line : List Char) :
    (chunker.pushLine line).buffer = chunker.buffer ++ line := by
  unfold pushLine
  dsimp only
  split_ifs <;> rfl

theorem pushLine_max (chunker : StreamChunker) (line : List Char) :
    (chunker.pushLine line).maxChunkChars = chunker.maxChunkChars := by
  unfold pushLine
  dsimp only
  split_ifs <;> rfl

/-- In a fence the marker is three backticks. -/
def Marked (chunker : StreamChunker) : Prop :=
  chunker.inCodeFence = true → chunker.fenceMarker = fence

/-- A line that opens a fence, or closes it. -/
def isFence (line : List Char) : Bool := decide (fence <+: trimmed line)

/-- Every fence line goes into a fence or out of it. -/
theorem pushLine_fence (h : chunker.Marked) (line : List Char) :
    (chunker.pushLine line).Marked ∧
      (chunker.pushLine line).inCodeFence = xor chunker.inCodeFence (isFence line) := by
  unfold pushLine
  by_cases hline : fence <+: trimmed line
  · have hfence : isFence line = true := decide_eq_true hline
    rw [hfence, if_pos hline]
    cases hin : chunker.inCodeFence with
    | false => exact ⟨fun _ => rfl, rfl⟩
    | true =>
      have hmarker : chunker.fenceMarker <+: trimmed line := h hin ▸ hline
      rw [if_pos rfl, if_pos (.inr hmarker)]
      exact ⟨fun hopen => (nomatch hopen), rfl⟩
  · have hfence : isFence line = false := decide_eq_false hline
    rw [hfence, if_neg hline, Bool.xor_false]
    exact ⟨h, rfl⟩

/-- Whether a text ends inside a fence. -/
def openFence (text : List Char) : Bool :=
  (splitInclusive text).foldr (fun line inside => xor (isFence line) inside) false

theorem foldl_pushLine (h : chunker.Marked) (lines : List (List Char)) :
    (lines.foldl pushLine chunker).Marked ∧
      (lines.foldl pushLine chunker).buffer = chunker.buffer ++ lines.flatten ∧
      (lines.foldl pushLine chunker).maxChunkChars = chunker.maxChunkChars ∧
      (lines.foldl pushLine chunker).inCodeFence =
        xor chunker.inCodeFence
          (lines.foldr (fun line inside => xor (isFence line) inside) false) := by
  induction lines generalizing chunker with
  | nil => simp [h]
  | cons line lines ih =>
    obtain ⟨hmarked, hfence⟩ := pushLine_fence h line
    obtain ⟨hmarked', hbuffer, hmax, hfence'⟩ := ih hmarked
    rw [List.foldl_cons, hbuffer, hmax, hfence', pushLine_buffer, pushLine_max, hfence]
    refine ⟨hmarked', ?_, rfl, ?_⟩
    · rw [List.flatten_cons, List.append_assoc]
    · rw [List.foldr_cons, Bool.xor_assoc]

theorem push_spec (h : chunker.Marked) (text : List Char) :
    (chunker.push text).Marked ∧ (chunker.push text).buffer = chunker.buffer ++ text ∧
      (chunker.push text).maxChunkChars = chunker.maxChunkChars ∧
      (chunker.push text).inCodeFence = xor chunker.inCodeFence (openFence text) := by
  have hpush := foldl_pushLine h (splitInclusive text)
  rw [flatten_splitInclusive] at hpush
  exact hpush

theorem rfind_prefix {pattern cs : List Char} {pos : ℕ} (h : rfind pattern cs = some pos) :
    pattern <+: cs.drop pos := by
  induction cs generalizing pos with
  | nil =>
    rw [rfind] at h
    split_ifs at h with hnil
    rw [hnil]
    exact List.nil_prefix
  | cons c cs ih =>
    rw [rfind] at h
    split at h
    · rename_i later hlater
      obtain rfl := Option.some.inj h
      exact ih hlater
    · split_ifs at h with hpre
      obtain rfl := Option.some.inj h
      exact hpre

theorem findLastInRange_prefix {text pattern : List Char} {start stop pos : ℕ}
    (h : findLastInRange text pattern start stop = some pos) : pattern <+: text.drop pos := by
  unfold findLastInRange at h
  split_ifs at h with hrange
  obtain ⟨i, hi, rfl⟩ := Option.map_eq_some_iff.1 h
  have hpre := rfind_prefix hi
  rw [List.drop_drop, List.drop_take] at hpre
  exact hpre.trans (List.take_prefix ..)

theorem breakAt_cases (h : chunker.breakAt = some n) :
    (∃ ending ∈ endings, ∃ pos, ending <+: chunker.buffer.drop pos ∧ n = pos + ending.length) ∨
      n = chunker.maxChunkChars := by
  unfold breakAt at h
  dsimp only at h
  split at h
  · rename_i m hfound
    obtain rfl := Option.some.inj h
    obtain ⟨ending, hmem, hending⟩ := List.exists_of_findSome?_eq_some hfound
    obtain ⟨pos, hpos, rfl⟩ := Option.map_eq_some_iff.1 hending
    exact .inl ⟨ending, hmem, pos, findLastInRange_prefix hpos, rfl⟩
  · split_ifs at h with hmax
    obtain rfl := Option.some.inj h
    exact .inr (min_eq_left hmax)

theorem endings_head : ∀ ending ∈ endings, ending ≠ [] ∧ ¬ ['\x60'] <+: ending := by decide

/-- A fence that has been reopened is not cut. -/
theorem le_breakAt (hmax : 5 ≤ chunker.maxChunkChars) {body : List Char}
    (hbuffer : chunker.buffer = fence ++ ['\n'] ++ body) (h : chunker.breakAt = some n) :
    4 ≤ n := by
  obtain ⟨ending, hmem, pos, hpos, rfl⟩ | rfl := breakAt_cases h
  · obtain ⟨hne, hhead⟩ := endings_head ending hmem
    have hlen := List.length_pos_of_ne_nil hne
    have hthree : 3 ≤ pos := by
      by_contra hlt
      have hbacktick : ['\x60'] <+: chunker.buffer.drop pos := by
        rw [hbuffer]
        obtain rfl | rfl | rfl : pos = 0 ∨ pos = 1 ∨ pos = 2 := by omega
        all_goals exact ⟨_, rfl⟩
      exact hhead (List.prefix_of_prefix_length_le hbacktick hpos hlen)
    omega
  · exact Nat.le_of_succ_le hmax

/-- Where `try_flush` cuts the buffer, if it does. -/
def cutAt (chunker : StreamChunker) : Option ℕ :=
  if chunker.inCodeFence ∨ chunker.buffer.length < chunker.minChunkChars then none
  else chunker.breakAt

theorem tryFlush_cases (chunker : StreamChunker) :
    (chunker.cutAt = none ∧ chunker.tryFlush = (none, chunker)) ∨
    (chunker.inCodeFence = true ∧ chunker.cutAt = none ∧
      chunker.tryFlush =
        (some (chunker.buffer ++ closing),
          { chunker with buffer := reopening chunker.fenceMarker })) ∨
    (chunker.inCodeFence = false ∧ ∃ n, chunker.breakAt = some n ∧ chunker.cutAt = some n ∧
      chunker.tryFlush =
        (some (chunker.buffer.take n), { chunker with buffer := chunker.buffer.drop n })) := by
  unfold tryFlush cutAt
  dsimp only
  by_cases hmin : chunker.buffer.length < chunker.minChunkChars
  · rw [if_pos hmin, if_pos (.inr hmin)]
    exact .inl ⟨rfl, rfl⟩
  rw [if_neg hmin]
  by_cases hin : chunker.inCodeFence = true
  · rw [if_pos (.inl hin)]
    by_cases hmax : chunker.buffer.length < chunker.maxChunkChars
    · rw [if_pos ⟨hin, hmax⟩]
      exact .inl ⟨rfl, rfl⟩
    · rw [if_neg fun h => hmax h.2, if_pos ⟨hin, Nat.le_of_not_lt hmax⟩]
      exact .inr (.inl ⟨hin, rfl, rfl⟩)
  · rw [if_neg (not_or.2 ⟨hin, hmin⟩), if_neg fun h => hin h.1, if_neg fun h => hin h.1]
    cases hbreak : chunker.breakAt with
    | none => exact .inl ⟨rfl, rfl⟩
    | some n => exact .inr (.inr ⟨Bool.eq_false_iff.2 hin, n, rfl, rfl, rfl⟩)

/-! ### The text of the outputs -/

theorem Restores.of_output {reopened closed : Bool} {outputs : List Output}
    {text rest all : List Char} (piece : List Char)
    (htext : text = reopeningIf reopened ++ piece ++ closingIf closed)
    (hrest : Restores closed outputs rest) (hall : all = piece ++ rest) :
    Restores reopened (⟨text, closed⟩ :: outputs) all := by
  subst htext hall
  exact .cons piece hrest

/-- The outputs of a run are what is buffered and what is pushed. -/
theorem outputs_restore (hmax : 5 ≤ chunker.maxChunkChars) (hmarked : chunker.Marked)
    {reopened : Bool} {body : List Char} (hbuffer : chunker.buffer = reopeningIf reopened ++ body)
    (calls : List Call) : Restores reopened (outputs chunker calls) (body ++ pushed calls) := by
  induction calls generalizing chunker reopened body with
  | nil =>
    rw [outputs, flushRemaining, pushed]
    by_cases hnil : chunker.buffer = []
    · obtain ⟨hopening, rfl⟩ := List.append_eq_nil_iff.1 (hbuffer ▸ hnil)
      rw [if_pos hnil]
      cases reopened with
      | true => exact nomatch hopening
      | false => exact .nil
    · rw [if_neg hnil]
      refine .of_output body ?_ .nil rfl
      rw [hbuffer]
      exact (List.append_nil _).symm
  | cons call calls ih =>
    cases call with
    | push text =>
      obtain ⟨hmarked', hbuffer', hmax', -⟩ := push_spec hmarked text
      rw [outputs, pushed, ← List.append_assoc]
      refine ih (hmax' ▸ hmax) hmarked' ?_
      rw [hbuffer', hbuffer, List.append_assoc]
    | tryFlush =>
      rw [outputs, pushed]
      obtain ⟨-, hnone⟩ | ⟨hin, -, hflush⟩ | ⟨hout, n, hbreak, -, hflush⟩ := tryFlush_cases chunker
      · rw [hnone]
        exact ih hmax hmarked hbuffer
      · have hreopen : reopening chunker.fenceMarker = reopeningIf chunker.inCodeFence ++ [] := by
          rw [hmarked hin, hin]
          decide
        rw [hflush]
        have hrest :=
          @ih { chunker with buffer := reopening chunker.fenceMarker } hmax hmarked _ _ hreopen
        refine .of_output body ?_ hrest rfl
        rw [hin, hbuffer]
        rfl
      · -- the cut is made behind what has been put in front
        have hle : (reopeningIf reopened).length ≤ n := by
          cases reopened with
          | false => exact Nat.zero_le n
          | true => exact le_breakAt hmax hbuffer hbreak
        obtain ⟨m, rfl⟩ := Nat.exists_eq_add_of_le hle
        have hdrop : chunker.buffer.drop ((reopeningIf reopened).length + m) =
            reopeningIf chunker.inCodeFence ++ body.drop m := by
          rw [hout, hbuffer, List.drop_length_add_append]
          rfl
        rw [hflush]
        refine .of_output (body.take m) ?_
          (@ih { chunker with buffer := chunker.buffer.drop _ } hmax hmarked _ _ hdrop) ?_
        · rw [hout, hbuffer, List.take_length_add_append]
          exact (List.append_nil _).symm
        · rw [← List.append_assoc, List.take_append_drop]

/-! ### Lines -/

section Lines

variable {line rest : List Char}

theorem splitInclusive_line (h : '\n' ∉ line) (rest : List Char) :
    splitInclusive (line ++ '\n' :: rest) = (line ++ ['\n']) :: splitInclusive rest := by
  induction line with
  | nil => rfl
  | cons c line ih =>
    rw [List.mem_cons, not_or] at h
    rw [List.cons_append, splitInclusive, if_neg (Ne.symm h.1), ih h.2]
    rfl

theorem splitInclusive_of_not_mem (h : '\n' ∉ line) (hne : line ≠ []) :
    splitInclusive line = [line] := by
  induction line with
  | nil => exact absurd rfl hne
  | cons c line ih =>
    rw [List.mem_cons, not_or] at h
    rw [splitInclusive, if_neg (Ne.symm h.1)]
    by_cases hnil : line = []
    · rw [hnil]
      rfl
    · rw [ih h.2 hnil]

theorem trimmed_eq (line : List Char) :
    trimmed line = (line.dropWhile isWhitespace).rdropWhile isWhitespace := by
  unfold trimmed trim
  rw [String.toList_ofList, String.toList_ofList]
  rfl

theorem isFence_newline (line : List Char) : isFence (line ++ ['\n']) = isFence line := by
  have htrim : trimmed (line ++ ['\n']) = trimmed line := by
    rw [trimmed_eq, trimmed_eq, List.dropWhile_append]
    by_cases hblank : line.dropWhile isWhitespace = []
    · rw [hblank]
      rfl
    · rw [if_neg (by simpa using hblank), List.rdropWhile_concat_pos _ _ _ (by decide)]
  rw [isFence, htrim, isFence]

theorem isFence_nil : isFence [] = false := by decide

theorem openFence_of_not_mem (h : '\n' ∉ line) : openFence line = isFence line := by
  by_cases hnil : line = []
  · have hopen : openFence [] = false := by simp [openFence, splitInclusive]
    rw [hnil, hopen, isFence_nil]
  · rw [openFence, splitInclusive_of_not_mem h hnil, List.foldr_cons, List.foldr_nil,
      Bool.xor_false]

theorem openFence_line (h : '\n' ∉ line) (rest : List Char) :
    openFence (line ++ '\n' :: rest) = xor (isFence line) (openFence rest) := by
  rw [openFence, splitInclusive_line h, List.foldr_cons, isFence_newline]
  rfl

theorem lines_induction {motive : List Char → Prop} (last : ∀ line, '\n' ∉ line → motive line)
    (cons : ∀ line rest, '\n' ∉ line → motive rest → motive (line ++ '\n' :: rest))
    (text : List Char) : motive text := by
  induction hn : text.length using Nat.strong_induction_on generalizing text with
  | _ n ih =>
    by_cases hmem : '\n' ∈ text
    · obtain ⟨line, rest, rfl, hline⟩ := List.eq_append_cons_of_mem hmem
      refine cons line rest hline (ih rest.length ?_ rest rfl)
      rw [← hn, List.length_append, List.length_cons]
      omega
    · exact last text hmem

/-- What a text has of the line that it ends in. -/
def lastLine (text : List Char) : List Char := text.rtakeWhile (· ≠ '\n')

/-- What a text has of the line that it begins in. -/
def firstLine (text : List Char) : List Char := text.takeWhile (· ≠ '\n')

theorem lastLine_of_not_mem (h : '\n' ∉ line) : lastLine line = line :=
  List.rtakeWhile_eq_self_iff.2 fun c hc => by simpa using fun heq : c = '\n' => h (heq ▸ hc)

theorem lastLine_line (line rest : List Char) :
    lastLine (line ++ '\n' :: rest) = lastLine rest := by
  unfold lastLine List.rtakeWhile
  rw [List.reverse_append, List.reverse_cons, List.append_assoc, List.takeWhile_append]
  split_ifs with hall
  · rw [List.singleton_append, List.takeWhile_cons_of_neg (by simp), List.append_nil,
      (List.takeWhile_prefix _).eq_of_length hall]
  · rfl

theorem firstLine_of_not_mem (h : '\n' ∉ line) : firstLine line = line :=
  List.takeWhile_eq_self_iff.2 fun c hc => by simpa using fun heq : c = '\n' => h (heq ▸ hc)

theorem firstLine_line (h : '\n' ∉ line) (rest : List Char) :
    firstLine (line ++ '\n' :: rest) = line := by
  rw [firstLine, List.takeWhile_append_of_pos fun c hc => by
    simpa using fun heq : c = '\n' => h (heq ▸ hc), List.takeWhile_cons_of_neg (by simp),
    List.append_nil]

/-- The line that two texts meet in is a fence line exactly if one of its two parts is. -/
def MeetWell (front back : List Char) : Prop :=
  isFence (lastLine front ++ firstLine back) =
    xor (isFence (lastLine front)) (isFence (firstLine back))

instance (front back : List Char) : Decidable (MeetWell front back) :=
  inferInstanceAs (Decidable (_ = _))

/-- The fences of two texts are those of the whole exactly if they meet well. -/
theorem openFence_append_iff (front back : List Char) :
    openFence (front ++ back) = xor (openFence front) (openFence back) ↔ MeetWell front back := by
  induction front using lines_induction with
  | last line hline =>
    rw [openFence_of_not_mem hline, MeetWell, lastLine_of_not_mem hline]
    by_cases hmem : '\n' ∈ back
    · obtain ⟨first, rest, rfl, hfirst⟩ := List.eq_append_cons_of_mem hmem
      have hmeet : '\n' ∉ line ++ first := by simp [hline, hfirst]
      rw [← List.append_assoc, openFence_line hmeet, openFence_line hfirst, firstLine_line hfirst,
        ← Bool.xor_assoc, Bool.xor_left_inj]
    · have hmeet : '\n' ∉ line ++ back := by simp [hline, hmem]
      rw [openFence_of_not_mem hmeet, openFence_of_not_mem hmem, firstLine_of_not_mem hmem]
  | cons line rest hline ih =>
    rw [List.append_assoc, List.cons_append, openFence_line hline, openFence_line hline,
      Bool.xor_assoc, Bool.xor_right_inj, ih, MeetWell, MeetWell, lastLine_line]

end Lines

/-! ### Fences -/

/-- A flush cuts no fence line. -/
def CutsBetween (chunker : StreamChunker) : Prop :=
  ∀ n ∈ chunker.cutAt, MeetWell (chunker.buffer.take n) (chunker.buffer.drop n)

/-- A flush leaves no end of a fence without its beginning. -/
def CutsOutside (chunker : StreamChunker) : Prop :=
  ∀ n ∈ chunker.cutAt, openFence (chunker.buffer.drop n) = false

instance (chunker : StreamChunker) : Decidable chunker.CutsBetween :=
  inferInstanceAs (Decidable (∀ n ∈ chunker.cutAt, _))

instance (chunker : StreamChunker) : Decidable chunker.CutsOutside :=
  inferInstanceAs (Decidable (∀ n ∈ chunker.cutAt, _))

/-- The runs in which neither the pushes nor the flushes cut a fence line. -/
def KeepsLines (chunker : StreamChunker) : List Call → Prop
  | [] => True
  | .push text :: calls => MeetWell chunker.buffer text ∧ KeepsLines (chunker.push text) calls
  | .tryFlush :: calls => chunker.CutsBetween ∧ KeepsLines chunker.tryFlush.2 calls

/-- The runs in which no flush cuts inside a fence, and that do not end in one. -/
def KeepsFences (chunker : StreamChunker) : List Call → Prop
  | [] => chunker.inCodeFence = false
  | .push text :: calls => KeepsFences (chunker.push text) calls
  | .tryFlush :: calls => chunker.CutsOutside ∧ KeepsFences chunker.tryFlush.2 calls

instance decidableKeepsLines (chunker : StreamChunker) :
    (calls : List Call) → Decidable (chunker.KeepsLines calls)
  | [] => inferInstanceAs (Decidable True)
  | .push text :: calls =>
    have := decidableKeepsLines (chunker.push text) calls
    inferInstanceAs (Decidable (_ ∧ _))
  | .tryFlush :: calls =>
    have := decidableKeepsLines chunker.tryFlush.2 calls
    inferInstanceAs (Decidable (_ ∧ _))

instance decidableKeepsFences (chunker : StreamChunker) :
    (calls : List Call) → Decidable (chunker.KeepsFences calls)
  | [] => inferInstanceAs (Decidable (_ = _))
  | .push text :: calls => decidableKeepsFences (chunker.push text) calls
  | .tryFlush :: calls =>
    have := decidableKeepsFences chunker.tryFlush.2 calls
    inferInstanceAs (Decidable (_ ∧ _))

/-- The chunker is in a fence where its buffer ends in one. -/
def Tracks (chunker : StreamChunker) : Prop :=
  chunker.Marked ∧ openFence chunker.buffer = chunker.inCodeFence

theorem openFence_nil : openFence [] = false := rfl

theorem openFence_append {front back : List Char} (h : MeetWell front back) :
    openFence (front ++ back) = xor (openFence front) (openFence back) :=
  (openFence_append_iff front back).2 h

theorem openFence_closing (text : List Char) :
    openFence (text ++ closing) = xor (openFence text) true := by
  have hmeet : MeetWell text closing := by
    have hfirst : firstLine closing = [] := by decide
    rw [MeetWell, hfirst, isFence_nil, List.append_nil, Bool.xor_false]
  have hclosing : openFence closing = true := by decide
  rw [openFence_append hmeet, hclosing]

theorem openFence_reopening : openFence (reopening fence) = true := by decide

theorem Tracks.push (h : chunker.Tracks) {text : List Char} (hmeet : MeetWell chunker.buffer text) :
    (chunker.push text).Tracks := by
  obtain ⟨hmarked, hbuffer, -, hfence⟩ := push_spec h.1 text
  refine ⟨hmarked, ?_⟩
  rw [hbuffer, hfence, openFence_append hmeet, h.2]

/-- A chunk that is taken inside a fence closes it, and the buffer opens it again. -/
theorem Tracks.forced (h : chunker.Tracks) (hin : chunker.inCodeFence = true) :
    Tracks { chunker with buffer := reopening chunker.fenceMarker } ∧
      openFence (chunker.buffer ++ closing) = false := by
  refine ⟨⟨h.1, ?_⟩, ?_⟩
  · show openFence (reopening chunker.fenceMarker) = chunker.inCodeFence
    rw [h.1 hin, openFence_reopening, hin]
  · rw [openFence_closing, h.2, hin]
    rfl

/-- Outside of a fence a chunk has a fence without its end where the rest has an end without its
beginning. -/
theorem Tracks.cut (h : chunker.Tracks) (hout : chunker.inCodeFence = false)
    (hmeet : MeetWell (chunker.buffer.take n) (chunker.buffer.drop n)) :
    openFence (chunker.buffer.take n) = openFence (chunker.buffer.drop n) := by
  have hall := openFence_append hmeet
  rw [List.take_append_drop, h.2, hout] at hall
  exact by simpa using hall.symm

/-- The outputs of a run that cuts no fence line close the fences that they open exactly if the run
keeps to the fences. -/
theorem outputs_close_iff (h : chunker.Tracks) {calls : List Call}
    (hlines : chunker.KeepsLines calls) :
    (∀ output ∈ outputs chunker calls, openFence output.text = false) ↔
      chunker.KeepsFences calls := by
  induction calls generalizing chunker with
  | nil =>
    rw [outputs, flushRemaining, KeepsFences, ← h.2]
    split_ifs with hnil
    · rw [hnil]
      exact iff_of_true (fun output hmem => nomatch hmem) openFence_nil
    · exact List.forall_mem_singleton
  | cons call calls ih =>
    cases call with
    | push text => exact ih (h.push hlines.1) hlines.2
    | tryFlush =>
      obtain ⟨hbetween, hlines⟩ := hlines
      rw [outputs, KeepsFences]
      obtain ⟨hcut, hflush⟩ | ⟨hin, hcut, hflush⟩ | ⟨hout, n, -, hcut, hflush⟩ :=
        tryFlush_cases chunker
      · have hstays : chunker.CutsOutside := by simp [CutsOutside, hcut]
        rw [hflush] at hlines ⊢
        rw [and_iff_right hstays, ← ih h hlines]
        rfl
      · have hstays : chunker.CutsOutside := by simp [CutsOutside, hcut]
        rw [hflush] at hlines ⊢
        obtain ⟨htracks, hclosed⟩ := h.forced hin
        rw [and_iff_right hstays, ← ih htracks hlines]
        exact List.forall_mem_cons.trans (and_iff_right hclosed)
      · have houtside : chunker.CutsOutside ↔ openFence (chunker.buffer.drop n) = false := by
          simp [CutsOutside, hcut]
        have hchunk := h.cut hout (hbetween n hcut)
        rw [hflush] at hlines ⊢
        rw [houtside]
        refine List.forall_mem_cons.trans ?_
        rw [hchunk]
        exact and_congr_right fun hclosed => ih ⟨h.1, hclosed.trans hout.symm⟩ hlines

/-! ### Outputs as they should be -/

/-- The outputs of every run restore the text that is pushed.  Where no fence line is cut, each of
them closes the fences that it opens exactly if no flush cuts inside a fence and the run does not
end in one. -/
theorem outputs_restore_and_close {minChunkChars maxChunkChars : ℕ} (hmax : 5 ≤ maxChunkChars)
    (calls : List Call) :
    Restores false (outputs (new minChunkChars maxChunkChars) calls) (pushed calls) ∧
      (KeepsLines (new minChunkChars maxChunkChars) calls →
        ((∀ output ∈ outputs (new minChunkChars maxChunkChars) calls,
            openFence output.text = false) ↔
          KeepsFences (new minChunkChars maxChunkChars) calls)) := by
  have hmarked : Marked (new minChunkChars maxChunkChars) := fun hopen => nomatch hopen
  exact ⟨@outputs_restore _ hmax hmarked false [] rfl calls,
    outputs_close_iff ⟨hmarked, openFence_nil⟩⟩

/-- The calls of a run on a text with a fence. -/
def fencedCalls : List Call :=
  [.push "a\n\n```\nb\n".toList, .tryFlush, .push "```\nc".toList, .tryFlush]

theorem outputs_restore_and_close_fenced :
    Restores false (outputs (new 2 9) fencedCalls) "a\n\n```\nb\n```\nc".toList ∧
      ∀ output ∈ outputs (new 2 9) fencedCalls, openFence output.text = false :=
  have h := @outputs_restore_and_close 2 9 (by decide) fencedCalls
  ⟨h.1, (h.2 (by decide)).2 (by decide)⟩

/-- A chunk ends at the last line of the search range, in the middle of a fence. -/
theorem outputs_split_fence :
    ¬ ∀ (minChunkChars maxChunkChars : ℕ) (calls : List Call), 5 ≤ maxChunkChars →
      minChunkChars ≤ maxChunkChars →
        Restores false (outputs (new minChunkChars maxChunkChars) calls) (pushed calls) ∧
          ∀ output ∈ outputs (new minChunkChars maxChunkChars) calls,
            openFence output.text = false := by
  intro h
  have hclosed := (h 5 12 [.push "```\nline1\nline2\n```\n".toList, .tryFlush] (by decide)
    (by decide)).2
  exact absurd hclosed (by decide)

end StreamChunker
end RustyHand
