import RustyHand.Lib.Windows
import RustyHand.Lib.Rewriting
import RustyHand.Types.Text

/-!
# Documents in overlapping chunks

`chunk_text` of `rusty-hand-runtime/src/tool_runner.rs`, which counts in bytes.

* `chunkEnd`, `chunkRound`, `chunkLoop`, `chunkText`: the function;
* `firstChunk`, `Divides`: the chunk at the beginning of a text, and the texts in which every chunk
  begins with a whole character;
* `chunkLoop_of_divides`, `chunkLoop_of_not_divides`: what the loop comes to;
* `Covers`, `chunkText_covers_iff`.
-/

namespace RustyHand
namespace ChunkText

open Rewriting OverlappingWindows Text

/-! ### The function -/

/-- `text.is_char_boundary(n)`. -/
def isCharBoundary (text : List Char) (n : ℕ) : Bool := byteLength (takeBytes n text) = n

/-- `text[start..stop]`. -/
def slice (text : List Char) (start stop : ℕ) : Except Stop (List Char) :=
  if start ≤ stop ∧ isCharBoundary text start ∧ isCharBoundary text stop then
    .ok ((takeBytes stop text).drop (takeBytes start text).length)
  else .error .panicked

/-- Back up to a character boundary. -/
def backUp (text : List Char) (start : ℕ) : ℕ → ℕ
  | 0 => 0
  | n + 1 => if start < n + 1 ∧ !isCharBoundary text (n + 1) then backUp text start n else n + 1

/-- The end of a paragraph, or of a sentence if there is none, by the number of characters before
it. -/
def lastBreak (chunk : List Char) : Option ℕ :=
  (findLast "\n\n".toList chunk).or (findLast ". ".toList chunk)

/-- `end`. -/
def chunkEnd (text : List Char) (chunkSize start : ℕ) : Except Stop ℕ :=
  let stop := backUp text start (min (start + chunkSize) (byteLength text))
  if stop < byteLength text then
    (slice text start stop).map fun chunk =>
      match lastBreak chunk with
      | some i =>
        let pos := byteLength (chunk.take i)
        if chunkSize / 2 < pos then start + pos + 2 else stop
      | none => stop
  else .ok stop

/-- `step`, before it is made one at least. -/
def advance (overlap length : ℕ) : ℕ := if overlap < length then length - overlap else length

/-- A round: the chunk and where the next round begins, or nothing if the loop ends. -/
def chunkRound (text : List Char) (chunkSize overlap start : ℕ) :
    Except Stop (Option (List Char × ℕ)) := do
  let stop ← chunkEnd text chunkSize start
  if stop ≤ start then return none
  let chunk ← slice text start stop
  return some (chunk, start + max (advance overlap (stop - start)) 1)

/-- The loop. -/
def chunkLoop (text : List Char) (chunkSize overlap : ℕ) : ℕ → ℕ → Except Stop (List (List Char))
  | 0, _ => .error .outOfFuel
  | fuel + 1, start =>
    if start < byteLength text then
      match chunkRound text chunkSize overlap start with
      | .error e => .error e
      | .ok none => .ok []
      | .ok (some (chunk, next)) =>
        (chunkLoop text chunkSize overlap fuel next).map fun rest => chunk :: rest
    else .ok []

/-- `chunk_text`. -/
def chunkText (chunkSize overlap fuel : ℕ) (text : String) : Except Stop (List String) :=
  let text := trim text
  if text = "" then .ok []
  else if text.utf8ByteSize ≤ chunkSize then .ok [text]
  else (chunkLoop text.toList chunkSize overlap fuel 0).map fun chunks => chunks.map String.ofList

/-! ### Boundaries -/

variable {text pre rest : List Char} {chunkSize overlap start : ℕ}

theorem isCharBoundary_iff {n : ℕ} :
    isCharBoundary text n = true ↔ byteLength (takeBytes n text) = n := decide_eq_true_iff

theorem isCharBoundary_append (pre rest : List Char) (n : ℕ) :
    isCharBoundary (pre ++ rest) (byteLength pre + n) = isCharBoundary rest n := by
  rw [isCharBoundary, isCharBoundary, takeBytes_append, byteLength_append]
  exact decide_eq_decide.2 (Nat.add_right_inj)

theorem isCharBoundary_of_isPrefix (h : pre <+: text) :
    isCharBoundary text (byteLength pre) = true :=
  isCharBoundary_iff.2 (congrArg byteLength (takeBytes_of_isPrefix h))

theorem backUp_eq {n : ℕ} (hstart : isCharBoundary text start = true) (hle : start ≤ n) :
    backUp text start n = byteLength (takeBytes n text) := by
  induction n with
  | zero => rw [takeBytes_zero]; rfl
  | succ n ih =>
    rw [backUp]
    cases hn : isCharBoundary text (n + 1) with
    | true => rw [if_neg (by simp), isCharBoundary_iff.1 hn]
    | false =>
      have hlt : start < n + 1 := Nat.lt_of_le_of_ne hle fun h => by
        rw [← h, hstart] at hn
        cases hn
      have hshort : byteLength (takeBytes (n + 1) text) ≤ n := by
        have := byteLength_takeBytes_le (n + 1) text
        have hne : byteLength (takeBytes (n + 1) text) ≠ n + 1 := fun h => by
          rw [isCharBoundary_iff.2 h] at hn
          cases hn
        omega
      rw [if_pos ⟨hlt, by simp⟩, ih (Nat.le_of_lt_succ hlt),
        takeBytes_eq_of_le (Nat.le_succ n) hshort]

theorem slice_append {w : List Char} (hw : w <+: rest) :
    slice (pre ++ rest) (byteLength pre) (byteLength pre + byteLength w) = .ok w := by
  have hstart := isCharBoundary_of_isPrefix (List.prefix_append pre rest)
  have hstop : isCharBoundary (pre ++ rest) (byteLength pre + byteLength w) = true := by
    rw [isCharBoundary_append]
    exact isCharBoundary_of_isPrefix hw
  rw [slice, if_pos ⟨Nat.le_add_right _ _, hstart, hstop⟩, takeBytes_append,
    takeBytes_of_isPrefix hw, takeBytes_of_isPrefix (List.prefix_append pre rest), List.drop_left]

theorem slice_of_not_boundary (h : isCharBoundary text start = false) (stop : ℕ) :
    slice text start stop = .error .panicked := by
  rw [slice, if_neg]
  rintro ⟨-, hstart, -⟩
  rw [h] at hstart
  cases hstart

/-! ### One round -/

/-- The chunk at the beginning of a text. -/
def firstChunk (chunkSize : ℕ) (rest : List Char) : List Char :=
  let window := takeBytes chunkSize rest
  if window = rest then rest
  else
    match lastBreak window with
    | some i => if chunkSize / 2 < byteLength (window.take i) then window.take (i + 2) else window
    | none => window

theorem byteLength_take_break {chunk : List Char} {i : ℕ} (h : lastBreak chunk = some i) :
    byteLength (chunk.take (i + 2)) = byteLength (chunk.take i) + 2 := by
  have hpattern : ∃ pattern : List Char, pattern.length = 2 ∧ byteLength pattern = 2 ∧
      pattern <+: chunk.drop i := by
    rcases Option.or_eq_some_iff.1 h with h | ⟨-, h⟩
    · exact ⟨_, rfl, rfl, prefix_of_findLast h⟩
    · exact ⟨_, rfl, rfl, prefix_of_findLast h⟩
  obtain ⟨pattern, hlen, hbytes, hpre⟩ := hpattern
  have htake : (chunk.drop i).take 2 = pattern := by
    rw [← hlen]
    exact (List.prefix_iff_eq_take.1 hpre).symm
  rw [List.take_add, byteLength_append, htake, hbytes]

/-- The chunk is all of the text, or more than half as long as a chunk may be. -/
theorem firstChunk_spec (hsize : 64 ≤ chunkSize) (rest : List Char) :
    firstChunk chunkSize rest <+: rest ∧
      (firstChunk chunkSize rest = rest ∨
        chunkSize / 2 < byteLength (firstChunk chunkSize rest)) := by
  have hwindow := takeBytes_isPrefix chunkSize rest
  unfold firstChunk
  by_cases hall : takeBytes chunkSize rest = rest
  · rw [if_pos hall]
    exact ⟨List.prefix_refl rest, .inl rfl⟩
  · rw [if_neg hall]
    have hlong : chunkSize / 2 < byteLength (takeBytes chunkSize rest) := by
      have hbytes : chunkSize ≤ byteLength rest :=
        Nat.le_of_not_le fun hle => hall (takeBytes_of_le hle)
      have := le_byteLength_takeBytes hbytes
      omega
    cases hbreak : lastBreak (takeBytes chunkSize rest) with
    | none => exact ⟨hwindow, .inr hlong⟩
    | some i =>
      dsimp only
      split_ifs with hhalf
      · have hbreak' := List.take_prefix (i + 2) (takeBytes chunkSize rest)
        refine ⟨hbreak'.trans hwindow, .inr ?_⟩
        rw [byteLength_take_break hbreak]
        omega
      · exact ⟨hwindow, .inr hlong⟩

theorem chunkEnd_append (pre rest : List Char) (chunkSize : ℕ) :
    chunkEnd (pre ++ rest) chunkSize (byteLength pre) =
      .ok (byteLength pre + byteLength (firstChunk chunkSize rest)) := by
  have hback : backUp (pre ++ rest) (byteLength pre)
      (min (byteLength pre + chunkSize) (byteLength (pre ++ rest))) =
        byteLength pre + byteLength (takeBytes chunkSize rest) := by
    have hstart := isCharBoundary_of_isPrefix (List.prefix_append pre rest)
    have hle := byteLength_le_of_isPrefix (takeBytes_isPrefix chunkSize rest)
    have hchunk := byteLength_takeBytes_le chunkSize rest
    rw [backUp_eq hstart (by rw [byteLength_append]; omega),
      takeBytes_eq_of_le (Nat.min_le_left _ _), takeBytes_append, byteLength_append]
    rw [takeBytes_append, byteLength_append, byteLength_append]
    omega
  rw [chunkEnd]
  dsimp only
  rw [hback, byteLength_append]
  by_cases hall : takeBytes chunkSize rest = rest
  · rw [hall, if_neg (Nat.lt_irrefl _), firstChunk, if_pos hall]
  · have hlt : byteLength pre + byteLength (takeBytes chunkSize rest) <
        byteLength pre + byteLength rest :=
      Nat.add_lt_add_left (Nat.lt_of_not_le fun hle =>
        hall (eq_of_isPrefix (takeBytes_isPrefix _ _) hle)) _
    rw [if_pos hlt, slice_append (takeBytes_isPrefix _ _), firstChunk, if_neg hall]
    simp only [Except.map]
    cases hbreak : lastBreak (takeBytes chunkSize rest) with
    | none => rfl
    | some i =>
      dsimp only
      split_ifs
      · rw [byteLength_take_break hbreak, Nat.add_assoc]
      · rfl

/-- What a window goes on by is not nothing, and is not more than the chunk. -/
theorem advance_pos {length : ℕ} (h : 0 < length) : 0 < advance overlap length := by
  unfold advance
  split_ifs <;> omega

theorem advance_le (overlap length : ℕ) : advance overlap length ≤ length := by
  unfold advance
  split_ifs <;> omega

theorem byteLength_firstChunk_pos (hsize : 64 ≤ chunkSize) (hne : rest ≠ []) :
    0 < byteLength (firstChunk chunkSize rest) := by
  rcases (firstChunk_spec hsize rest).2 with hall | hlong
  · rw [hall]
    exact byteLength_pos hne
  · exact Nat.zero_lt_of_lt hlong

theorem chunkRound_append (hsize : 64 ≤ chunkSize) (hne : rest ≠ []) :
    chunkRound (pre ++ rest) chunkSize overlap (byteLength pre) =
      .ok (some (firstChunk chunkSize rest,
        byteLength pre + advance overlap (byteLength (firstChunk chunkSize rest)))) := by
  have hpos := byteLength_firstChunk_pos hsize hne
  have hnext : 1 ≤ advance overlap (byteLength (firstChunk chunkSize rest)) := advance_pos hpos
  have hstop : ¬ byteLength pre + byteLength (firstChunk chunkSize rest) ≤ byteLength pre := by
    omega
  rw [chunkRound, chunkEnd_append]
  simp only [bind, Except.bind, if_neg hstop, slice_append (firstChunk_spec hsize rest).1,
    Nat.add_sub_cancel_left, Nat.max_eq_left hnext]
  rfl

/-- A round of the loop, and what is left of it. -/
theorem chunkLoop_append (hsize : 64 ≤ chunkSize) (hne : rest ≠ []) (fuel : ℕ) :
    chunkLoop (pre ++ rest) chunkSize overlap (fuel + 1) (byteLength pre) =
      (chunkLoop (pre ++ rest) chunkSize overlap fuel
        (byteLength pre + advance overlap (byteLength (firstChunk chunkSize rest)))).map
          (firstChunk chunkSize rest :: ·) := by
  have hbytes := byteLength_pos hne
  have hstart : byteLength pre < byteLength (pre ++ rest) := by
    rw [byteLength_append]
    omega
  rw [chunkLoop, if_pos hstart, chunkRound_append hsize hne]

/-- Inside of a character, the round panics. -/
theorem chunkRound_of_not_boundary (h : isCharBoundary text start = false)
    (hlt : start < byteLength text) :
    chunkRound text chunkSize overlap start = .error .panicked := by
  rw [chunkRound, chunkEnd]
  dsimp only
  by_cases hlast : backUp text start (min (start + chunkSize) (byteLength text)) < byteLength text
  · rw [if_pos hlast, slice_of_not_boundary h]
    rfl
  · rw [if_neg hlast]
    have hstop : ¬ backUp text start (min (start + chunkSize) (byteLength text)) ≤ start := by omega
    simp only [bind, Except.bind, if_neg hstop, slice_of_not_boundary h]

/-! ### All rounds -/

/-- A text whose chunks all begin with a whole character: a chunk after the first one begins
`overlap` bytes before the end of the chunk before it. -/
inductive Divides (chunkSize overlap : ℕ) : List Char → Prop
  | nil : Divides chunkSize overlap []
  | cons {kept rest : List Char} : kept ≠ [] →
    byteLength kept = advance overlap (byteLength (firstChunk chunkSize (kept ++ rest))) →
      Divides chunkSize overlap rest → Divides chunkSize overlap (kept ++ rest)

/-- The text between two places. -/
theorem take_drop_append {kept more : List Char} (hmore : more <+: rest) :
    ((pre ++ kept ++ rest).take ((pre ++ kept).length + more.length)).drop pre.length =
      kept ++ more := by
  obtain ⟨others, rfl⟩ := hmore
  rw [← List.append_assoc, ← List.length_append, List.take_left, List.append_assoc, List.drop_left]

theorem chunkLoop_of_divides (hsize : 64 ≤ chunkSize) (hoverlap : overlap ≤ chunkSize / 2)
    (h : Divides chunkSize overlap rest) (pre : List Char) {low : ℕ}
    (hlow : ∃ tail, tail <+: rest ∧ byteLength tail ≤ chunkSize / 2 ∧
      low = pre.length + tail.length) :
    ∃ ws, Advances (pre ++ rest).length pre.length low ws (pre ++ rest).length ∧
      ∀ fuel, byteLength rest < fuel →
        chunkLoop (pre ++ rest) chunkSize overlap fuel (byteLength pre) =
          .ok (ws.map fun w => ((pre ++ rest).take w.stop).drop w.start) := by
  induction h generalizing pre low with
  | nil =>
    refine ⟨[], ?_, fun fuel hfuel => ?_⟩
    · rw [List.append_nil]
      exact .nil _ _
    · obtain ⟨fuel, rfl⟩ : ∃ k, fuel = k + 1 := ⟨fuel - 1, by omega⟩
      rw [chunkLoop, List.append_nil, if_neg (Nat.lt_irrefl _)]
      rfl
  | @cons kept rest hne hkept _ ih =>
    obtain ⟨tail, htail, hshort, rfl⟩ := hlow
    have hall : kept ++ rest ≠ [] := List.append_ne_nil_of_left_ne_nil hne rest
    obtain ⟨hpre, hlong⟩ := firstChunk_spec hsize (kept ++ rest)
    have hround := @chunkLoop_append pre (kept ++ rest) chunkSize overlap hsize hall
    generalize firstChunk chunkSize (kept ++ rest) = chunk at hkept hpre hlong hround
    obtain ⟨more, rfl⟩ : kept <+: chunk := prefix_of_byteLength_le (List.prefix_append kept rest)
      hpre (hkept ▸ advance_le overlap _)
    have hmore : more <+: rest := (List.prefix_append_right_inj kept).1 hpre
    have htail' : tail.length ≤ (kept ++ more).length := by
      refine (prefix_of_byteLength_le htail hpre ?_).length_le
      rcases hlong with hwhole | hlong
      · rw [hwhole]
        exact byteLength_le_of_isPrefix htail
      · omega
    have hmore' : byteLength more ≤ chunkSize / 2 := by
      rw [byteLength_append, advance] at hkept
      split_ifs at hkept <;> omega
    rw [← hkept, ← byteLength_append, ← List.append_assoc] at hround
    obtain ⟨ws, hadvances, hrun⟩ := ih (pre ++ kept) ⟨more, hmore, hmore', rfl⟩
    rw [← List.append_assoc]
    refine ⟨⟨pre.length, (pre ++ kept).length + more.length⟩ :: ws, ?_, fun fuel hfuel => ?_⟩
    · have hkeptLength := List.length_pos_iff.2 hne
      have hmoreLength := hmore.length_le
      rw [List.length_append] at htail'
      refine .cons ?_ ?_ ?_ ?_ (Nat.le_add_right _ _) hadvances
      all_goals simp only [List.length_append]; omega
    · have hbytes := byteLength_pos hne
      rw [byteLength_append] at hfuel
      obtain ⟨fuel, rfl⟩ : ∃ k, fuel = k + 1 := ⟨fuel - 1, by omega⟩
      rw [hround, hrun fuel (by omega), List.map_cons, take_drop_append hmore]
      rfl

theorem chunkLoop_of_not_divides (hsize : 64 ≤ chunkSize)
    (h : ¬ Divides chunkSize overlap rest) (pre : List Char) {fuel : ℕ}
    (hfuel : byteLength rest < fuel) :
    chunkLoop (pre ++ rest) chunkSize overlap fuel (byteLength pre) = .error .panicked := by
  induction hn : byteLength rest using Nat.strongRecOn generalizing rest pre fuel with
  | ind n ih =>
    have hne : rest ≠ [] := by
      rintro rfl
      exact h .nil
    have hbytes := byteLength_pos hne
    obtain ⟨fuel, rfl⟩ : ∃ k, fuel = k + 1 := ⟨fuel - 1, by omega⟩
    have hpos := @advance_pos overlap _ (byteLength_firstChunk_pos hsize hne)
    have hle := advance_le overlap (byteLength (firstChunk chunkSize rest))
    have hchunk := byteLength_le_of_isPrefix (firstChunk_spec hsize rest).1
    rw [chunkLoop_append hsize hne]
    by_cases hkept : isCharBoundary rest (advance overlap (byteLength (firstChunk chunkSize rest)))
    · -- the next chunk begins with a whole character, so a later one does not
      obtain ⟨kept, rest', rfl, hkept⟩ : ∃ kept rest', rest = kept ++ rest' ∧
          byteLength kept = advance overlap (byteLength (firstChunk chunkSize rest)) :=
        ⟨_, _, (takeBytes_append_dropBytes _ rest).symm, isCharBoundary_iff.1 hkept⟩
      have hkeptNe : kept ≠ [] := by
        rintro rfl
        exact Nat.ne_of_lt hpos hkept
      have hrest : ¬ Divides chunkSize overlap rest' := fun hdivides =>
        h (.cons hkeptNe hkept hdivides)
      rw [byteLength_append] at hn hfuel
      rw [← hkept, ← byteLength_append, ← List.append_assoc,
        ih (byteLength rest') (by omega) hrest (pre ++ kept) (by omega) rfl]
      rfl
    · have hinside : isCharBoundary (pre ++ rest)
          (byteLength pre + advance overlap (byteLength (firstChunk chunkSize rest))) = false := by
        rw [isCharBoundary_append]
        exact Bool.eq_false_iff.2 hkept
      have hlt : advance overlap (byteLength (firstChunk chunkSize rest)) < byteLength rest := by
        refine Nat.lt_of_le_of_ne (hle.trans hchunk) fun heq => hkept ?_
        rw [heq]
        exact isCharBoundary_of_isPrefix (List.prefix_refl rest)
      obtain ⟨fuel, rfl⟩ : ∃ k, fuel = k + 1 := ⟨fuel - 1, by omega⟩
      have hnext : byteLength pre + advance overlap (byteLength (firstChunk chunkSize rest)) <
          byteLength (pre ++ rest) := by
        rw [byteLength_append]
        omega
      rw [chunkLoop, if_pos hnext, chunkRound_of_not_boundary hinside hnext]
      rfl

/-! ### The chunks of a text -/

/-- The chunks are substrings of the text, in order, and cover every character of it. -/
def Covers (text : List Char) (chunks : List (List Char)) : Prop :=
  ∃ ws : List Window, chunks = ws.map (fun w => (text.take w.stop).drop w.start) ∧
    (∀ w ∈ ws, w.start < w.stop ∧ w.stop ≤ text.length) ∧ ws.Pairwise Window.Before ∧
      ∀ i < text.length, ∃ w ∈ ws, w.Has i

theorem covers_of_advances {low : ℕ} {ws : List Window}
    (h : Advances text.length 0 low ws text.length) :
    Covers text (ws.map fun w => (text.take w.stop).drop w.start) :=
  ⟨ws, rfl, h.inRange, h.ordered, fun i hi => h.covers (Nat.zero_le i) hi⟩

theorem covers_nil : Covers [] [] :=
  ⟨[], rfl, List.forall_mem_nil _, List.Pairwise.nil, fun i hi => absurd hi (Nat.not_lt_zero i)⟩

theorem covers_whole (hne : text ≠ []) : Covers text [text] := by
  refine ⟨[⟨0, text.length⟩], by simp, ?_, List.pairwise_singleton _ _, fun i hi => ?_⟩
  · exact List.forall_mem_singleton.2 ⟨List.length_pos_iff.2 hne, le_rfl⟩
  · exact ⟨_, List.mem_singleton_self _, Nat.zero_le i, hi⟩

theorem Covers.head? {chunks : List (List Char)} (h : Covers text chunks) :
    text.head? = chunks.head?.bind List.head? := by
  obtain ⟨ws, rfl, hrange, hordered, hcovers⟩ := h
  cases text with
  | nil =>
    cases ws with
    | nil => rfl
    | cons w ws =>
      obtain ⟨hlt, hle⟩ := hrange w List.mem_cons_self
      exact absurd (hlt.trans_le hle) (Nat.not_lt_zero _)
  | cons c text =>
    obtain ⟨w, hw, hstart, hstop⟩ := hcovers 0 (Nat.zero_lt_succ _)
    cases ws with
    | nil => cases hw
    | cons first ws =>
      have hfirst : first = w := by
        rcases List.mem_cons.1 hw with rfl | hw
        · rfl
        · have := (List.rel_of_pairwise_cons hordered hw).1
          omega
      obtain ⟨k, hk⟩ : ∃ k, w.stop = k + 1 := ⟨w.stop - 1, by omega⟩
      rw [List.map_cons, List.head?_cons, hfirst, Nat.le_zero.1 hstart, hk, List.take_succ_cons]
      rfl

theorem Covers.getLast? {chunks : List (List Char)} (h : Covers text chunks) :
    text.getLast? = chunks.getLast?.bind List.getLast? := by
  obtain ⟨ws, rfl, hrange, hordered, hcovers⟩ := h
  rcases List.eq_nil_or_concat' ws with rfl | ⟨ws, last, rfl⟩
  · cases text with
    | nil => rfl
    | cons c text =>
      obtain ⟨w, hw, -⟩ := hcovers 0 (Nat.zero_lt_succ _)
      cases hw
  · obtain ⟨hlt, hle⟩ := hrange last (by simp)
    obtain ⟨w, hw, -, hstop⟩ := hcovers (text.length - 1) (by omega)
    have hlast : last.stop = text.length := by
      rcases List.mem_append.1 hw with hw | hw
      · have := ((List.pairwise_append.1 hordered).2.2 w hw last (List.mem_singleton_self _)).2
        omega
      · rw [List.mem_singleton.1 hw] at hstop
        omega
    rw [List.map_append, List.map_singleton, List.getLast?_concat, hlast, List.take_length]
    rw [Option.bind_some, List.getLast?_drop, if_neg (by omega)]

/-- Chunks of the trimmed text do not cover the white space around it. -/
theorem Covers.trimChars_eq {chunks : List (List Char)} (htrim : Covers (trimChars text) chunks)
    (h : Covers text chunks) : trimChars text = text := by
  have hfront : text.dropWhile isWhitespace = text := by
    have hhead := h.head?.trans htrim.head?.symm
    cases htext : text with
    | nil => rfl
    | cons c cs =>
      rw [htext, List.head?_cons] at hhead
      obtain ⟨cs', hcs'⟩ := List.head?_eq_some_iff.1 hhead.symm
      have hc := dropWhile_trimChars text
      rw [htext, hcs'] at hc
      refine List.dropWhile_cons_of_neg fun hblank => ?_
      rw [List.dropWhile_cons_of_pos hblank] at hc
      exact absurd (congrArg List.length hc) (Nat.ne_of_lt
        (Nat.lt_succ_of_le (List.dropWhile_suffix isWhitespace).length_le))
  have hback : text.rdropWhile isWhitespace = text := by
    have hlast := h.getLast?.trans htrim.getLast?.symm
    refine List.rdropWhile_eq_self_iff.2 fun hne => ?_
    have hne' : trimChars text ≠ [] := fun hnil => by
      rw [hnil, List.getLast?_nil] at hlast
      exact hne (List.getLast?_eq_none_iff.1 hlast)
    have hend := List.rdropWhile_eq_self_iff.1 (rdropWhile_trimChars text) hne'
    rw [List.getLast?_eq_some_getLast hne, List.getLast?_eq_some_getLast hne'] at hlast
    rwa [← Option.some.inj hlast] at hend
  rw [trimChars, hfront, hback]

/-- The text is one chunk, or no chunk of it begins inside of a character. -/
def WholeCharacters (chunkSize overlap : ℕ) (text : String) : Prop :=
  text.utf8ByteSize ≤ chunkSize ∨ Divides chunkSize overlap text.toList

/-- The function comes to these chunks. -/
def Returns (chunkSize overlap : ℕ) (text : String) (chunks : List String) : Prop :=
  ∀ fuel, (trim text).utf8ByteSize < fuel → chunkText chunkSize overlap fuel text = .ok chunks

theorem Returns.unique {text : String} {chunks chunks' : List String}
    (h : Returns chunkSize overlap text chunks) (h' : Returns chunkSize overlap text chunks') :
    chunks = chunks' :=
  Except.ok.inj ((h _ (Nat.lt_succ_self _)).symm.trans (h' _ (Nat.lt_succ_self _)))

theorem returns_of_wholeCharacters (hsize : 64 ≤ chunkSize) (hoverlap : overlap ≤ chunkSize / 2)
    {text : String} (h : WholeCharacters chunkSize overlap (trim text)) :
    ∃ chunks, Returns chunkSize overlap text chunks ∧
      Covers (trim text).toList (chunks.map String.toList) := by
  simp only [Returns, chunkText]
  generalize trim text = trimmed at h ⊢
  by_cases hempty : trimmed = ""
  · refine ⟨[], fun fuel _ => if_pos hempty, ?_⟩
    rw [hempty]
    exact covers_nil
  · have hne : trimmed.toList ≠ [] := fun hnil => hempty (String.toList_eq_nil_iff.1 hnil)
    by_cases hfits : trimmed.utf8ByteSize ≤ chunkSize
    · refine ⟨[trimmed], fun fuel _ => ?_, covers_whole hne⟩
      rw [if_neg hempty, if_pos hfits]
    · obtain ⟨ws, hadvances, hrun⟩ := chunkLoop_of_divides hsize hoverlap (h.resolve_left hfits) []
        ⟨[], List.nil_prefix, Nat.zero_le _, rfl⟩
      refine ⟨(ws.map fun w => (trimmed.toList.take w.stop).drop w.start).map String.ofList,
        fun fuel hfuel => ?_, ?_⟩
      · have hbytes : byteLength trimmed.toList < fuel := by
          rwa [← utf8ByteSize_ofList, String.ofList_toList]
        have hloop := hrun fuel hbytes
        rw [List.nil_append] at hloop
        exact (if_neg hempty).trans ((if_neg hfits).trans (congrArg (Except.map _) hloop))
      · have hchars : String.toList ∘ String.ofList = id := funext fun cs => String.toList_ofList
        rw [List.map_map, hchars, List.map_id]
        exact covers_of_advances hadvances

theorem chunkText_of_not_wholeCharacters (hsize : 64 ≤ chunkSize) {text : String}
    (h : ¬ WholeCharacters chunkSize overlap (trim text)) {fuel : ℕ}
    (hfuel : (trim text).utf8ByteSize < fuel) :
    chunkText chunkSize overlap fuel text = .error .panicked := by
  simp only [chunkText]
  generalize trim text = trimmed at h hfuel ⊢
  obtain ⟨hfits, hdivides⟩ := not_or.1 h
  have hempty : trimmed ≠ "" := fun hempty => hfits (by rw [hempty]; exact Nat.zero_le _)
  have hbytes : byteLength trimmed.toList < fuel := by
    rwa [← utf8ByteSize_ofList, String.ofList_toList]
  have hloop := chunkLoop_of_not_divides hsize hdivides [] hbytes
  rw [List.nil_append] at hloop
  exact (if_neg hempty).trans ((if_neg hfits).trans (congrArg (Except.map _) hloop))

/-- The function returns chunks that cover the text it cuts up, which is trimmed first, exactly if
no chunk begins inside of a character; it panics otherwise.  They cover all of the text exactly if
it is trimmed besides. -/
theorem chunkText_covers_iff (hsize : 64 ≤ chunkSize) (hoverlap : overlap ≤ chunkSize / 2)
    (text : String) :
    ((∃ chunks, Returns chunkSize overlap text chunks ∧
        Covers (trim text).toList (chunks.map String.toList)) ↔
      WholeCharacters chunkSize overlap (trim text)) ∧
    ((∃ chunks, Returns chunkSize overlap text chunks ∧
        Covers text.toList (chunks.map String.toList)) ↔
      WholeCharacters chunkSize overlap (trim text) ∧ trim text = text) := by
  have hwhole : ∀ chunks, Returns chunkSize overlap text chunks →
      WholeCharacters chunkSize overlap (trim text) := by
    intro chunks hreturns
    by_contra h
    have hpanics := chunkText_of_not_wholeCharacters hsize h (Nat.lt_succ_self _)
    rw [hreturns _ (Nat.lt_succ_self _)] at hpanics
    cases hpanics
  refine ⟨⟨?_, returns_of_wholeCharacters hsize hoverlap⟩, ?_, ?_⟩
  · rintro ⟨chunks, hreturns, -⟩
    exact hwhole chunks hreturns
  · rintro ⟨chunks, hreturns, hcovers⟩
    refine ⟨hwhole chunks hreturns, ?_⟩
    obtain ⟨chunks', hreturns', htrim⟩ :=
      returns_of_wholeCharacters hsize hoverlap (hwhole chunks hreturns)
    rw [hreturns'.unique hreturns, toList_trim] at htrim
    rw [← String.ofList_toList (s := trim text), toList_trim, htrim.trimChars_eq hcovers,
      String.ofList_toList]
  · rintro ⟨h, htrim⟩
    obtain ⟨chunks, hreturns, hcovers⟩ := returns_of_wholeCharacters hsize hoverlap h
    rw [htrim] at hcovers
    exact ⟨chunks, hreturns, hcovers⟩

/-! ### Texts whose chunks begin with whole characters -/

/-- A text of one chunk. -/
theorem chunkText_covers_iff_short :
    ((∃ chunks, Returns 64 32 " a b" chunks ∧
        Covers (trim " a b").toList (chunks.map String.toList)) ↔
      WholeCharacters 64 32 (trim " a b")) ∧
    ((∃ chunks, Returns 64 32 " a b" chunks ∧ Covers " a b".toList (chunks.map String.toList)) ↔
      WholeCharacters 64 32 (trim " a b") ∧ trim " a b" = " a b") :=
  chunkText_covers_iff (by decide) (by decide) " a b"

/-- A chunk of two bytes for each character that begins one byte before the end of the chunk before
it. -/
theorem chunkText_inside_character :
    chunkText 64 1 100 (String.ofList (List.replicate 40 'é')) = .error .panicked := by
  have htrim : trim (String.ofList (List.replicate 40 'é')) =
      String.ofList (List.replicate 40 'é') := by
    rw [trim, String.toList_ofList]
    rfl
  rw [chunkText, htrim, if_neg (by decide), if_neg (by decide),
    String.toList_ofList]
  rfl

end ChunkText
end RustyHand
