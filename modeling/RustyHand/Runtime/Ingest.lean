import RustyHand.Lib.Windows
import RustyHand.Lib.Rewriting
import RustyHand.Types.Text

/-!
# Documents in chunks

`split_into_chunks_bounded` of `rusty-hand-runtime/src/ingest.rs`, which counts in characters.

* `chunkEnd`: where a window ends;
* `splitLoop`, `splitIntoChunksBounded`: the windows that are passed, and the chunks of them;
* `chunkEnd_spec`, `splitLoop_spec`: what one round and all rounds come to;
* `Splits`, `splitIntoChunksBounded_splits`.
-/

namespace RustyHand
namespace Ingest

open Rewriting OverlappingWindows Text

/-! ### The function -/

/-- `chars[start..stop]`. -/
def slice (chars : List Char) (start stop : ℕ) : Except Stop (List Char) :=
  if start ≤ stop ∧ stop ≤ chars.length then .ok ((chars.take stop).drop start)
  else .error .panicked

/-- The end of a paragraph, or of a sentence if there is none, in some text: the number of
characters up to it (`resolve` turns the byte position into this number). -/
def breakOffset (chunk : List Char) : Option ℕ :=
  match findLast "\n\n".toList chunk with
  | some pos => some (pos + 2)
  | none => (findLast ". ".toList chunk).map (· + 2)

/-- `chunk_end`. -/
def chunkEnd (chars : List Char) (chunkSize start : ℕ) : Except Stop ℕ :=
  let stop := min (start + chunkSize) chars.length
  if stop < chars.length then
    (slice chars start stop).map fun chunk =>
      match breakOffset chunk with
      | some offset => if chunkSize / 2 < offset then start + offset else stop
      | none => stop
  else .ok stop

/-- A window that the loop passes, and the chunk of it unless it is blank. -/
structure Passed where
  window : Window
  chunk : Option (List Char)
  deriving DecidableEq

/-- The chunk of a window. -/
def chunkOf (text : List Char) : Option (List Char) :=
  if trimChars text = [] then none else some (trimChars text)

/-- The chunks. -/
def chunks (passed : List Passed) : List (List Char) := passed.filterMap Passed.chunk

variable (chars : List Char) (chunkSize overlap maxChunks : ℕ)

/-- A round of the loop from `start` on, when `count` chunks have been made: the window, and unless
the loop ends there, where it goes on and with how many chunks. -/
def splitRound (start count : ℕ) : Except Stop (Passed × Option (ℕ × ℕ)) := do
  let stop ← chunkEnd chars chunkSize start
  let text ← slice chars start stop
  let passed : Passed := ⟨⟨start, stop⟩, chunkOf text⟩
  let count := count + (chunks [passed]).length
  if passed.chunk ≠ none ∧ maxChunks ≤ count then return (passed, none)
  if chars.length ≤ stop then return (passed, none)
  let advance := if start + overlap < stop then stop - start - overlap else stop - start
  if advance = 0 then return (passed, none)
  return (passed, some (start + advance, count))

/-- The loop. -/
def splitLoop : ℕ → ℕ → ℕ → Except Stop (List Passed)
  | 0, _, _ => .error .outOfFuel
  | fuel + 1, start, count =>
    if start < chars.length then
      match splitRound chars chunkSize overlap maxChunks start count with
      | .error e => .error e
      | .ok (passed, none) => .ok [passed]
      | .ok (passed, some (start, count)) =>
        (splitLoop fuel start count).map fun rest => passed :: rest
    else .ok []

/-- `split_into_chunks_bounded`, with the windows that are passed. -/
def splitIntoChunksBounded (fuel : ℕ) (text : String) : Except Stop (List Passed) :=
  let text := trim text
  if text = "" ∨ maxChunks = 0 then .ok []
  else if text.utf8ByteSize ≤ chunkSize then
    .ok [⟨⟨0, text.toList.length⟩, some text.toList⟩]
  else splitLoop text.toList chunkSize overlap maxChunks fuel 0 0

variable {chars : List Char} {chunkSize overlap maxChunks start count : ℕ}

/-! ### One round -/

theorem slice_eq {stop : ℕ} (hle : start ≤ stop) (hstop : stop ≤ chars.length) :
    slice chars start stop = .ok ((chars.take stop).drop start) := if_pos ⟨hle, hstop⟩

/-- A break is inside of the text. -/
theorem breakOffset_le {chunk : List Char} {offset : ℕ} (h : breakOffset chunk = some offset) :
    offset ≤ chunk.length := by
  have hfit : ∀ (pattern : List Char) (pos : ℕ), pattern.length = 2 →
      findLast pattern chunk = some pos → pos + 2 ≤ chunk.length := by
    intro pattern pos hlen hpos
    have hpre := (prefix_of_findLast hpos).length_le
    rw [List.length_drop] at hpre
    omega
  unfold breakOffset at h
  cases hparagraph : findLast "\n\n".toList chunk with
  | some pos =>
    rw [hparagraph] at h
    exact Option.some.inj h ▸ hfit _ pos rfl hparagraph
  | none =>
    rw [hparagraph] at h
    obtain ⟨pos, hpos, rfl⟩ := Option.map_eq_some_iff.1 h
    exact hfit _ pos rfl hpos

/-- A window is on the text, is not too long, and is longer than half of the chunk size unless it is
the last one. -/
theorem chunkEnd_spec (hsize : 1 ≤ chunkSize) (hstart : start < chars.length) :
    ∃ stop, chunkEnd chars chunkSize start = .ok stop ∧ start < stop ∧ stop ≤ chars.length ∧
      stop ≤ start + chunkSize ∧ (stop = chars.length ∨ start + chunkSize / 2 < stop) := by
  unfold chunkEnd
  dsimp only
  by_cases hlast : min (start + chunkSize) chars.length < chars.length
  · have hwindow : ∀ stop, start < stop → stop ≤ min (start + chunkSize) chars.length →
        start + chunkSize / 2 < stop → start < stop ∧ stop ≤ chars.length ∧
          stop ≤ start + chunkSize ∧ (stop = chars.length ∨ start + chunkSize / 2 < stop) :=
      fun stop hlt hle hhalf => ⟨hlt, by omega, by omega, .inr hhalf⟩
    have hlt : start < min (start + chunkSize) chars.length := by omega
    have hlong : start + chunkSize / 2 < min (start + chunkSize) chars.length := by omega
    rw [if_pos hlast, slice_eq hlt.le hlast.le]
    simp only [Except.map]
    cases hbreak : breakOffset ((chars.take (min (start + chunkSize) chars.length)).drop start) with
    | none => exact ⟨_, rfl, hwindow _ hlt le_rfl hlong⟩
    | some offset =>
      have hle := breakOffset_le hbreak
      rw [List.length_drop, List.length_take] at hle
      dsimp only
      by_cases hhalf : chunkSize / 2 < offset
      · rw [if_pos hhalf]
        exact ⟨_, rfl, hwindow _ (by omega) (by omega) (by omega)⟩
      · rw [if_neg hhalf]
        exact ⟨_, rfl, hwindow _ hlt le_rfl hlong⟩
  · rw [if_neg hlast]
    exact ⟨_, rfl, by omega, by omega, by omega, .inl (by omega)⟩

/-- Where the window behind one from `start` to `stop` begins. -/
def nextStart (overlap start stop : ℕ) : ℕ :=
  if start + overlap < stop then stop - overlap else stop

/-! ### All rounds -/

/-- What the loop passes from `start` on, when `count` chunks have been made; no window ends before
`low`. -/
structure Passes (chars : List Char) (chunkSize maxChunks start low count : ℕ)
    (passed : List Passed) : Prop where
  advances : ∃ last, Advances chars.length start low (passed.map Passed.window) last ∧
    (chars.length ≤ last ∨ maxChunks ≤ count + (chunks passed).length)
  bounded : count + (chunks passed).length ≤ maxChunks
  short : ∀ p ∈ passed, p.window.stop ≤ p.window.start + chunkSize
  text : ∀ p ∈ passed,
    p.chunk = chunkOf ((chars.take p.window.stop).drop p.window.start)

theorem length_chunks_cons (p : Passed) (passed : List Passed) :
    (chunks (p :: passed)).length = (chunks [p]).length + (chunks passed).length := by
  rw [← List.length_append, chunks, chunks, chunks, ← List.filterMap_append, List.singleton_append]

theorem length_chunks_singleton (p : Passed) :
    (chunks [p]).length = if p.chunk = none then 0 else 1 := by
  cases h : p.chunk with
  | none => simp [chunks, h]
  | some chunk => simp [chunks, h]

/-- A round, by the window that it passes. -/
theorem splitRound_eq {stop : ℕ} (hstop : chunkEnd chars chunkSize start = .ok stop)
    (hlt : start < stop) (hle : stop ≤ chars.length) :
    ∃ p : Passed, p.window = ⟨start, stop⟩ ∧ p.chunk = chunkOf ((chars.take stop).drop start) ∧
      splitRound chars chunkSize overlap maxChunks start count =
        .ok (p, if (p.chunk ≠ none ∧ maxChunks ≤ count + (chunks [p]).length) ∨
            chars.length ≤ stop then none
          else some (nextStart overlap start stop, count + (chunks [p]).length)) := by
  refine ⟨⟨⟨start, stop⟩, chunkOf ((chars.take stop).drop start)⟩, rfl, rfl, ?_⟩
  rw [splitRound, hstop]
  simp only [bind, Except.bind, slice_eq hlt.le hle, pure, Except.pure]
  generalize chunkOf ((chars.take stop).drop start) = chunk
  have hadvance : nextStart overlap start stop =
      start + if start + overlap < stop then stop - start - overlap else stop - start := by
    unfold nextStart
    split_ifs <;> omega
  have hpos : ¬ (if start + overlap < stop then stop - start - overlap else stop - start) = 0 := by
    split_ifs <;> omega
  by_cases hcap : chunk ≠ none ∧ maxChunks ≤ count + (chunks [⟨⟨start, stop⟩, chunk⟩]).length
  · simp only [if_pos hcap, if_pos (Or.inl hcap)]
  · by_cases hend : chars.length ≤ stop
    · simp only [if_neg hcap, if_pos hend, if_pos (Or.inr hend)]
    · simp only [if_neg hcap, if_neg hend, if_neg hpos, if_neg (not_or.2 ⟨hcap, hend⟩), hadvance]

/-- The next window begins behind this one's beginning, and repeats no more than half of a chunk. -/
theorem nextStart_spec {stop : ℕ} (hlt : start < stop) (hoverlap : overlap ≤ chunkSize / 2) :
    start < nextStart overlap start stop ∧ nextStart overlap start stop ≤ stop ∧
      stop ≤ nextStart overlap start stop + chunkSize / 2 := by
  unfold nextStart
  split_ifs <;> omega

/-- A round that does not reach the cap leaves room for a chunk. -/
theorem length_chunks_lt {p : Passed} (hcount : count < maxChunks)
    (hcap : ¬ (p.chunk ≠ none ∧ maxChunks ≤ count + (chunks [p]).length)) :
    count + (chunks [p]).length < maxChunks := by
  rw [length_chunks_singleton] at hcap ⊢
  split_ifs at hcap ⊢ with hblank
  · exact hcount
  · exact Nat.lt_of_not_le fun hle => hcap ⟨hblank, hle⟩

theorem splitLoop_spec (hsize : 1 ≤ chunkSize) (hoverlap : overlap ≤ chunkSize / 2) {low : ℕ}
    (hlow : low ≤ chars.length ∧ low ≤ start + chunkSize / 2) (hcount : count < maxChunks) :
    ∃ passed, (∀ fuel, chars.length - start < fuel →
        splitLoop chars chunkSize overlap maxChunks fuel start count = .ok passed) ∧
      Passes chars chunkSize maxChunks start low count passed := by
  induction hn : chars.length - start using Nat.strongRecOn generalizing start count low with
  | ind n ih =>
    by_cases hstart : start < chars.length
    · obtain ⟨stop, hstop, hlt, hle, hshort, hhalf⟩ := chunkEnd_spec hsize hstart
      obtain ⟨p, hwindow, hchunk, hround⟩ := @splitRound_eq chars chunkSize overlap
        maxChunks start count stop hstop hlt hle
      have hone := length_chunks_singleton p
      have hp : p.window.stop ≤ p.window.start + chunkSize ∧
          p.chunk = chunkOf ((chars.take p.window.stop).drop p.window.start) := by
        rw [hwindow]
        exact ⟨hshort, hchunk⟩
      by_cases hdone : (p.chunk ≠ none ∧ maxChunks ≤ count + (chunks [p]).length) ∨
          chars.length ≤ stop
      · rw [if_pos hdone] at hround
        refine ⟨[p], fun fuel hfuel => ?_, ⟨stop, ?_, ?_⟩, ?_, ?_, ?_⟩
        · obtain ⟨fuel, rfl⟩ : ∃ k, fuel = k + 1 := ⟨fuel - 1, by omega⟩
          rw [splitLoop, if_pos hstart, hround]
        · rw [List.map_singleton, hwindow]
          exact .cons hlt (by omega) hle hlt le_rfl (.nil _ _)
        · exact hdone.symm.imp_right And.right
        · split_ifs at hone <;> omega
        · exact List.forall_mem_singleton.2 hp.1
        · exact List.forall_mem_singleton.2 hp.2
      · rw [if_neg hdone] at hround
        obtain ⟨hcap, hend⟩ := not_or.1 hdone
        have hnext := nextStart_spec hlt hoverlap
        obtain ⟨passed, hrun, ⟨last, hadvances, hreached⟩, hbounded, hshorts, htexts⟩ :=
          @ih (chars.length - nextStart overlap start stop) (by omega) _ _ stop
            ⟨hle, hnext.2.2⟩ (length_chunks_lt hcount hcap) rfl
        rw [Nat.add_assoc, ← length_chunks_cons] at hreached hbounded
        refine ⟨p :: passed, fun fuel hfuel => ?_, ⟨last, ?_, hreached⟩, hbounded, ?_, ?_⟩
        · obtain ⟨fuel, rfl⟩ : ∃ k, fuel = k + 1 := ⟨fuel - 1, by omega⟩
          rw [splitLoop, if_pos hstart, hround]
          dsimp only
          rw [hrun fuel (by omega)]
          rfl
        · rw [List.map_cons, hwindow]
          exact .cons hlt (by omega) hle hnext.1 hnext.2.1 hadvances
        · exact List.forall_mem_cons.2 ⟨hp.1, hshorts⟩
        · exact List.forall_mem_cons.2 ⟨hp.2, htexts⟩
    · refine ⟨[], fun fuel hfuel => ?_, ⟨start, .nil start low, .inl (Nat.not_lt.1 hstart)⟩,
        hcount.le, List.forall_mem_nil _, List.forall_mem_nil _⟩
      obtain ⟨fuel, rfl⟩ : ∃ k, fuel = k + 1 := ⟨fuel - 1, by omega⟩
      rw [splitLoop, if_neg hstart]

/-! ### The whole text -/

/-- The windows that are passed over a text, and the chunks of those that are not blank. -/
structure Splits (text : List Char) (chunkSize maxChunks : ℕ) (passed : List Passed) : Prop where
  inRange : ∀ p ∈ passed, p.window.start < p.window.stop ∧ p.window.stop ≤ text.length
  ordered : (passed.map Passed.window).Pairwise Window.Before
  short : ∀ p ∈ passed, p.window.stop - p.window.start ≤ chunkSize
  covers : maxChunks ≤ (chunks passed).length ∨
    ∀ i < text.length, ∃ p ∈ passed, p.window.Has i
  bounded : (chunks passed).length ≤ maxChunks
  chunk : ∀ p ∈ passed, p.chunk = chunkOf ((text.take p.window.stop).drop p.window.start)

theorem Passes.splits {passed : List Passed} (h : Passes chars chunkSize maxChunks 0 0 0 passed) :
    Splits chars chunkSize maxChunks passed := by
  obtain ⟨last, hadvances, hreached⟩ := h.advances
  rw [Nat.zero_add] at hreached
  refine ⟨fun p hp => hadvances.inRange _ (List.mem_map_of_mem hp), hadvances.ordered, ?_, ?_, ?_,
    h.text⟩
  · intro p hp
    have := h.short p hp
    omega
  · refine hreached.symm.imp_right fun hlast i hi => ?_
    obtain ⟨w, hw, hhas⟩ := hadvances.covers (Nat.zero_le i) (hi.trans_le hlast)
    obtain ⟨p, hp, rfl⟩ := List.mem_map.1 hw
    exact ⟨p, hp, hhas⟩
  · exact Nat.zero_add (chunks passed).length ▸ h.bounded

/-- A trimmed text that is not too long is one chunk. -/
theorem splits_whole {cs : List Char} (hne : cs ≠ []) (htrim : trimChars cs = cs)
    (hfits : byteLength cs ≤ chunkSize) (hcap : 1 ≤ maxChunks) :
    Splits cs chunkSize maxChunks [⟨⟨0, cs.length⟩, some cs⟩] := by
  have hpos : 0 < cs.length := List.length_pos_iff.2 hne
  have hchunk : chunkOf cs = some cs := by rw [chunkOf, htrim, if_neg hne]
  refine ⟨List.forall_mem_singleton.2 ⟨hpos, le_rfl⟩, List.pairwise_singleton _ _,
    List.forall_mem_singleton.2 ((length_le_byteLength cs).trans hfits),
    .inr fun i hi => ⟨_, List.mem_singleton_self _, Nat.zero_le i, hi⟩, hcap,
    List.forall_mem_singleton.2 ?_⟩
  rw [List.take_length, List.drop_zero, hchunk]

/-- The loop ends on every text, with windows that are in range, in order and not too long, and that
cover the trimmed text unless the cap was reached.  The chunks, which are the windows that are not
blank, trimmed, are no more than the cap allows. -/
theorem splitIntoChunksBounded_splits (hsize : 1 ≤ chunkSize) (hoverlap : overlap ≤ chunkSize / 2)
    (maxChunks : ℕ) (text : String) :
    ∃ passed, (∀ fuel, (trim text).toList.length < fuel →
        splitIntoChunksBounded chunkSize overlap maxChunks fuel text = .ok passed) ∧
      Splits (trim text).toList chunkSize maxChunks passed := by
  by_cases hnone : trim text = "" ∨ maxChunks = 0
  · refine ⟨[], fun fuel _ => if_pos hnone, List.forall_mem_nil _, List.Pairwise.nil,
      List.forall_mem_nil _, ?_, Nat.zero_le _, List.forall_mem_nil _⟩
    rcases hnone with hempty | hcap
    · right
      rw [hempty, String.toList_empty]
      exact fun i hi => absurd hi (Nat.not_lt_zero i)
    · exact .inl hcap.le
  · obtain ⟨hempty, hcap⟩ := not_or.1 hnone
    by_cases hfits : (trim text).utf8ByteSize ≤ chunkSize
    · have hne : (trim text).toList ≠ [] := fun hnil => hempty (String.toList_eq_nil_iff.1 hnil)
      have htrim : trimChars (trim text).toList = (trim text).toList := by
        rw [toList_trim, trimChars_trimChars]
      have hbytes : byteLength (trim text).toList ≤ chunkSize := by
        rwa [← utf8ByteSize_ofList, String.ofList_toList]
      refine ⟨[⟨⟨0, (trim text).toList.length⟩, some (trim text).toList⟩], fun fuel _ => ?_,
        splits_whole hne htrim hbytes (Nat.pos_of_ne_zero hcap)⟩
      rw [splitIntoChunksBounded, if_neg hnone, if_pos hfits]
    · obtain ⟨passed, hrun, hpasses⟩ := @splitLoop_spec (trim text).toList chunkSize overlap
        maxChunks 0 0 hsize hoverlap 0 ⟨Nat.zero_le _, Nat.zero_le _⟩ (Nat.pos_of_ne_zero hcap)
      simp only [Nat.sub_zero] at hrun
      refine ⟨passed, fun fuel hfuel => ?_, hpasses.splits⟩
      rw [splitIntoChunksBounded, if_neg hnone, if_neg hfits]
      exact hrun fuel hfuel

/-- Chunks of four characters, each of which repeats one of the chunk before it. -/
theorem splitIntoChunksBounded_splits_words :
    ∃ passed, (∀ fuel, (trim " one. two ").toList.length < fuel →
        splitIntoChunksBounded 4 1 5 fuel " one. two " = .ok passed) ∧
      Splits (trim " one. two ").toList 4 5 passed :=
  splitIntoChunksBounded_splits (by decide) (by decide) 5 " one. two "

/-- The windows between two words are blank, and no chunk is made of them: more windows are passed
than the cap allows, and those that become chunks leave places out. -/
theorem splitIntoChunksBounded_blank :
    ∃ passed, splitIntoChunksBounded 1 0 3 8 "a     b" = .ok passed ∧ 3 < passed.length ∧
      (chunks passed).length < 3 ∧ ¬ ∃ p ∈ passed, p.chunk ≠ none ∧ p.window.Has 1 := by
  have hrun : splitIntoChunksBounded 1 0 3 8 "a     b" = .ok [⟨⟨0, 1⟩, some ['a']⟩, ⟨⟨1, 2⟩, none⟩,
      ⟨⟨2, 3⟩, none⟩, ⟨⟨3, 4⟩, none⟩, ⟨⟨4, 5⟩, none⟩, ⟨⟨5, 6⟩, none⟩, ⟨⟨6, 7⟩, some ['b']⟩] := by
    decide
  refine ⟨_, hrun, by decide, by decide, ?_⟩
  unfold Window.Has
  decide

end Ingest
end RustyHand
