import Mathlib.Logic.Relation
import RustyHand.Channels.Push

/-!
# Split messages

`split_message` of `rusty-hand-channels/src/types.rs` cuts a text that a platform does not take in
one message: a chunk ends at the last newline of the window that fits, or else where the window
does.  The line break behind a chunk is skipped, whether the cut is made there or not.

* `SplitsInto`: chunks that are filled and short, and that make the text when they are joined;
* `ComesTo`: what a round of the loop can be left with;
* `LoneNewline`, `EndsInBreak`: the rests on which a round goes wrong;
* `splitMessage_splitsInto_iff`.
-/

namespace RustyHand
namespace Push

open Text

/-! ### The purpose -/

/-- What may stand between two chunks. -/
def Separator (sep : String) : Prop := sep = "" ∨ sep = "\n" ∨ sep = "\r\n"

/-- The text is the chunks in order, with separators between them. -/
inductive Joins : List String → String → Prop
  | last (chunk : String) : Joins [chunk] chunk
  | cons {chunks : List String} {rest sep : String} (chunk : String) :
    Separator sep → Joins chunks rest → Joins (chunk :: chunks) (chunk ++ sep ++ rest)

/-- A text that is split as it should be. -/
structure SplitsInto (text : String) (maxLen : ℕ) (chunks : List String) : Prop where
  filled : text ≠ "" → ∀ chunk ∈ chunks, chunk ≠ ""
  short : ∀ chunk ∈ chunks, chunk.utf8ByteSize ≤ maxLen
  joins : Joins chunks text

/-! ### One round -/

/-- The chunk that a round takes. -/
def chunkOf (maxLen : ℕ) (remaining : List Char) : List Char :=
  beforeLastNewline (takeBytes maxLen remaining)

/-- What a round leaves. -/
def afterChunk (maxLen : ℕ) (remaining : List Char) : List Char :=
  stripNewline (remaining.drop (chunkOf maxLen remaining).length)

/-- A round of the loop that does not end it. -/
def Round (maxLen : ℕ) (remaining rest : List Char) : Prop :=
  maxLen < byteLength remaining ∧ rest = afterChunk maxLen remaining

/-- The rests that the loop comes to. -/
def ComesTo (maxLen : ℕ) : List Char → List Char → Prop := Relation.ReflTransGen (Round maxLen)

/-- The only newline of the window is its first character. -/
def LoneNewline (maxLen : ℕ) (rest : List Char) : Prop :=
  maxLen < byteLength rest ∧ ∃ line, '\n' ∉ line ∧ takeBytes maxLen rest = '\n' :: line

/-- The window has no newline, and nothing but a line break stands behind it. -/
def EndsInBreak (maxLen : ℕ) (rest : List Char) : Prop :=
  maxLen < byteLength rest ∧ '\n' ∉ takeBytes maxLen rest ∧
    (dropBytes maxLen rest = ['\n'] ∨ dropBytes maxLen rest = ['\r', '\n'])

variable {maxLen : ℕ} {remaining rest : List Char}

theorem beforeLastNewline_of_not_mem {window : List Char} (h : '\n' ∉ window) :
    beforeLastNewline window = window := if_neg h

theorem eq_beforeLastNewline_append {window : List Char} (h : '\n' ∈ window) :
    ∃ line, '\n' ∉ line ∧ window = beforeLastNewline window ++ '\n' :: line := by
  obtain ⟨line, before, hwindow, hline⟩ := List.eq_append_cons_of_mem (List.mem_reverse.2 h)
  have hdrop : window.reverse.dropWhile (· ≠ '\n') = '\n' :: before := by
    rw [hwindow, List.dropWhile_append_of_pos fun c hc => by
      simpa using fun heq : c = '\n' => hline (heq ▸ hc)]
    exact List.dropWhile_cons_of_neg (by simp)
  refine ⟨line.reverse, by simpa using hline, ?_⟩
  rw [beforeLastNewline, if_pos h, hdrop, List.drop_one, List.tail_cons,
    ← List.reverse_reverse window, hwindow]
  simp

/-- A chunk, and the end of the text behind it. -/
theorem chunkOf_append_drop (maxLen : ℕ) (remaining : List Char) :
    chunkOf maxLen remaining ++ remaining.drop (chunkOf maxLen remaining).length = remaining := by
  have hpre : chunkOf maxLen remaining <+: takeBytes maxLen remaining := by
    by_cases hmem : '\n' ∈ takeBytes maxLen remaining
    · obtain ⟨line, -, hwindow⟩ := eq_beforeLastNewline_append hmem
      exact ⟨_, hwindow.symm⟩
    · rw [chunkOf, beforeLastNewline_of_not_mem hmem]
  have := List.prefix_iff_eq_append.1 (hpre.trans (takeBytes_isPrefix maxLen remaining))
  exact this

theorem byteLength_chunkOf_le (maxLen : ℕ) (remaining : List Char) :
    byteLength (chunkOf maxLen remaining) ≤ maxLen := by
  have hwindow := byteLength_takeBytes_le maxLen remaining
  by_cases hmem : '\n' ∈ takeBytes maxLen remaining
  · obtain ⟨line, -, heq⟩ := eq_beforeLastNewline_append hmem
    have hlen := congrArg byteLength heq
    rw [byteLength_append] at hlen
    exact (Nat.le_add_right _ _).trans (hlen ▸ hwindow)
  · rwa [chunkOf, beforeLastNewline_of_not_mem hmem]

theorem takeBytes_ne_nil (hmax : 4 ≤ maxLen) (hne : remaining ≠ []) :
    takeBytes maxLen remaining ≠ [] := by
  cases remaining with
  | nil => exact absurd rfl hne
  | cons c cs =>
    rw [takeBytes_cons, if_pos (c.utf8Size_le_four.trans hmax)]
    exact List.cons_ne_nil c _

theorem ne_nil_of_lt_byteLength (hlong : maxLen < byteLength remaining) : remaining ≠ [] := by
  rintro rfl
  exact absurd hlong (Nat.not_lt_zero maxLen)

/-- A chunk is empty when its window has a newline in front and no other. -/
theorem chunkOf_eq_nil_iff (hmax : 4 ≤ maxLen) (hlong : maxLen < byteLength remaining) :
    chunkOf maxLen remaining = [] ↔ LoneNewline maxLen remaining := by
  constructor
  · intro hnil
    refine ⟨hlong, ?_⟩
    by_cases hmem : '\n' ∈ takeBytes maxLen remaining
    · obtain ⟨line, hline, hwindow⟩ := eq_beforeLastNewline_append hmem
      exact ⟨line, hline, by rw [hwindow, ← chunkOf, hnil, List.nil_append]⟩
    · rw [chunkOf, beforeLastNewline_of_not_mem hmem] at hnil
      exact absurd hnil (takeBytes_ne_nil hmax (ne_nil_of_lt_byteLength hlong))
  · rintro ⟨-, line, hline, hwindow⟩
    obtain ⟨line', hline', heq⟩ :=
      eq_beforeLastNewline_append (hwindow ▸ List.mem_cons_self : '\n' ∈ takeBytes maxLen remaining)
    rw [hwindow] at heq
    rw [chunkOf, hwindow]
    cases hchunk : beforeLastNewline ('\n' :: line) with
    | nil => rfl
    | cons c cs =>
      -- the newline in front would stand in the chunk, and the last one behind it
      rw [hchunk, List.cons_append] at heq
      exact absurd ((List.cons.inj heq).2 ▸ List.mem_append_right cs List.mem_cons_self) hline

theorem stripNewline_eq (cs : List Char) :
    ∃ sep, Separator (String.ofList sep) ∧ cs = sep ++ stripNewline cs := by
  unfold stripNewline
  split
  · exact ⟨['\r', '\n'], .inr (.inr rfl), rfl⟩
  · exact ⟨['\n'], .inr (.inl rfl), rfl⟩
  · exact ⟨[], .inl rfl, rfl⟩

theorem exists_separator (maxLen : ℕ) (remaining : List Char) :
    ∃ sep, Separator (String.ofList sep) ∧
      remaining = chunkOf maxLen remaining ++ sep ++ afterChunk maxLen remaining := by
  obtain ⟨sep, hsep, heq⟩ := stripNewline_eq (remaining.drop (chunkOf maxLen remaining).length)
  refine ⟨sep, hsep, ?_⟩
  rw [List.append_assoc, afterChunk, ← heq, chunkOf_append_drop]

theorem stripNewline_eq_nil_iff {cs : List Char} (hne : cs ≠ []) :
    stripNewline cs = [] ↔ cs = ['\n'] ∨ cs = ['\r', '\n'] := by
  unfold stripNewline
  split <;> simp_all

/-- Nothing is left when a break stands behind a window without one. -/
theorem afterChunk_eq_nil_iff (hlong : maxLen < byteLength remaining) :
    afterChunk maxLen remaining = [] ↔ EndsInBreak maxLen remaining := by
  have hdrop : dropBytes maxLen remaining ≠ [] := by
    intro hnil
    have := takeBytes_append_dropBytes maxLen remaining
    rw [hnil, List.append_nil] at this
    have hle := byteLength_takeBytes_le maxLen remaining
    rw [this] at hle
    omega
  by_cases hmem : '\n' ∈ takeBytes maxLen remaining
  · obtain ⟨line, -, hwindow⟩ := eq_beforeLastNewline_append hmem
    have hrest : remaining.drop (chunkOf maxLen remaining).length =
        '\n' :: (line ++ dropBytes maxLen remaining) := by
      have hcut := chunkOf_append_drop maxLen remaining
      have hall := takeBytes_append_dropBytes maxLen remaining
      rw [hwindow, ← chunkOf, List.append_assoc] at hall
      exact List.append_cancel_left (hcut.trans hall.symm)
    simp [afterChunk, hrest, stripNewline, hdrop, EndsInBreak, hmem]
  · have hrest : remaining.drop (chunkOf maxLen remaining).length = dropBytes maxLen remaining := by
      rw [chunkOf, beforeLastNewline_of_not_mem hmem]
      rfl
    rw [afterChunk, hrest, stripNewline_eq_nil_iff hdrop, EndsInBreak, and_iff_right hlong,
      and_iff_right hmem]

/-- Every round takes a character. -/
theorem length_afterChunk_lt (hmax : 4 ≤ maxLen) (hlong : maxLen < byteLength remaining) :
    (afterChunk maxLen remaining).length < remaining.length := by
  obtain ⟨sep, -, heq⟩ := exists_separator maxLen remaining
  have hlen := congrArg List.length heq
  rw [List.length_append, List.length_append] at hlen
  by_cases hchunk : chunkOf maxLen remaining = []
  · obtain ⟨-, line, -, hwindow⟩ := (chunkOf_eq_nil_iff hmax hlong).1 hchunk
    obtain ⟨tail, htail⟩ := takeBytes_isPrefix maxLen remaining
    rw [hwindow] at htail
    have hafter : afterChunk maxLen remaining = line ++ tail := by
      rw [afterChunk, hchunk, ← htail]
      rfl
    rw [hafter, ← htail]
    simp
  · have := List.length_pos_of_ne_nil hchunk
    omega

/-! ### The loop -/

theorem rounds_induction (hmax : 4 ≤ maxLen) {motive : List Char → Prop}
    (last : ∀ remaining, byteLength remaining ≤ maxLen → motive remaining)
    (round : ∀ remaining, maxLen < byteLength remaining → motive (afterChunk maxLen remaining) →
      motive remaining) (remaining : List Char) : motive remaining := by
  induction hn : remaining.length using Nat.strong_induction_on generalizing remaining with
  | _ n ih =>
    by_cases hlong : maxLen < byteLength remaining
    · have hlt := length_afterChunk_lt hmax hlong
      exact round remaining hlong (ih _ (hn ▸ hlt) _ rfl)
    · exact last remaining (by omega)

/-- The chunks of what remains. -/
def chunksOf (maxLen : ℕ) (remaining : List Char) : List String :=
  splitLoop maxLen (remaining.length + 1) remaining

theorem splitLoop_succ (fuel : ℕ) (hlong : maxLen < byteLength remaining) :
    splitLoop maxLen (fuel + 1) remaining =
      String.ofList (chunkOf maxLen remaining) ::
        splitLoop maxLen fuel (afterChunk maxLen remaining) := by
  rw [splitLoop, if_neg (ne_nil_of_lt_byteLength hlong), if_neg (by omega)]
  rfl

theorem splitLoop_of_le (fuel : ℕ) (hshort : byteLength remaining ≤ maxLen) :
    splitLoop maxLen (fuel + 1) remaining =
      if remaining = [] then [] else [String.ofList remaining] := by
  rw [splitLoop, if_pos hshort]

/-- The loop ends: more rounds than there are characters make no difference. -/
theorem splitLoop_eq_chunksOf (hmax : 4 ≤ maxLen) (remaining : List Char) :
    ∀ fuel, remaining.length < fuel →
      splitLoop maxLen fuel remaining = chunksOf maxLen remaining := by
  induction remaining using rounds_induction hmax with
  | last remaining hshort =>
    intro fuel hfuel
    obtain ⟨fuel, rfl⟩ := Nat.exists_eq_succ_of_ne_zero (Nat.ne_zero_of_lt hfuel)
    rw [chunksOf, splitLoop_of_le fuel hshort, splitLoop_of_le _ hshort]
  | round remaining hlong ih =>
    intro fuel hfuel
    obtain ⟨fuel, rfl⟩ := Nat.exists_eq_succ_of_ne_zero (Nat.ne_zero_of_lt hfuel)
    have hlt := length_afterChunk_lt hmax hlong
    rw [chunksOf, splitLoop_succ fuel hlong, splitLoop_succ _ hlong, ih fuel (by omega),
      ih remaining.length hlt]

theorem chunksOf_of_long (hmax : 4 ≤ maxLen) (hlong : maxLen < byteLength remaining) :
    chunksOf maxLen remaining =
      String.ofList (chunkOf maxLen remaining) ::
        chunksOf maxLen (afterChunk maxLen remaining) := by
  rw [chunksOf, splitLoop_succ _ hlong,
    splitLoop_eq_chunksOf hmax _ _ (length_afterChunk_lt hmax hlong)]

theorem chunksOf_of_le (hne : remaining ≠ []) (hshort : byteLength remaining ≤ maxLen) :
    chunksOf maxLen remaining = [String.ofList remaining] := by
  rw [chunksOf, splitLoop_of_le _ hshort, if_neg hne]

theorem chunksOf_nil (maxLen : ℕ) : chunksOf maxLen [] = [] := rfl

theorem splitMessage_eq_chunksOf {text : String} (hne : text ≠ "") (maxLen : ℕ) :
    splitMessage text maxLen = chunksOf maxLen text.toList := by
  have hsize : text.utf8ByteSize = byteLength text.toList := by
    rw [← utf8ByteSize_ofList, String.ofList_toList]
  have hchars : text.toList ≠ [] := by simpa using hne
  unfold splitMessage
  split_ifs with hshort
  · rw [chunksOf_of_le hchars (hsize ▸ hshort), String.ofList_toList]
  · rfl

theorem chunksOf_short (hmax : 4 ≤ maxLen) (remaining : List Char) :
    ∀ chunk ∈ chunksOf maxLen remaining, chunk.utf8ByteSize ≤ maxLen := by
  induction remaining using rounds_induction hmax with
  | last remaining hshort =>
    by_cases hne : remaining = []
    · subst hne
      simp [chunksOf_nil]
    · simpa [chunksOf_of_le hne hshort, utf8ByteSize_ofList] using hshort
  | round remaining hlong ih =>
    rw [chunksOf_of_long hmax hlong]
    refine List.forall_mem_cons.2 ⟨?_, ih⟩
    rw [utf8ByteSize_ofList]
    exact byteLength_chunkOf_le maxLen remaining

theorem ComesTo.chunksOf_suffix (hmax : 4 ≤ maxLen) (h : ComesTo maxLen remaining rest) :
    chunksOf maxLen rest <:+ chunksOf maxLen remaining := by
  induction h with
  | refl => exact List.suffix_refl _
  | tail _ hround ih =>
    obtain ⟨hlong, rfl⟩ := hround
    refine List.IsSuffix.trans ?_ ih
    rw [chunksOf_of_long hmax hlong]
    exact List.suffix_cons ..

theorem ComesTo.suffix (h : ComesTo maxLen remaining rest) : rest <:+ remaining := by
  induction h with
  | refl => exact List.suffix_refl _
  | @tail mid _ _ hround ih =>
    obtain ⟨-, rfl⟩ := hround
    obtain ⟨sep, -, heq⟩ := exists_separator maxLen mid
    exact List.IsSuffix.trans ⟨_, heq.symm⟩ ih

/-! ### Filled chunks -/

theorem chunksOf_filled_iff (hmax : 4 ≤ maxLen) (remaining : List Char) :
    (∀ chunk ∈ chunksOf maxLen remaining, chunk ≠ "") ↔
      ∀ rest, ComesTo maxLen remaining rest → ¬ LoneNewline maxLen rest := by
  constructor
  · intro hfilled rest hcomes hlone
    have hchunk : String.ofList (chunkOf maxLen rest) ∈ chunksOf maxLen rest := by
      rw [chunksOf_of_long hmax hlone.1]
      exact List.mem_cons_self
    refine hfilled _ ((hcomes.chunksOf_suffix hmax).subset hchunk) ?_
    rw [(chunkOf_eq_nil_iff hmax hlone.1).2 hlone]
  · induction remaining using rounds_induction hmax with
    | last remaining hshort =>
      intro _
      by_cases hne : remaining = []
      · subst hne
        simp [chunksOf_nil]
      · simpa [chunksOf_of_le hne hshort] using hne
    | round remaining hlong ih =>
      intro hnone
      rw [chunksOf_of_long hmax hlong]
      refine List.forall_mem_cons.2
        ⟨?_, ih fun rest hcomes => hnone rest (hcomes.head ⟨hlong, rfl⟩)⟩
      have hchunk := mt (chunkOf_eq_nil_iff hmax hlong).1 (hnone remaining .refl)
      simpa using hchunk

/-! ### Joined chunks -/

theorem Joins.getLast_suffix {chunks : List String} {text : String} (h : Joins chunks text) :
    ∃ chunk, chunks.getLast? = some chunk ∧ chunk.toList <:+ text.toList := by
  induction h with
  | last chunk => exact ⟨chunk, rfl, List.suffix_refl _⟩
  | @cons chunks rest sep chunk _ _ ih =>
    obtain ⟨final, hlast, hsuffix⟩ := ih
    refine ⟨final, ?_, ?_⟩
    · rw [List.getLast?_cons, hlast, Option.getD_some]
    · rw [String.toList_append]
      exact hsuffix.trans (List.suffix_append ..)

/-- The chunk before a break that is lost is the last one, and has no newline. -/
theorem EndsInBreak.not_joins (hmax : 4 ≤ maxLen) (h : EndsInBreak maxLen rest)
    (hcomes : ComesTo maxLen remaining rest) :
    ¬ Joins (chunksOf maxLen remaining) (String.ofList remaining) := by
  intro hjoins
  obtain ⟨hlong, hmem, hbreak⟩ := h
  have hafter := (afterChunk_eq_nil_iff hlong).2 ⟨hlong, hmem, hbreak⟩
  have hchunks : chunksOf maxLen rest = [String.ofList (takeBytes maxLen rest)] := by
    rw [chunksOf_of_long hmax hlong, hafter, chunksOf_nil, chunkOf,
      beforeLastNewline_of_not_mem hmem]
  obtain ⟨final, hlast, hsuffix⟩ := hjoins.getLast_suffix
  obtain ⟨front, hfront⟩ := hcomes.chunksOf_suffix hmax
  rw [← hfront, hchunks, List.getLast?_concat] at hlast
  obtain rfl := Option.some.inj hlast
  rw [String.toList_ofList, String.toList_ofList] at hsuffix
  -- the text ends with the newline of the break, the chunk with another character
  have hends : ['\n'] <:+ rest := by
    have hall := takeBytes_append_dropBytes maxLen rest
    have hdrop : ['\n'] <:+ dropBytes maxLen rest := by
      rcases hbreak with heq | heq
      · rw [heq]
      · rw [heq]
        exact ⟨['\r'], rfl⟩
    exact hdrop.trans ⟨_, hall⟩
  have hwindow : ['\n'] <:+ takeBytes maxLen rest := by
    refine List.suffix_of_suffix_length_le (hends.trans hcomes.suffix) hsuffix ?_
    exact List.length_pos_of_ne_nil (takeBytes_ne_nil hmax (ne_nil_of_lt_byteLength hlong))
  exact hmem (hwindow.subset List.mem_cons_self)

theorem chunksOf_joins_iff (hmax : 4 ≤ maxLen) (hne : remaining ≠ []) :
    Joins (chunksOf maxLen remaining) (String.ofList remaining) ↔
      ∀ rest, ComesTo maxLen remaining rest → ¬ EndsInBreak maxLen rest := by
  constructor
  · intro hjoins rest hcomes hbreak
    exact hbreak.not_joins hmax hcomes hjoins
  · induction remaining using rounds_induction hmax with
    | last remaining hshort =>
      intro _
      rw [chunksOf_of_le hne hshort]
      exact .last _
    | round remaining hlong ih =>
      intro hnone
      have hafter := mt (afterChunk_eq_nil_iff hlong).1 (hnone remaining .refl)
      obtain ⟨sep, hsep, heq⟩ := exists_separator maxLen remaining
      rw [chunksOf_of_long hmax hlong]
      conv => arg 2; rw [heq, String.ofList_append, String.ofList_append]
      exact .cons _ hsep (ih hafter fun rest hcomes => hnone rest (hcomes.head ⟨hlong, rfl⟩))

/-! ### Texts that are split as they should be -/

/-- The loop ends on every text.  The chunks are filled, short, and joined by empty separators and
line breaks exactly when the loop comes to no rest whose window has a newline in front and no other,
and to none that is a window without a newline and a line break. -/
theorem splitMessage_splitsInto_iff (hmax : 4 ≤ maxLen) (text : String) :
    (∀ fuel, text.toList.length < fuel →
      splitLoop maxLen fuel text.toList = splitLoop maxLen (text.toList.length + 1) text.toList) ∧
    (SplitsInto text maxLen (splitMessage text maxLen) ↔
      ∀ rest, ComesTo maxLen text.toList rest →
        ¬ LoneNewline maxLen rest ∧ ¬ EndsInBreak maxLen rest) := by
  refine ⟨splitLoop_eq_chunksOf hmax text.toList, ?_⟩
  by_cases hne : text = ""
  · subst hne
    have hshort : byteLength "".toList ≤ maxLen := Nat.zero_le maxLen
    have hstay : ∀ rest, ComesTo maxLen "".toList rest → rest = "".toList := by
      intro rest hcomes
      induction hcomes with
      | refl => rfl
      | tail _ hround ih =>
        subst ih
        exact absurd hround.1 (by omega)
    refine iff_of_true ⟨fun h => absurd rfl h, by simp [splitMessage], .last ""⟩ ?_
    intro rest hcomes
    rw [hstay rest hcomes]
    exact ⟨fun h => absurd h.1 (by omega), fun h => absurd h.1 (by omega)⟩
  · have hchars : text.toList ≠ [] := by simpa using hne
    have hjoins := chunksOf_joins_iff hmax hchars
    rw [String.ofList_toList] at hjoins
    rw [splitMessage_eq_chunksOf hne]
    constructor
    · intro h rest hcomes
      exact ⟨(chunksOf_filled_iff hmax _).1 (h.filled hne) rest hcomes,
        hjoins.1 h.joins rest hcomes⟩
    · intro h
      exact ⟨fun _ => (chunksOf_filled_iff hmax _).2 fun rest hcomes => (h rest hcomes).1,
        chunksOf_short hmax _, hjoins.2 fun rest hcomes => (h rest hcomes).2⟩

theorem splitMessage_splitsInto_iff_lines :
    (∀ fuel, "line1\nline2\nline3".toList.length < fuel →
      splitLoop 10 fuel "line1\nline2\nline3".toList =
        splitLoop 10 ("line1\nline2\nline3".toList.length + 1) "line1\nline2\nline3".toList) ∧
    (SplitsInto "line1\nline2\nline3" 10 (splitMessage "line1\nline2\nline3" 10) ↔
      ∀ rest, ComesTo 10 "line1\nline2\nline3".toList rest →
        ¬ LoneNewline 10 rest ∧ ¬ EndsInBreak 10 rest) :=
  splitMessage_splitsInto_iff (by decide) "line1\nline2\nline3"

/-- A newline in front of a word that is too long makes an empty chunk. -/
theorem splitMessage_newline_word :
    ¬ ∀ (text : String) (maxLen : ℕ), 4 ≤ maxLen →
      SplitsInto text maxLen (splitMessage text maxLen) := by
  intro h
  have hchunks : splitMessage "\nhello" 4 = ["", "hell", "o"] := by decide
  have hfilled := (h "\nhello" 4 le_rfl).filled (by decide)
  rw [hchunks] at hfilled
  exact hfilled "" List.mem_cons_self rfl

end Push
end RustyHand
