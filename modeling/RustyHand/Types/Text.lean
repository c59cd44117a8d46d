import Mathlib.Algebra.Ring.Nat
import Mathlib.Algebra.BigOperators.Group.List.Basic
import Mathlib.Data.Finset.Card
import Mathlib.Data.List.DropRight
import Mathlib.Data.List.Infix
import RustyHand.Lib.Rewriting

/-!
# Text

What the program uses of Rust's `str` beyond Lean's own strings, and the helpers of
`rusty-hand-types/src/text.rs`.  Lengths are in bytes of the UTF-8 encoding.
-/

open Rewriting

namespace RustyHand
namespace Text

/-- `char::is_whitespace`: the Unicode `White_Space` property. -/
def isWhitespace (c : Char) : Bool :=
  (9 ≤ c.toNat && c.toNat ≤ 13) || c.toNat = 0x20 || c.toNat = 0x85 || c.toNat = 0xA0 ||
    c.toNat = 0x1680 || (0x2000 ≤ c.toNat && c.toNat ≤ 0x200A) || c.toNat = 0x2028 ||
    c.toNat = 0x2029 || c.toNat = 0x202F || c.toNat = 0x205F || c.toNat = 0x3000

/-- `s.trim().is_empty()`. -/
def isBlank (s : String) : Bool := s.toList.all isWhitespace

/-- `s.trim()`. -/
def trim (s : String) : String :=
  String.ofList ((s.toList.dropWhile isWhitespace).reverse.dropWhile isWhitespace).reverse

theorem trim_eq_self {s : String} (h : ∀ c ∈ s.toList, isWhitespace c = false) : trim s = s := by
  have hback : ∀ l : List Char, (∀ c ∈ l, isWhitespace c = false) →
      l.dropWhile isWhitespace = l := by
    intro l hl
    cases l with
    | nil => rfl
    | cons c l => exact List.dropWhile_cons_of_neg (by simp [hl c List.mem_cons_self])
  rw [trim, hback _ h, hback _ (fun c hc => h c (List.mem_reverse.1 hc)), List.reverse_reverse,
    String.ofList_toList]

/-- `s.trim()`, of the characters. -/
def trimChars (cs : List Char) : List Char := (cs.dropWhile isWhitespace).rdropWhile isWhitespace

theorem toList_trim (s : String) : (trim s).toList = trimChars s.toList := String.toList_ofList

theorem dropWhile_trimChars (cs : List Char) :
    (trimChars cs).dropWhile isWhitespace = trimChars cs := by
  obtain ⟨rest, hrest⟩ := List.rdropWhile_prefix isWhitespace (cs.dropWhile isWhitespace)
  cases hb : trimChars cs with
  | nil => rfl
  | cons c l =>
    have hhead : (cs.dropWhile isWhitespace).head? = some c := by
      rw [← hrest, ← trimChars, hb]
      rfl
    have hc := List.head?_dropWhile_not isWhitespace cs
    rw [hhead] at hc
    exact List.dropWhile_cons_of_neg (by simpa using hc)

/-- Trimming takes blanks off at both ends. -/
theorem trimChars_split (cs : List Char) : cs = cs.takeWhile isWhitespace ++ (trimChars cs ++
    (cs.dropWhile isWhitespace).rtakeWhile isWhitespace) := by
  rw [trimChars, List.rdropWhile_append_rtakeWhile, List.takeWhile_append_dropWhile]

theorem mem_trimChars {cs : List Char} {c : Char} (hc : c ∈ cs) (hblank : isWhitespace c = false) :
    c ∈ trimChars cs := by
  rw [trimChars_split cs, List.mem_append, List.mem_append] at hc
  rcases hc with hc | hc | hc
  · exact absurd (List.mem_takeWhile_imp hc) (by simp [hblank])
  · exact hc
  · exact absurd (List.mem_rtakeWhile_imp hc) (by simp [hblank])

theorem rdropWhile_trimChars (cs : List Char) :
    (trimChars cs).rdropWhile isWhitespace = trimChars cs := List.rdropWhile_idempotent ..

theorem trimChars_trimChars (cs : List Char) : trimChars (trimChars cs) = trimChars cs := by
  rw [trimChars, dropWhile_trimChars, rdropWhile_trimChars]

/-- What is trimmed stays. -/
theorem trim_trim (s : String) : trim (trim s) = trim s := by
  show String.ofList (trimChars (trim s).toList) = String.ofList (trimChars s.toList)
  rw [toList_trim, trimChars_trimChars]

/-- `s.contains(part)`. -/
def containsText (s part : String) : Bool := decide (part.toList <:+: s.toList)

/-- `char::is_control`: the general category `Cc`. -/
def isControl (c : Char) : Bool := c.toNat < 0x20 || (0x7F ≤ c.toNat && c.toNat < 0xA0)

/-- `str::strip_prefix`. -/
def stripStart (start name : String) : Option String :=
  if start.toList <+: name.toList then some (String.ofList (name.toList.drop start.length))
  else none

theorem stripStart_append (start rest : String) : stripStart start (start ++ rest) = some rest := by
  rw [stripStart, String.toList_append, if_pos (List.prefix_append ..), ← String.length_toList,
    List.drop_left, String.ofList_toList]

/-- The pieces between the characters that `sep` picks. -/
def pieces (sep : Char → Bool) : List Char → List (List Char)
  | [] => [[]]
  | c :: cs =>
    if sep c then [] :: pieces sep cs
    else
      match pieces sep cs with
      | [] => [[c]]
      | w :: ws => (c :: w) :: ws

theorem pieces_eq_splitOnP (sep : Char → Bool) (l : List Char) :
    pieces sep l = l.splitOnP sep := by
  induction l with
  | nil => rfl
  | cons c l ih =>
    obtain ⟨w, ws, hws⟩ := List.exists_cons_of_ne_nil (List.splitOnP_ne_nil sep l)
    rw [pieces, List.splitOnP_cons_eq_if_modifyHead, ih, hws]
    rfl

/-- `s.split_whitespace()`. -/
def splitWhitespace (s : String) : List String :=
  ((pieces isWhitespace s.toList).filter (· ≠ [])).map String.ofList

theorem splitWhitespace_append_cons (a b : List Char) {c : Char} (hc : isWhitespace c = true) :
    splitWhitespace (String.ofList (a ++ c :: b)) =
      splitWhitespace (String.ofList a) ++ splitWhitespace (String.ofList b) := by
  simp only [splitWhitespace, String.toList_ofList, pieces_eq_splitOnP,
    List.splitOnP_append_cons a b hc, List.filter_append, List.map_append]

theorem splitWhitespace_of_word {w : List Char} (hne : w ≠ [])
    (h : ∀ c ∈ w, isWhitespace c = false) :
        splitWhitespace (String.ofList w) = [String.ofList w] := by
  rw [splitWhitespace, String.toList_ofList, pieces_eq_splitOnP, List.splitOnP_eq_singleton h]
  simp [hne]

theorem splitWhitespace_of_blank {w : List Char} (h : ∀ c ∈ w, isWhitespace c = true) :
    splitWhitespace (String.ofList w) = [] := by
  induction w with
  | nil => rfl
  | cons c w ih =>
    have := splitWhitespace_append_cons [] w (h c List.mem_cons_self)
    rw [List.nil_append] at this
    rw [this, ih fun d hd => h d (List.mem_cons_of_mem c hd)]
    rfl

theorem splitWhitespace_append_blank (a : List Char) {w : List Char}
    (h : ∀ c ∈ w, isWhitespace c = true) :
    splitWhitespace (String.ofList (a ++ w)) = splitWhitespace (String.ofList a) := by
  cases w with
  | nil => rw [List.append_nil]
  | cons c w =>
    rw [splitWhitespace_append_cons a w (h c List.mem_cons_self),
      splitWhitespace_of_blank fun d hd => h d (List.mem_cons_of_mem c hd), List.append_nil]

theorem splitWhitespace_blank_append {w : List Char} (b : List Char)
    (h : ∀ c ∈ w, isWhitespace c = true) :
    splitWhitespace (String.ofList (w ++ b)) = splitWhitespace (String.ofList b) := by
  induction w with
  | nil => rw [List.nil_append]
  | cons c w ih =>
    have hcons := splitWhitespace_append_cons [] (w ++ b) (h c List.mem_cons_self)
    rw [List.nil_append] at hcons
    rw [List.cons_append, hcons, ih fun d hd => h d (List.mem_cons_of_mem c hd)]
    rfl

/-- Trimming does not change the words. -/
theorem splitWhitespace_trim (s : String) : splitWhitespace (trim s) = splitWhitespace s := by
  have hfront := splitWhitespace_blank_append (s.toList.dropWhile isWhitespace)
    (w := s.toList.takeWhile isWhitespace) fun c hc => List.mem_takeWhile_imp hc
  have hback := splitWhitespace_append_blank
    ((s.toList.dropWhile isWhitespace).rdropWhile isWhitespace)
    (w := (s.toList.dropWhile isWhitespace).rtakeWhile isWhitespace) fun c hc =>
      List.mem_rtakeWhile_imp hc
  rw [List.takeWhile_append_dropWhile, String.ofList_toList] at hfront
  rw [List.rdropWhile_append_rtakeWhile] at hback
  rw [hfront, hback]
  rfl

theorem ne_empty_of_mem_splitWhitespace {s w : String} (h : w ∈ splitWhitespace s) : w ≠ "" := by
  obtain ⟨l, hl, rfl⟩ := List.mem_map.1 h
  have hne : l ≠ [] := by simpa using (List.mem_filter.1 hl).2
  intro heq
  exact hne (by simpa using congrArg String.toList heq)

/-- `s.splitn(2, ' ')`: what stands before the first space, and what stands behind it. -/
def splitSpace (s : String) : String × Option String :=
  (String.ofList (s.toList.takeWhile (· ≠ ' ')),
    match s.toList.dropWhile (· ≠ ' ') with
    | [] => none
    | _ :: rest => some (String.ofList rest))

example : splitWhitespace "  a bc\td " = ["a", "bc", "d"] := by decide

/-- `s.replace(pattern, new)`, at every place from the left; the first argument counts the
characters of a match that are still to be passed over. -/
def replaceAll (pattern new : List Char) : ℕ → List Char → List Char
  | _, [] => []
  | 0, c :: cs =>
    if pattern <+: c :: cs then new ++ replaceAll pattern new (pattern.length - 1) cs
    else c :: replaceAll pattern new 0 cs
  | skip + 1, _ :: cs => replaceAll pattern new skip cs

/-- `s.replace(pattern, new)`. -/
def replace (s pattern new : String) : String :=
  String.ofList (replaceAll pattern.toList new.toList 0 s.toList)

/-- What stands before the first `pattern` and what stands behind it (`s.find(pattern)`). -/
def splitOnce (pattern : List Char) : List Char → Option (List Char × List Char)
  | [] => if pattern = [] then some ([], []) else none
  | c :: cs =>
    if pattern <+: c :: cs then some ([], (c :: cs).drop pattern.length)
    else (splitOnce pattern cs).map fun r => (c :: r.1, r.2)

theorem splitOnce_nil (pattern : List Char) :
    splitOnce pattern [] = if pattern = [] then some ([], []) else none := rfl

theorem splitOnce_cons (pattern : List Char) (c : Char) (cs : List Char) :
    splitOnce pattern (c :: cs) =
      if pattern <+: c :: cs then some ([], (c :: cs).drop pattern.length)
      else (splitOnce pattern cs).map fun r => (c :: r.1, r.2) := rfl

theorem splitOnce_eq_cut (pattern cs : List Char) : splitOnce pattern cs = cut pattern cs := by
  induction cs with
  | nil => rfl
  | cons c cs ih => rw [splitOnce_cons, cut_cons, ih]

theorem eq_of_splitOnce {pattern cs before after : List Char}
    (h : splitOnce pattern cs = some (before, after)) : cs = before ++ pattern ++ after :=
  eq_of_cut (splitOnce_eq_cut pattern cs ▸ h)

theorem splitOnce_eq_none_iff {pattern : List Char} (hne : pattern ≠ []) (cs : List Char) :
    splitOnce pattern cs = none ↔ ¬ pattern <:+: cs := by
  rw [splitOnce_eq_cut, cut_eq_none_iff hne]

theorem splitOnce_cons_of_not_prefix {pattern cs : List Char} {c : Char}
    (h : ¬ pattern <+: c :: cs) :
    splitOnce pattern (c :: cs) = (splitOnce pattern cs).map fun r => (c :: r.1, r.2) := by
  rw [splitOnce_cons, if_neg h]

/-- The pattern is found where it stands. -/
theorem splitOnce_self {x : Char} {p : List Char} (cs : List Char) :
    splitOnce (x :: p) (x :: (p ++ cs)) = some ([], cs) := by
  have hpre : x :: p <+: x :: (p ++ cs) := List.prefix_append (x :: p) cs
  rw [splitOnce_cons, if_pos hpre]
  simp

/-- Text in front that the pattern cannot start in is passed over. -/
theorem splitOnce_append_of_not_mem {x : Char} {p a : List Char} (b : List Char) (hx : x ∉ a) :
    splitOnce (x :: p) (a ++ b) = (splitOnce (x :: p) b).map fun r => (a ++ r.1, r.2) := by
  induction a with
  | nil => simp
  | cons c a ih =>
    rw [List.mem_cons, not_or] at hx
    rw [List.cons_append, splitOnce_cons_of_not_prefix fun h => hx.1 (List.cons_prefix_cons.1 h).1,
      ih hx.2, Option.map_map]
    rfl

/-- So is text in front that the pattern is not in, if the pattern cannot go on behind it. -/
theorem splitOnce_append {x : Char} {p a b : List Char} (ha : ¬ (x :: p) <:+: a)
    (hb : ∀ c ∈ b.head?, c ∉ p) :
    splitOnce (x :: p) (a ++ b) = (splitOnce (x :: p) b).map fun r => (a ++ r.1, r.2) := by
  induction a with
  | nil => simp
  | cons c a ih =>
    rw [List.infix_cons_iff, not_or] at ha
    have hpre : ¬ (x :: p) <+: c :: (a ++ b) := fun h => by
      obtain ⟨rfl, hp⟩ := List.cons_prefix_cons.1 h
      rcases List.prefix_or_prefix_of_prefix hp (List.prefix_append a b) with hpa | ⟨q, rfl⟩
      · exact ha.1 (List.cons_prefix_cons.2 ⟨rfl, hpa⟩)
      · cases q with
        | nil => exact ha.1 (by rw [List.append_nil])
        | cons y q =>
          obtain ⟨rest, rfl⟩ := (List.prefix_append_right_inj a).1 hp
          exact hb y rfl (List.mem_append_right a List.mem_cons_self)
    rw [List.cons_append, splitOnce_cons_of_not_prefix hpre, ih ha.2, Option.map_map]
    rfl

theorem splitOnce_append_self {x : Char} {p a : List Char} (b : List Char) (hx : x ∉ p)
    (ha : ¬ (x :: p) <:+: a) : splitOnce (x :: p) (a ++ x :: (p ++ b)) = some (a, b) := by
  rw [splitOnce_append ha (by simpa using hx), splitOnce_self, Option.map_some, List.append_nil]

/-- What is found first is found first in a longer text, too. -/
theorem splitOnce_append_right {pattern a before after : List Char} (b : List Char)
    (h : splitOnce pattern a = some (before, after)) :
    splitOnce pattern (a ++ b) = some (before, after ++ b) := by
  induction a generalizing before with
  | nil =>
    rw [splitOnce_nil] at h
    split_ifs at h with hnil
    obtain ⟨rfl, rfl⟩ : [] = before ∧ [] = after := by simpa using h
    cases b <;> simp [splitOnce_nil, splitOnce_cons, hnil]
  | cons c cs ih =>
    rw [splitOnce_cons] at h
    split_ifs at h with hpre
    · obtain ⟨rfl, rfl⟩ : [] = before ∧ (c :: cs).drop pattern.length = after := by simpa using h
      have hpre' : pattern <+: c :: (cs ++ b) := hpre.trans (List.prefix_append (c :: cs) b)
      rw [List.cons_append, splitOnce_cons, if_pos hpre', ← List.cons_append,
        List.drop_append_of_le_length hpre.length_le]
    · obtain ⟨⟨b', a'⟩, hr, heq⟩ := Option.map_eq_some_iff.1 h
      obtain ⟨rfl, rfl⟩ : c :: b' = before ∧ a' = after := by simpa using heq
      have hlen := congrArg List.length (eq_of_splitOnce hr)
      have hpre' : ¬ pattern <+: c :: (cs ++ b) := fun hb => by
        refine hpre (List.prefix_of_prefix_length_le hb (List.prefix_append (c :: cs) b) ?_)
        simp only [List.length_append, List.length_cons] at hlen ⊢
        omega
      rw [List.cons_append, splitOnce_cons_of_not_prefix hpre', ih hr, Option.map_some]

example : replace "a.x.b.x." ".x." "yy" = "ayybyy" := by decide

/-- The bytes of some characters. -/
def byteLength (cs : List Char) : ℕ := (cs.map Char.utf8Size).sum

/-- How a loop over a text does not come to a result. -/
inductive Stop
  | outOfFuel
  | panicked
  deriving DecidableEq

/-- The longest prefix of at most `n` bytes. -/
def takeBytes : ℕ → List Char → List Char
  | _, [] => []
  | n, c :: cs => if c.utf8Size ≤ n then c :: takeBytes (n - c.utf8Size) cs else []

@[simp]
theorem takeBytes_nil (n : ℕ) : takeBytes n [] = [] := rfl

theorem takeBytes_cons (n : ℕ) (c : Char) (cs : List Char) : takeBytes n (c :: cs) =
    if c.utf8Size ≤ n then c :: takeBytes (n - c.utf8Size) cs else [] := rfl

/-- `truncate_bytes`: cut at the last character boundary within `maxBytes`. -/
def truncateBytes (s : String) (maxBytes : ℕ) : String :=
  if s.utf8ByteSize ≤ maxBytes then s else String.ofList (takeBytes maxBytes s.toList)

theorem byteLength_append (a b : List Char) :
    byteLength (a ++ b) = byteLength a + byteLength b := by simp [byteLength]

theorem utf8ByteSize_ofList (cs : List Char) : (String.ofList cs).utf8ByteSize = byteLength cs := by
  induction cs with
  | nil => rfl
  | cons c cs ih =>
    have hc : (String.ofList [c]).utf8ByteSize = c.utf8Size := by
      simp [← String.size_toByteArray, List.utf8Encode_singleton]
    rw [← List.singleton_append, String.ofList_append, String.utf8ByteSize_append, hc, ih]
    rfl

theorem byteLength_pos {a : List Char} (h : a ≠ []) : 0 < byteLength a := by
  cases a with
  | nil => exact absurd rfl h
  | cons c a =>
    have := c.utf8Size_pos
    simp only [byteLength, List.map_cons, List.sum_cons]
    omega

theorem length_le_byteLength (cs : List Char) : cs.length ≤ byteLength cs := by
  induction cs with
  | nil => exact Nat.le_refl 0
  | cons c cs ih =>
    have := c.utf8Size_pos
    simp only [byteLength, List.map_cons, List.sum_cons, List.length_cons] at ih ⊢
    omega

theorem byteLength_le_of_isPrefix {a cs : List Char} (h : a <+: cs) :
    byteLength a ≤ byteLength cs := by
  obtain ⟨b, rfl⟩ := h
  rw [byteLength_append]
  exact Nat.le_add_right _ _

theorem eq_of_isPrefix {a cs : List Char} (h : a <+: cs) (hle : byteLength cs ≤ byteLength a) :
    a = cs := by
  obtain ⟨b, rfl⟩ := h
  rw [byteLength_append] at hle
  have hb : b = [] := by
    by_contra hne
    have := byteLength_pos hne
    omega
  rw [hb, List.append_nil]

theorem prefix_of_byteLength_le {a b cs : List Char} (ha : a <+: cs) (hb : b <+: cs)
    (hle : byteLength a ≤ byteLength b) : a <+: b := by
  rcases List.prefix_or_prefix_of_prefix ha hb with hab | hba
  · exact hab
  · rw [eq_of_isPrefix hba hle]

/-- A prefix and a suffix overlap in bytes when they overlap in characters. -/
theorem byteLength_add_le_iff {a b v : List Char} (ha : a <+: v) (hb : b <:+ v) :
    byteLength a + byteLength b ≤ byteLength v ↔ a.length + b.length ≤ v.length := by
  obtain ⟨t, rfl⟩ := ha
  rw [byteLength_append, List.length_append, Nat.add_le_add_iff_left, Nat.add_le_add_iff_left]
  constructor
  · intro hbytes
    by_contra hlen
    obtain ⟨s, rfl⟩ : t <:+ b :=
      List.suffix_of_suffix_length_le (List.suffix_append a t) hb (by omega)
    have hs : s ≠ [] := by
      rintro rfl
      exact hlen le_rfl
    have := byteLength_pos hs
    rw [byteLength_append] at hbytes
    omega
  · intro hlen
    obtain ⟨s, rfl⟩ : b <:+ t :=
      List.suffix_of_suffix_length_le hb (List.suffix_append a t) (by omega)
    rw [byteLength_append]
    omega

theorem takeBytes_isPrefix (n : ℕ) (cs : List Char) : takeBytes n cs <+: cs := by
  induction cs generalizing n with
  | nil => exact List.prefix_refl []
  | cons c cs ih =>
    rw [takeBytes_cons]
    split_ifs
    · exact (List.prefix_cons_inj c).2 (ih _)
    · exact List.nil_prefix

theorem byteLength_takeBytes_le (n : ℕ) (cs : List Char) : byteLength (takeBytes n cs) ≤ n := by
  induction cs generalizing n with
  | nil => exact Nat.zero_le n
  | cons c cs ih =>
    rw [takeBytes_cons]
    split_ifs with hc
    · have := ih (n - c.utf8Size)
      simp only [byteLength, List.map_cons, List.sum_cons] at this ⊢
      omega
    · exact Nat.zero_le n

theorem takeBytes_zero (cs : List Char) : takeBytes 0 cs = [] := by
  cases cs with
  | nil => rfl
  | cons c cs => exact if_neg (Nat.not_le.2 c.utf8Size_pos)

theorem takeBytes_append (a b : List Char) (n : ℕ) :
    takeBytes (byteLength a + n) (a ++ b) = a ++ takeBytes n b := by
  induction a with
  | nil => simp [byteLength]
  | cons c a ih =>
    have hlen : byteLength (c :: a) + n = c.utf8Size + (byteLength a + n) := by
      simp only [byteLength, List.map_cons, List.sum_cons]
      omega
    rw [hlen, List.cons_append, takeBytes_cons, if_pos (Nat.le_add_right _ _),
      Nat.add_sub_cancel_left, ih, List.cons_append]

/-- With fewer bytes, but not less than were taken, the same is taken. -/
theorem takeBytes_eq_of_le {m n : ℕ} {cs : List Char} (hle : m ≤ n)
    (h : byteLength (takeBytes n cs) ≤ m) : takeBytes m cs = takeBytes n cs := by
  induction cs generalizing m n with
  | nil => rfl
  | cons c cs ih =>
    rw [takeBytes_cons] at h
    rw [takeBytes_cons, takeBytes_cons]
    by_cases hc : c.utf8Size ≤ n
    · rw [if_pos hc] at h ⊢
      have htaken : c.utf8Size + byteLength (takeBytes (n - c.utf8Size) cs) ≤ m := h
      rw [if_pos (by omega), ih (show m - c.utf8Size ≤ n - c.utf8Size by omega) (by omega)]
    · rw [if_neg hc, if_neg (by omega)]

theorem takeBytes_of_isPrefix {a cs : List Char} (h : a <+: cs) :
    takeBytes (byteLength a) cs = a := by
  obtain ⟨b, rfl⟩ := h
  have htake := takeBytes_append a b 0
  rwa [Nat.add_zero, takeBytes_zero, List.append_nil] at htake

theorem takeBytes_of_le {n : ℕ} {cs : List Char} (h : byteLength cs ≤ n) : takeBytes n cs = cs := by
  have htake := takeBytes_append cs [] (n - byteLength cs)
  rwa [Nat.add_sub_cancel' h, takeBytes_nil, List.append_nil] at htake

/-- The text from the last character boundary within `n` bytes on: `s[floor_char_boundary(s, n)..]`
(`floor_char_boundary`). -/
def dropBytes (n : ℕ) (cs : List Char) : List Char := cs.drop (takeBytes n cs).length

theorem dropBytes_suffix (n : ℕ) (cs : List Char) : dropBytes n cs <:+ cs := List.drop_suffix ..

theorem takeBytes_append_dropBytes (n : ℕ) (cs : List Char) :
    takeBytes n cs ++ dropBytes n cs = cs := by
  conv_rhs => rw [← List.take_append_drop (takeBytes n cs).length cs,
    ← List.prefix_iff_eq_take.1 (takeBytes_isPrefix n cs)]
  rfl

theorem le_byteLength_dropBytes (n : ℕ) (cs : List Char) :
    byteLength cs ≤ n + byteLength (dropBytes n cs) := by
  have hlen := congrArg byteLength (takeBytes_append_dropBytes n cs)
  rw [byteLength_append] at hlen
  have := byteLength_takeBytes_le n cs
  omega

/-- What stands before the boundary is three bytes short of it at most. -/
theorem le_byteLength_takeBytes {n : ℕ} {cs : List Char} (h : n ≤ byteLength cs) :
    n ≤ byteLength (takeBytes n cs) + 3 := by
  induction cs generalizing n with
  | nil =>
    rw [Nat.le_zero.1 h]
    exact Nat.zero_le _
  | cons c cs ih =>
    simp only [byteLength, List.map_cons, List.sum_cons] at h
    rw [takeBytes_cons]
    split_ifs with hc
    · have := ih (n := n - c.utf8Size) (by simp only [byteLength]; omega)
      simp only [byteLength, List.map_cons, List.sum_cons] at this ⊢
      omega
    · have := c.utf8Size_le_four
      omega

theorem byteLength_dropBytes_le {n : ℕ} {cs : List Char} (h : n ≤ byteLength cs) :
    byteLength (dropBytes n cs) + n ≤ byteLength cs + 3 := by
  have hlen := congrArg byteLength (takeBytes_append_dropBytes n cs)
  rw [byteLength_append] at hlen
  have := le_byteLength_takeBytes h
  omega

/-- A boundary behind a character of one byte. -/
theorem dropBytes_succ_cons {c : Char} (hc : c.utf8Size = 1) (n : ℕ) (cs : List Char) :
    dropBytes (n + 1) (c :: cs) = dropBytes n cs := by
  have htake : takeBytes (n + 1) (c :: cs) = c :: takeBytes n cs := by
    rw [takeBytes_cons, if_pos (by omega), hc, Nat.add_sub_cancel]
  rw [dropBytes, htake]
  rfl

/-! ### The number of characters -/

/-- The number of Unicode scalar values. -/
def scalarCount : ℕ := 0x110000 - 0x800

/-- The `i`-th scalar value, with the surrogates left out. -/
def nthScalar (i : ℕ) : Char := Char.ofNat (if i < 0xD800 then i else i + 0x800)

theorem nthScalar_toNat {i : ℕ} (hi : i < scalarCount) :
    (nthScalar i).toNat = if i < 0xD800 then i else i + 0x800 := by
  unfold scalarCount at hi
  have hvalid : (if i < 0xD800 then i else i + 0x800).isValidChar := by
    unfold Nat.isValidChar
    split <;> omega
  rw [nthScalar, Char.ofNat, dif_pos hvalid]
  rfl

theorem exists_char_not_mem {l : List Char} (h : l.length < scalarCount) : ∃ c, c ∉ l := by
  by_contra hall
  have hinj : Set.InjOn nthScalar (Finset.range scalarCount) := by
    intro i hi j hj hij
    have hi' := nthScalar_toNat (Finset.mem_range.1 hi)
    have hj' := nthScalar_toNat (Finset.mem_range.1 hj)
    rw [hij, hj'] at hi'
    split at hi' <;> split at hi' <;> omega
  have hcard := Finset.card_image_of_injOn hinj
  have hsub : (Finset.range scalarCount).image nthScalar ⊆ l.toFinset := by
    intro c _
    simpa using not_not.1 (not_exists.1 hall c)
  have := (Finset.card_le_card hsub).trans (List.toFinset_card_le l)
  rw [hcard, Finset.card_range] at this
  omega

end Text
end RustyHand
