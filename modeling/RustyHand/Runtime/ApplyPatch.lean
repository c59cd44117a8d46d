import RustyHand.Lib.Lines
import RustyHand.Lib.Splicing
import RustyHand.Types.Text

/-!
# Patches

`apply_hunks` of `rusty-hand-runtime/src/apply_patch.rs` with `find_anchor` and
`find_anchor_fuzzy`.  Contents are lists of characters.

* `Hunk`, `findAnchor`, `findAnchorFuzzy`, `Hunk.locate`: where a hunk is applied;
* `applyLines`, `applyHunks`: the function;
* `Labelled`, `track`: the same with a label on every line, which says where the line is from;
* `map_track`: the labels change nothing.
-/

namespace RustyHand
namespace ApplyPatch

open LineEnds Splicing Text

/-- The text of a line, without its end. -/
abbrev LineText : Type := List Char

/-- `Hunk`. -/
structure Hunk where
  contextBefore : List LineText := []
  oldLines : List LineText := []
  newLines : List LineText := []
  contextAfter : List LineText := []

/-! ### Anchors -/

/-- `str::trim_end`. -/
def trimEnd (line : LineText) : LineText := line.rdropWhile isWhitespace

/-- Do the lines begin with those of the anchor? -/
def agrees (same : LineText → LineText → Bool) : List LineText → List LineText → Bool
  | [], _ => true
  | _ :: _, [] => false
  | expected :: anchor, line :: lines => same line expected && agrees same anchor lines

/-- The first place where the lines agree with the anchor. -/
def findBy (same : LineText → LineText → Bool) (lines anchor : List LineText) : Option ℕ :=
  if anchor = [] then some lines.length
  else if lines.length < anchor.length then none
  else (List.range (lines.length - anchor.length + 1)).find? fun start =>
    agrees same anchor (lines.drop start)

/-- `find_anchor`. -/
def findAnchor : List LineText → List LineText → Option ℕ :=
  findBy fun line expected => line = expected

/-- `find_anchor_fuzzy`: white space at the end of a line does not count. -/
def findAnchorFuzzy : List LineText → List LineText → Option ℕ :=
  findBy fun line expected => trimEnd line = trimEnd expected

namespace Hunk

variable (hunk : Hunk)

/-- The lines that go. -/
def core : List LineText := hunk.contextBefore ++ hunk.oldLines

/-- The lines that come. -/
def replacement : List LineText := hunk.contextBefore ++ hunk.newLines

/-- Where the hunk is applied. -/
def locate (lines : List LineText) : Option ℕ :=
  if hunk.contextBefore = [] ∧ hunk.oldLines = [] then
    if hunk.contextAfter = [] then some lines.length
    else (findAnchor lines hunk.contextAfter).or (findAnchorFuzzy lines hunk.contextAfter)
  else if hunk.contextAfter = [] then
    (findAnchor lines hunk.core).or (findAnchorFuzzy lines hunk.core)
  else
    let full := hunk.core ++ hunk.contextAfter
    (((findAnchor lines full).or (findAnchorFuzzy lines full)).or (findAnchor lines hunk.core)).or
      (findAnchorFuzzy lines hunk.core)

/-- The error of a hunk that is not found. -/
def failure (hunkIdx : ℕ) : String :=
  "Hunk " ++ toString (hunkIdx + 1) ++ " failed: could not find " ++
    (if hunk.contextBefore = [] ∧ hunk.oldLines = [] then "insertion context"
      else "context/old lines") ++ " in file"

end Hunk

/-! ### The function -/

/-- The loop over the hunks: `lines.splice(pos..pos + remove_count, replacement)`. -/
def applyLines : ℕ → List Hunk → List LineText → Except String (List LineText)
  | _, [], lines => .ok lines
  | hunkIdx, hunk :: hunks, lines =>
    match hunk.locate lines with
    | none => .error (hunk.failure hunkIdx)
    | some pos =>
      applyLines (hunkIdx + 1) hunks (splice lines pos hunk.core.length hunk.replacement)

/-- `newline`. -/
def newline (content : List Char) : End := if ['\r', '\n'] <:+: content then .crlf else .lf

/-- `trailing_newline`. -/
def trailingNewline (content : List Char) : Bool := content.getLast? = some '\n'

/-- The lines joined, with a newline at the end if the content has one. -/
def render (content : List Char) (lines : List LineText) : List Char :=
  let result := (newline content).chars.intercalate lines
  if trailingNewline content ∧ result.getLast? ≠ some '\n' then result ++ (newline content).chars
  else result

/-- `content.lines()`. -/
def lines (content : List Char) : List LineText := (splitLines content).map Line.text

/-- `apply_hunks`. -/
def applyHunks (content : List Char) (hunks : List Hunk) : Except String (List Char) :=
  (applyLines 0 hunks (lines content)).map (render content)

/-! ### Labels -/

/-- A line with a label. -/
structure Labelled (τ : Type*) where
  text : LineText
  label : τ
  deriving DecidableEq

section Track

variable {τ : Type*} (label : ℕ → ℕ → τ)

/-- The lines that come with a hunk, with their labels. -/
def inserted (hunkIdx : ℕ) (hunk : Hunk) : List (Labelled τ) :=
  hunk.replacement.zipIdx.map fun entry => ⟨entry.1, label hunkIdx entry.2⟩

/-- The loop over the hunks, with labels. -/
def track : ℕ → List Hunk → List (Labelled τ) → Except String (List (Labelled τ))
  | _, [], ls => .ok ls
  | hunkIdx, hunk :: hunks, ls =>
    match hunk.locate (ls.map Labelled.text) with
    | none => .error (hunk.failure hunkIdx)
    | some pos =>
      track (hunkIdx + 1) hunks (splice ls pos hunk.core.length (inserted label hunkIdx hunk))

variable {label}

theorem map_inserted (hunkIdx : ℕ) (hunk : Hunk) :
    (inserted label hunkIdx hunk).map Labelled.text = hunk.replacement := by
  rw [inserted, List.map_map]
  exact List.zipIdx_map_fst _ _

/-- The labels change nothing. -/
theorem map_track (hunkIdx : ℕ) (hunks : List Hunk) (ls : List (Labelled τ)) :
    (track label hunkIdx hunks ls).map (List.map Labelled.text) =
      applyLines hunkIdx hunks (ls.map Labelled.text) := by
  induction hunks generalizing hunkIdx ls with
  | nil => rfl
  | cons hunk hunks ih =>
    rw [track, applyLines]
    cases hunk.locate (ls.map Labelled.text) with
    | none => rfl
    | some pos =>
      dsimp only
      rw [ih, map_splice, map_inserted]

end Track

/-! ### Where an anchor is -/

variable {same : LineText → LineText → Bool} {fileLines anchor : List LineText} {pos : ℕ}
  {hunk : Hunk}

theorem findBy_le (h : findBy same fileLines anchor = some pos) :
    pos + anchor.length ≤ fileLines.length := by
  unfold findBy at h
  split_ifs at h with hnil hlen
  · rw [hnil, ← Option.some.inj h]
    exact le_rfl
  · have := List.mem_range.1 (List.mem_of_find?_eq_some h)
    omega

theorem or_le {a b : Option ℕ} {n : ℕ} (h : a.or b = some pos)
    (ha : a = some pos → pos + n ≤ fileLines.length)
    (hb : b = some pos → pos + n ≤ fileLines.length) : pos + n ≤ fileLines.length := by
  rcases Option.or_eq_some_iff.1 h with h | ⟨-, h⟩
  · exact ha h
  · exact hb h

theorem locate_le (h : hunk.locate fileLines = some pos) :
    pos + hunk.core.length ≤ fileLines.length := by
  have hcore : ∀ same, findBy same fileLines hunk.core = some pos →
      pos + hunk.core.length ≤ fileLines.length := fun same => findBy_le
  have hfull : ∀ same, findBy same fileLines (hunk.core ++ hunk.contextAfter) = some pos →
      pos + hunk.core.length ≤ fileLines.length := fun same h => by
    have := findBy_le h
    rw [List.length_append] at this
    omega
  unfold Hunk.locate at h
  split_ifs at h with hpure hafter hafter
  · rw [Hunk.core, hpure.1, hpure.2, ← Option.some.inj h]
    exact le_rfl
  · have hnone : hunk.core.length = 0 := by rw [Hunk.core, hpure.1, hpure.2]; rfl
    have hle : ∀ same, findBy same fileLines hunk.contextAfter = some pos →
        pos + hunk.core.length ≤ fileLines.length := fun same h => by
      have := findBy_le h
      omega
    exact or_le h (hle _) (hle _)
  · exact or_le h (hcore _) (hcore _)
  · exact or_le h (fun h => or_le h (fun h => or_le h (hfull _) (hfull _)) (hcore _)) (hcore _)

end ApplyPatch
end RustyHand
