import Mathlib.Data.Nat.Find
import RustyHand.Runtime.ApplyPatch

/-!
# Several hunks of a patch

Each hunk is searched for in the text that those before it have left.

* `StandsOnce`, `Placed`: hunks whose lines stand once in the file, in order and apart;
* `Source`: where a line of the result is from;
* `FoundAtWindows`: each hunk is found at its own lines, in the file with the windows before it
  replaced;
* `applyHunks_simultaneous`: then all windows are replaced at once, and only then if this is to hold
  for the first hunks too, however many, and for the sources of the lines.
-/

namespace RustyHand
namespace PatchWindows

open LineEnds Splicing ApplyPatch

/-! ### Hunks and their windows -/

/-- The lines stand at a place of the file. -/
def StandsAt (fileLines anchor : List LineText) (pos : ℕ) : Prop :=
  pos ≤ fileLines.length ∧ anchor <+: fileLines.drop pos

/-- The lines stand there, and nowhere else. -/
def StandsOnce (fileLines anchor : List LineText) (pos : ℕ) : Prop :=
  StandsAt fileLines anchor pos ∧ ∀ i, StandsAt fileLines anchor i → i = pos

/-- Hunks with the places of their lines, each of which stands once in the file; the windows are in
the order of the hunks, and apart. -/
structure Placed (fileLines : List LineText) (placed : List (Hunk × ℕ)) : Prop where
  once : ∀ p ∈ placed, StandsOnce fileLines p.1.core p.2
  apart : placed.Pairwise fun p q => p.2 + p.1.core.length ≤ q.2

/-- Where a line is from. -/
inductive Source
  | file (i : ℕ)
  | hunk (hunkIdx i : ℕ)

/-- The windows, with what replaces them. -/
def edits {α : Type*} (new : ℕ → Hunk → List α) : ℕ → List (Hunk × ℕ) → List (Edit α)
  | _, [] => []
  | hunkIdx, (hunk, pos) :: placed =>
    ⟨pos, hunk.core.length, new hunkIdx hunk⟩ :: edits new (hunkIdx + 1) placed

/-- The lines of the file, with their places. -/
def numbered (fileLines : List LineText) : List (Labelled Source) :=
  fileLines.zipIdx.map fun entry => ⟨entry.1, .file entry.2⟩

/-- All windows are replaced at once. -/
def replaced (fileLines : List LineText) (placed : List (Hunk × ℕ)) : List LineText :=
  simultaneous 0 (edits (fun _ hunk => hunk.replacement) 0 placed) fileLines

/-- The same, with the sources of the lines. -/
def replacedFrom (fileLines : List LineText) (placed : List (Hunk × ℕ)) : List (Labelled Source) :=
  simultaneous 0 (edits (inserted Source.hunk) 0 placed) (numbered fileLines)

/-- Each hunk is found at its window, in the file with the windows before it replaced (`done` stands
for the lines before `start`); or it changes nothing. -/
def FoundAtWindows (fileLines : List LineText) :
    List LineText → ℕ → List (Hunk × ℕ) → Prop
  | _, _, [] => True
  | done, start, (hunk, pos) :: placed =>
    (∃ p, hunk.locate (done ++ fileLines.drop start) = some p ∧
      (p = done.length + (pos - start) ∨ hunk.core.length = 0 ∧ hunk.replacement = [])) ∧
    FoundAtWindows fileLines
      (done ++ (fileLines.drop start).take (pos - start) ++ hunk.replacement)
      (pos + hunk.core.length) placed

variable {fileLines : List LineText} {placed : List (Hunk × ℕ)} {hunk : Hunk}
  {pos start hunkIdx : ℕ}

instance (fileLines anchor : List LineText) : DecidablePred (StandsAt fileLines anchor) :=
  fun _ => inferInstanceAs (Decidable (_ ∧ _))

theorem standsOnce_iff {anchor : List LineText} :
    StandsOnce fileLines anchor pos ↔
      StandsAt fileLines anchor pos ∧
        ∀ i ≤ fileLines.length, StandsAt fileLines anchor i → i = pos :=
  and_congr_right fun _ => ⟨fun h i _ => h i, fun h i hat => h i hat.1 hat⟩

instance (fileLines anchor : List LineText) : DecidablePred (StandsOnce fileLines anchor) :=
  fun _ => decidable_of_iff _ standsOnce_iff.symm

theorem placed_iff :
    Placed fileLines placed ↔
      (∀ p ∈ placed, StandsOnce fileLines p.1.core p.2) ∧
        placed.Pairwise fun p q => p.2 + p.1.core.length ≤ q.2 :=
  ⟨fun h => ⟨h.once, h.apart⟩, fun h => ⟨h.1, h.2⟩⟩

instance (fileLines : List LineText) : DecidablePred (Placed fileLines) :=
  fun _ => decidable_of_iff _ placed_iff.symm

theorem map_text_numbered (fileLines : List LineText) :
    (numbered fileLines).map Labelled.text = fileLines := by
  rw [numbered, List.map_map]
  exact List.zipIdx_map_fst _ _

theorem map_edits (hunkIdx : ℕ) (placed : List (Hunk × ℕ)) :
    (edits (inserted Source.hunk) hunkIdx placed).map (Edit.map Labelled.text) =
      edits (fun _ hunk => hunk.replacement) hunkIdx placed := by
  induction placed generalizing hunkIdx with
  | nil => rfl
  | cons p placed ih =>
    rw [edits, edits, List.map_cons, ih, Edit.map, map_inserted]

theorem map_text_replacedFrom (fileLines : List LineText) (placed : List (Hunk × ℕ)) :
    (replacedFrom fileLines placed).map Labelled.text = replaced fileLines placed := by
  rw [replacedFrom, map_simultaneous, map_edits, map_text_numbered, replaced]

/-! ### One hunk after the other -/

/-- The lines that stand, where each has a source of its own, and no hunk from here on is one. -/
structure Sourced (hunkIdx : ℕ) (ls : List (Labelled Source)) : Prop where
  nodup : ls.Nodup
  before : ∀ l ∈ ls, ∀ k i, l.label = .hunk k i → k < hunkIdx

theorem mem_inserted {l : Labelled Source} (h : l ∈ inserted Source.hunk hunkIdx hunk) :
    ∃ i, l.label = .hunk hunkIdx i := by
  obtain ⟨entry, -, rfl⟩ := List.mem_map.1 h
  exact ⟨entry.2, rfl⟩

/-- Lines that are labelled by their places are all different. -/
theorem nodup_labelled {f : ℕ → Source} (hf : f.Injective) (ls : List LineText) :
    (ls.zipIdx.map fun entry => (⟨entry.1, f entry.2⟩ : Labelled Source)).Nodup := by
  have hplaces : (ls.zipIdx.map Prod.snd).Nodup := by
    rw [List.zipIdx_map_snd]
    exact List.nodup_range'
  refine List.Nodup.of_map Labelled.label ?_
  rw [List.map_map]
  have hlabel : (Labelled.label ∘ fun entry : LineText × ℕ =>
      (⟨entry.1, f entry.2⟩ : Labelled Source)) = f ∘ Prod.snd := rfl
  rw [hlabel, ← List.map_map]
  exact hplaces.map hf

theorem nodup_inserted (hunkIdx : ℕ) (hunk : Hunk) : (inserted Source.hunk hunkIdx hunk).Nodup :=
  nodup_labelled (fun _ _ h => (Source.hunk.inj h).2) hunk.replacement

theorem nodup_append_inserted {ls : List (Labelled Source)} (h : Sourced hunkIdx ls) (hunk : Hunk) :
    (ls ++ inserted Source.hunk hunkIdx hunk).Nodup := by
  refine List.nodup_append.2 ⟨h.nodup, nodup_inserted hunkIdx hunk, ?_⟩
  rintro l hl l' hl' rfl
  obtain ⟨i, hlabel⟩ := mem_inserted hl'
  exact absurd (h.before l hl _ i hlabel) (Nat.lt_irrefl _)

theorem Sourced.splice {ls : List (Labelled Source)} (h : Sourced hunkIdx ls) (hunk : Hunk)
    (p count : ℕ) :
    Sourced (hunkIdx + 1) (Splicing.splice ls p count (inserted Source.hunk hunkIdx hunk)) := by
  refine ⟨nodup_splice (nodup_append_inserted h hunk) p count, fun l hl k i hlabel => ?_⟩
  rcases mem_splice hl with hl | hl
  · exact Nat.lt_succ_of_lt (h.before l hl k i hlabel)
  · obtain ⟨j, hlabel'⟩ := mem_inserted hl
    rw [hlabel] at hlabel'
    exact (Source.hunk.inj hlabel').1 ▸ Nat.lt_succ_self _

theorem sourced_numbered (fileLines : List LineText) : Sourced 0 (numbered fileLines) := by
  refine ⟨nodup_labelled (fun _ _ h => Source.file.inj h) fileLines, fun l hl k i hlabel => ?_⟩
  obtain ⟨entry, -, rfl⟩ := List.mem_map.1 hl
  cases hlabel

theorem inserted_eq_nil_iff : inserted Source.hunk hunkIdx hunk = [] ↔ hunk.replacement = [] := by
  rw [inserted, List.map_eq_nil_iff, List.zipIdx_eq_nil_iff]

theorem length_numbered (fileLines : List LineText) :
    (numbered fileLines).length = fileLines.length := by
  rw [numbered, List.length_map, List.length_zipIdx]

theorem map_text_rest (done : List (Labelled Source)) (start : ℕ) :
    (done ++ (numbered fileLines).drop start).map Labelled.text =
      done.map Labelled.text ++ fileLines.drop start := by
  rw [List.map_append, List.map_drop, map_text_numbered]

theorem map_text_next (done : List (Labelled Source)) :
    (done ++ ((numbered fileLines).drop start).take (pos - start) ++
      inserted Source.hunk hunkIdx hunk).map Labelled.text =
    done.map Labelled.text ++ (fileLines.drop start).take (pos - start) ++ hunk.replacement := by
  rw [List.map_append, List.map_append, List.map_take, List.map_drop, map_text_numbered,
    map_inserted]

theorem append_simultaneous_cons (done : List (Labelled Source)) :
    done ++ simultaneous start (edits (inserted Source.hunk) hunkIdx ((hunk, pos) :: placed))
        (numbered fileLines) =
      done ++ ((numbered fileLines).drop start).take (pos - start) ++
          inserted Source.hunk hunkIdx hunk ++
        simultaneous (pos + hunk.core.length) (edits (inserted Source.hunk) (hunkIdx + 1) placed)
          (numbered fileLines) := by
  rw [edits, simultaneous]
  simp only [List.append_assoc]

/-- The place where a hunk is found can be seen from the lines that it leaves. -/
theorem splice_eq_window_iff {done : List (Labelled Source)} {p : ℕ}
    (hsourced : Sourced hunkIdx (done ++ (numbered fileLines).drop start)) (hpos : start ≤ pos)
    (hle : pos + hunk.core.length ≤ fileLines.length)
    (hp : hunk.locate (done.map Labelled.text ++ fileLines.drop start) = some p) :
    splice (done ++ (numbered fileLines).drop start) p hunk.core.length
        (inserted Source.hunk hunkIdx hunk) =
      splice (done ++ (numbered fileLines).drop start) (done.length + (pos - start))
        hunk.core.length (inserted Source.hunk hunkIdx hunk) ↔
    p = done.length + (pos - start) ∨ hunk.core.length = 0 ∧ hunk.replacement = [] := by
  rw [← map_text_rest] at hp
  have hfits := locate_le hp
  rw [List.length_map] at hfits
  rw [splice_eq_splice_iff (nodup_append_inserted hsourced hunk) hfits, inserted_eq_nil_iff]
  rw [List.length_append, List.length_drop, length_numbered]
  omega

/-- From one hunk on: the windows are replaced at once, for any number of hunks, exactly if each is
found at its own. -/
theorem track_eq_iff {done : List (Labelled Source)}
    (hsourced : Sourced hunkIdx (done ++ (numbered fileLines).drop start))
    (horder : InOrder fileLines.length start (edits (inserted Source.hunk) hunkIdx placed)) :
    (∀ n, track Source.hunk hunkIdx ((placed.take n).map Prod.fst)
        (done ++ (numbered fileLines).drop start) =
      .ok (done ++ simultaneous start (edits (inserted Source.hunk) hunkIdx (placed.take n))
        (numbered fileLines))) ↔
      FoundAtWindows fileLines (done.map Labelled.text) start placed := by
  induction placed generalizing hunkIdx start done with
  | nil => exact iff_of_true (fun n => by rw [List.take_nil]; rfl) trivial
  | cons p placed ih =>
    obtain ⟨hunk, pos⟩ := p
    obtain ⟨hpos, hle, horder⟩ := horder
    replace hpos : start ≤ pos := hpos
    have hnext := @splice_next _ (inserted Source.hunk hunkIdx hunk) pos hunk.core.length start done
      (numbered fileLines) hpos
    have hstate := hsourced.splice hunk (done.length + (pos - start)) hunk.core.length
    rw [hnext] at hstate
    rw [FoundAtWindows, ← map_text_next, ← ih hstate horder, List.length_map]
    constructor
    · intro h
      have hone := h 1
      rw [List.take_succ_cons, List.take_zero, List.map_cons, track, map_text_rest] at hone
      cases hp : hunk.locate (done.map Labelled.text ++ fileLines.drop start) with
      | none =>
        rw [hp] at hone
        cases hone
      | some p =>
        rw [hp] at hone
        have hsplice : splice (done ++ (numbered fileLines).drop start) p hunk.core.length
            (inserted Source.hunk hunkIdx hunk) =
          splice (done ++ (numbered fileLines).drop start) (done.length + (pos - start))
            hunk.core.length (inserted Source.hunk hunkIdx hunk) := by
          rw [hnext]
          exact (Except.ok.inj hone).trans (append_simultaneous_cons done)
        refine ⟨⟨p, rfl, (splice_eq_window_iff hsourced hpos hle hp).1 hsplice⟩, fun n => ?_⟩
        have hn := h (n + 1)
        rw [List.take_succ_cons, List.map_cons, track, map_text_rest, hp] at hn
        dsimp only at hn
        rwa [hsplice, hnext, append_simultaneous_cons] at hn
    · rintro ⟨⟨p, hp, hat⟩, h⟩ n
      cases n with
      | zero => rfl
      | succ n =>
        rw [List.take_succ_cons, List.map_cons, track, map_text_rest, hp]
        dsimp only
        rw [(splice_eq_window_iff hsourced hpos hle hp).2 hat, hnext, h n,
          append_simultaneous_cons]

/-! ### All hunks -/

theorem inOrder_edits {n : ℕ} (hstart : start ≤ n) (hfrom : ∀ p ∈ placed, start ≤ p.2)
    (hfits : ∀ p ∈ placed, p.2 + p.1.core.length ≤ n)
    (hapart : placed.Pairwise fun p q => p.2 + p.1.core.length ≤ q.2) (hunkIdx : ℕ) :
    InOrder n start (edits (inserted Source.hunk) hunkIdx placed) := by
  induction placed generalizing hunkIdx start with
  | nil => exact hstart
  | cons p placed ih =>
    obtain ⟨hp, hfits⟩ := List.forall_mem_cons.1 hfits
    obtain ⟨hbefore, hapart⟩ := List.pairwise_cons.1 hapart
    exact ⟨hfrom p List.mem_cons_self, hp, ih hp hbefore hfits hapart _⟩

theorem StandsAt.le {anchor : List LineText} (h : StandsAt fileLines anchor pos) :
    pos + anchor.length ≤ fileLines.length := by
  have hlength := h.2.length_le
  rw [List.length_drop] at hlength
  have := h.1
  omega

theorem Placed.inOrder (h : Placed fileLines placed) :
    InOrder fileLines.length 0 (edits (inserted Source.hunk) 0 placed) :=
  inOrder_edits (Nat.zero_le _) (fun _ _ => Nat.zero_le _) (fun p hp => (h.once p hp).1.le)
    h.apart 0

/-- If each hunk is found at its window, in the text that those before it have left, then all
windows are replaced at once.  The first hunks, however many, replace their windows at once by lines
from the right sources only then. -/
theorem applyHunks_simultaneous {content : List Char} (h : Placed (lines content) placed) :
    (FoundAtWindows (lines content) [] 0 placed →
      applyHunks content (placed.map Prod.fst) =
        .ok (render content (replaced (lines content) placed))) ∧
    ((∀ n, track Source.hunk 0 ((placed.take n).map Prod.fst) (numbered (lines content)) =
        .ok (replacedFrom (lines content) (placed.take n))) ↔
      FoundAtWindows (lines content) [] 0 placed) := by
  have hiff := @track_eq_iff (lines content) placed 0 0 []
    (by rw [List.nil_append, List.drop_zero]; exact sourced_numbered _) h.inOrder
  simp only [List.nil_append, List.drop_zero, List.map_nil] at hiff
  refine ⟨fun hfound => ?_, hiff⟩
  have hall := hiff.2 hfound placed.length
  rw [List.take_length] at hall
  have hmap := @map_track _ Source.hunk 0 (placed.map Prod.fst) (numbered (lines content))
  rw [hall, map_text_numbered] at hmap
  rw [applyHunks, ← hmap, Except.map, Except.map, ← map_text_replacedFrom]
  rfl

/-- Two lines of three are replaced. -/
theorem applyHunks_simultaneous_two :
    applyHunks "x\ny\nz\n".toList
        [⟨[], ["x".toList], ["p".toList, "q".toList], []⟩, ⟨["y".toList], ["z".toList], [], []⟩] =
      .ok "p\nq\ny\n".toList := by
  have hplaced : Placed (lines "x\ny\nz\n".toList)
      [(⟨[], ["x".toList], ["p".toList, "q".toList], []⟩, 0),
        (⟨["y".toList], ["z".toList], [], []⟩, 1)] := by decide
  have hrun := (applyHunks_simultaneous hplaced).1
    ⟨⟨0, by decide, .inl rfl⟩, ⟨2, by decide, .inl rfl⟩, trivial⟩
  rw [List.map_cons, List.map_cons, List.map_nil] at hrun
  rw [hrun]
  decide

/-- A line that the first hunk puts in is taken for that of the second. -/
theorem applyHunks_inserted_line :
    ¬ ∀ (content : List Char) (placed : List (Hunk × ℕ)), Placed (lines content) placed →
      applyHunks content (placed.map Prod.fst) =
        .ok (render content (replaced (lines content) placed)) := by
  intro h
  have hrun := h "x\ny\n".toList
    [(⟨[], ["x".toList], ["y".toList, "q".toList], []⟩, 0),
      (⟨[], ["y".toList], ["z".toList], []⟩, 1)] (by decide)
  exact absurd hrun (by decide)

/-! ### Hunks without trailing context -/

end PatchWindows
end RustyHand
