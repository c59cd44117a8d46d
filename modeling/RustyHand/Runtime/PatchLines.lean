import RustyHand.Runtime.ApplyPatch

/-!
# What a patch leaves of a file

The lines that no hunk replaces, with their ends.

* `original`, `fromHunk`: a line of the file is labelled with its end;
* `render_eq`: the ends that are written;
* `Preserves`: the lines outside of the windows keep their bytes and their ends, and the file ends
  with the same line ends if its last text stays at the end;
* `Restores`, `applyHunks_preserves_iff`: when this is so.
-/

namespace RustyHand
namespace PatchLines

open LineEnds Splicing ApplyPatch

/-- A line of the file, with its end as the label. -/
def labelled (l : Line) : Labelled (Option End) := ⟨l.text, some l.stop⟩

/-- The lines of the file. -/
def original (content : List Char) : List (Labelled (Option End)) :=
  (splitLines content).map labelled

/-- The label of a line that a hunk brings. -/
def fromHunk (_ _ : ℕ) : Option End := none

variable {content result : List Char} {hunks : List Hunk} {tracked : List (Labelled (Option End))}

theorem map_text_original (content : List Char) :
    (original content).map Labelled.text = lines content := by
  rw [original, List.map_map]
  rfl

theorem exists_tracked (h : applyHunks content hunks = .ok result) :
    ∃ tracked, track fromHunk 0 hunks (original content) = .ok tracked ∧
      result = render content (tracked.map Labelled.text) := by
  have hmap := @map_track _ fromHunk 0 hunks (original content)
  rw [map_text_original] at hmap
  rw [applyHunks, ← hmap] at h
  cases htrack : track fromHunk 0 hunks (original content) with
  | error e =>
    rw [htrack] at h
    cases h
  | ok tracked =>
    rw [htrack] at h
    exact ⟨tracked, rfl, (Except.ok.inj h).symm⟩

/-- A line with an end for its label is a line of the file. -/
theorem mem_of_track {hunkIdx : ℕ} {ls : List (Labelled (Option End))}
    (h : track fromHunk hunkIdx hunks ls = .ok tracked) {l : Labelled (Option End)}
    (hl : l ∈ tracked) (hlabel : l.label ≠ none) : l ∈ ls := by
  induction hunks generalizing hunkIdx ls with
  | nil => exact Except.ok.inj h ▸ hl
  | cons hunk hunks ih =>
    rw [track] at h
    cases hpos : hunk.locate (ls.map Labelled.text) with
    | none =>
      rw [hpos] at h
      cases h
    | some pos =>
      rw [hpos] at h
      rcases mem_splice (ih h) with hmem | hmem
      · exact hmem
      · obtain ⟨entry, -, rfl⟩ := List.mem_map.1 hmem
        exact absurd rfl hlabel

/-! ### What is written -/

/-- Lines with the same end, and a last one. -/
def withEnds (mid last : End) (init : List LineText) (t : LineText) : List Line :=
  init.map (fun text => ⟨text, mid⟩) ++ [⟨t, last⟩]

theorem joinLines_withEnds (mid last : End) (init : List LineText) (t : LineText) :
    joinLines (withEnds mid last init t) =
      mid.chars.intercalate (init ++ [t]) ++ last.chars := by
  induction init with
  | nil => simp [withEnds, Line.chars]
  | cons text init ih =>
    have hne : init ++ [t] ≠ [] := by simp
    rw [withEnds] at ih ⊢
    rw [List.map_cons, List.cons_append, joinLines_cons, ih, List.cons_append,
      List.intercalate_cons_of_ne_nil hne, Line.chars]
    simp

theorem ended_withEnds {mid : End} (hmid : mid ≠ .none) (last : End) (init : List LineText)
    (t : LineText) : Ended (withEnds mid last init t) := by
  intro l hl
  rw [withEnds, List.dropLast_concat] at hl
  obtain ⟨text, -, rfl⟩ := List.mem_map.1 hl
  exact hmid

theorem newline_ne_none (content : List Char) : newline content ≠ .none := by
  unfold newline
  split_ifs <;> simp

/-- The end of the last line. -/
def lastEnd (content : List Char) (init : List LineText) (t : LineText) : End :=
  if trailingNewline content ∧
      ((newline content).chars.intercalate (init ++ [t])).getLast? ≠ some '\n' then newline content
  else .none

theorem render_eq (content : List Char) (init : List LineText) (t : LineText) :
    render content (init ++ [t]) =
      joinLines (withEnds (newline content) (lastEnd content init t) init t) := by
  rw [joinLines_withEnds, render, lastEnd]
  split_ifs
  · rfl
  · rw [End.chars, List.append_nil]

theorem getLast?_chars {e : End} (he : e ≠ .none) : e.chars.getLast? = some '\n' := by
  cases e with
  | none => exact absurd rfl he
  | lf => rfl
  | crlf => rfl

/-- The joined lines end with a line feed if the last one is blank and not the only one. -/
theorem getLast?_intercalate {mid : End} (hmid : mid ≠ .none) {init : List LineText} {t : LineText}
    (ht : '\n' ∉ t) :
    (mid.chars.intercalate (init ++ [t])).getLast? = some '\n' ↔ t = [] ∧ init ≠ [] := by
  have hjoin := joinLines_withEnds mid .none init t
  rw [End.chars, List.append_nil, withEnds, joinLines_append, joinLines_cons, joinLines_nil,
    Line.chars, End.chars, List.append_nil, List.append_nil] at hjoin
  rw [← hjoin]
  by_cases hnil : t = []
  · rw [hnil, List.append_nil]
    rcases List.eq_nil_or_concat' init with rfl | ⟨front, text, rfl⟩
    · simp
    · refine iff_of_true ?_ ⟨rfl, by simp⟩
      have hne : mid.chars ≠ [] := fun h => by
        have hlast := getLast?_chars hmid
        rw [h] at hlast
        cases hlast
      rw [List.map_append, joinLines_append, List.map_singleton, joinLines_cons, joinLines_nil,
        List.append_nil, Line.chars, ← List.append_assoc, List.getLast?_append_of_ne_nil _ hne,
        getLast?_chars hmid]
  · rw [List.getLast?_append_of_ne_nil _ hnil]
    exact iff_of_false (fun hlast => ht (List.mem_of_getLast? hlast)) fun h => hnil h.1

/-- The last line gets an end if the content has one at its end, unless the line is blank and not
the only one. -/
theorem lastEnd_ne_none_iff {init : List LineText} {t : LineText} (ht : '\n' ∉ t) :
    lastEnd content init t ≠ .none ↔ trailingNewline content = true ∧ (t = [] → init = []) := by
  have hlast := @getLast?_intercalate _ (newline_ne_none content) init t ht
  unfold lastEnd
  split_ifs with h
  · refine iff_of_true (newline_ne_none content) ⟨h.1, fun hnil => ?_⟩
    by_contra hinit
    exact h.2 (hlast.2 ⟨hnil, hinit⟩)
  · refine iff_of_false (fun hne => hne rfl) fun ⟨htrailing, hblank⟩ =>
      h ⟨htrailing, fun hend => ?_⟩
    obtain ⟨hnil, hinit⟩ := hlast.1 hend
    exact hinit (hblank hnil)

theorem lastEnd_eq {init : List LineText} {t : LineText} (h : lastEnd content init t ≠ .none) :
    lastEnd content init t = newline content := by
  unfold lastEnd at h ⊢
  split_ifs at h ⊢
  · rfl
  · exact absurd rfl h

/-! ### What is kept -/

/-- The result is these lines, and each that is from the file has the end that it had there. -/
def KeepsLines (tracked : List (Labelled (Option End))) (result : List Char) : Prop :=
  ∃ written : List Line, written.map Line.text = tracked.map Labelled.text ∧ Ended written ∧
    joinLines written = result ∧
      ∀ p ∈ tracked.zip written, ∀ e ≠ End.none, p.1.label = some e → p.2.stop = e

/-- A line with some text, and what stands behind it in the file, stay at the end. -/
def EndStays (content : List Char) (tracked : List (Labelled (Option End))) : Prop :=
  ∃ before before' l rest, splitLines content = before ++ l :: rest ∧
    tracked = before' ++ (l :: rest).map labelled ∧ ∃ c ∈ l.text, c ≠ '\r'

/-- The lines that no hunk replaces keep their bytes and their ends, and the line ends that the file
ends with stay, if the last line with some text and what is behind it stay there. -/
structure Preserves (content : List Char) (tracked : List (Labelled (Option End)))
    (result : List Char) : Prop where
  lines : tracked ≠ [] → KeepsLines tracked result
  trailing : EndStays content tracked → trailingRun result = trailingRun content

/-- Each line that stays and has an end has the one that is written everywhere, and if it comes to
stand last, then the file ends with a line end, and the line is not blank, or is the only one. -/
structure Restores (content : List Char) (tracked : List (Labelled (Option End))) : Prop where
  same : ∀ l ∈ tracked, ∀ e ≠ End.none, l.label = some e → e = newline content
  last : ∀ l, tracked.getLast? = some l → ∀ e ≠ End.none, l.label = some e →
    trailingNewline content = true ∧ (l.text = [] → tracked.length = 1)

theorem zip_withEnds (mid last : End) (init : List (Labelled (Option End)))
    (l : Labelled (Option End)) :
    (init ++ [l]).zip (withEnds mid last (init.map Labelled.text) l.text) =
      init.map (fun k => (k, ⟨k.text, mid⟩)) ++ [(l, ⟨l.text, last⟩)] := by
  induction init with
  | nil => rfl
  | cons k init ih =>
    rw [withEnds] at ih ⊢
    rw [List.map_cons, List.map_cons, List.cons_append, List.cons_append, List.zip_cons_cons, ih]
    rfl

theorem map_text_withEnds (mid last : End) (init : List LineText) (t : LineText) :
    (withEnds mid last init t).map Line.text = init ++ [t] := by
  rw [withEnds, List.map_append, List.map_map]
  exact congrArg (· ++ [t]) (List.map_id init)

theorem keepsLines_iff (init : List (Labelled (Option End))) (l : Labelled (Option End)) :
    KeepsLines (init ++ [l]) (render content ((init ++ [l]).map Labelled.text)) ↔
      (∀ k ∈ init, ∀ e ≠ End.none, k.label = some e → newline content = e) ∧
        ∀ e ≠ End.none, l.label = some e →
          lastEnd content (init.map Labelled.text) l.text = e := by
  have hrender := render_eq content (init.map Labelled.text) l.text
  have hended := ended_withEnds (newline_ne_none content)
    (lastEnd content (init.map Labelled.text) l.text) (init.map Labelled.text) l.text
  have htexts : (init ++ [l]).map Labelled.text = init.map Labelled.text ++ [l.text] := by simp
  rw [htexts]
  constructor
  · rintro ⟨written, hwritten, hended', hjoin, hkept⟩
    have hsame := eq_of_joinLines (hwritten.trans (htexts.trans (map_text_withEnds _ _ _ _).symm))
      hended' hended (hjoin.trans hrender)
    rw [hsame, zip_withEnds] at hkept
    refine ⟨fun k hk e he hlabel => ?_, fun e he hlabel => ?_⟩
    · exact hkept (k, ⟨k.text, _⟩) (List.mem_append_left _ (List.mem_map_of_mem hk)) e he hlabel
    · exact hkept (l, ⟨l.text, _⟩) (List.mem_append_right _ (List.mem_singleton_self _)) e he hlabel
  · rintro ⟨hinit, hlast⟩
    refine ⟨_, (map_text_withEnds _ _ _ _).trans htexts.symm, hended, hrender.symm,
      fun p hp e he hlabel => ?_⟩
    rw [zip_withEnds] at hp
    rcases List.mem_append.1 hp with hp | hp
    · obtain ⟨k, hk, rfl⟩ := List.mem_map.1 hp
      exact hinit k hk e he hlabel
    · obtain rfl := List.mem_singleton.1 hp
      exact hlast e he hlabel

/-- The last line gets the end that it had, if it had one. -/
theorem lastEnd_eq_iff {init : List (Labelled (Option End))} {l : Labelled (Option End)} {e : End}
    (he : e ≠ .none) (ht : '\n' ∉ l.text) :
    lastEnd content (init.map Labelled.text) l.text = e ↔
      e = newline content ∧ trailingNewline content = true ∧
        (l.text = [] → (init ++ [l]).length = 1) := by
  have hlength : (init ++ [l]).length = 1 ↔ init.map Labelled.text = [] := by
    rw [List.length_append, List.length_singleton, List.map_eq_nil_iff, ← List.length_eq_zero_iff]
    omega
  rw [hlength, ← lastEnd_ne_none_iff ht]
  constructor
  · rintro rfl
    exact ⟨lastEnd_eq he, he⟩
  · rintro ⟨rfl, hne⟩
    exact lastEnd_eq hne

/-- The last line of the file ends as it did, if it comes to stand last again. -/
theorem lastEnd_of_restores {init : List (Labelled (Option End))} {last : Line}
    (h : Restores content (init ++ [labelled last]))
    (hget : (splitLines content).getLast? = some last) :
    lastEnd content (init.map Labelled.text) last.text = last.stop := by
  have htext := not_mem_text content last (List.mem_of_getLast? hget)
  have hget' : (init ++ [labelled last]).getLast? = some (labelled last) := List.getLast?_concat
  by_cases hnone : last.stop = .none
  · rw [hnone]
    by_contra hne
    have htrailing := ((lastEnd_ne_none_iff htext).1 hne).1
    exact (getLast_stop hget).2 (of_decide_eq_true htrailing) hnone
  · have hsame := h.same (labelled last) (by simp) last.stop hnone rfl
    obtain ⟨htrailing, hblank⟩ := h.last (labelled last) hget' last.stop hnone rfl
    exact (lastEnd_eq_iff (l := labelled last) hnone htext).2 ⟨hsame, htrailing, hblank⟩

/-- Lines with an end that are restored. -/
theorem map_newline_eq {front : List Line} (hstop : ∀ k ∈ front, k.stop ≠ .none)
    (h : Restores content tracked) (hmem : ∀ k ∈ front, labelled k ∈ tracked) :
    (front.map Line.text).map (fun text => (⟨text, newline content⟩ : Line)) = front := by
  rw [List.map_map]
  refine (List.map_congr_left fun k hk => ?_).trans (List.map_id front)
  rw [Function.comp_apply, ← h.same (labelled k) (hmem k hk) k.stop (hstop k hk) rfl]
  rfl

theorem trailingRun_of_restores (h : Restores content tracked) (hstays : EndStays content tracked) :
    trailingRun (render content (tracked.map Labelled.text)) = trailingRun content := by
  obtain ⟨before, before', l, rest, hsplit, rfl, c, hc, hr⟩ := hstays
  have hnl : c ≠ '\n' := by
    rintro rfl
    exact not_mem_text content l (by rw [hsplit]; simp) hc
  have htext : ∃ c ∈ joinLines (l :: rest), c ≠ '\r' ∧ c ≠ '\n' :=
    ⟨c, by rw [joinLines_cons, Line.chars]; simp [hc], hr, hnl⟩
  have hwritten : ∃ first, render content
      ((before' ++ (l :: rest).map labelled).map Labelled.text) =
        joinLines first ++ joinLines (l :: rest) := by
    obtain ⟨front, last, hlast⟩ : ∃ front last, l :: rest = front ++ [last] :=
      (List.eq_nil_or_concat' (l :: rest)).resolve_left (List.cons_ne_nil _ _)
    rw [hlast, ← List.append_assoc] at hsplit
    have htracked : before' ++ (l :: rest).map labelled =
        (before' ++ front.map labelled) ++ [labelled last] := by
      rw [hlast, List.map_append, List.map_singleton, List.append_assoc]
    rw [htracked] at h ⊢
    have hstop : ∀ k ∈ front, k.stop ≠ .none := fun k hk => by
      have hended := ended_splitLines content
      rw [hsplit] at hended
      exact hended k (by rw [List.dropLast_concat]; exact List.mem_append_right _ hk)
    have hfront := map_newline_eq hstop h fun k hk => by simp [List.mem_map_of_mem hk]
    have hend := lastEnd_of_restores h (by rw [hsplit, List.getLast?_concat])
    have htexts : (front.map labelled).map Labelled.text = front.map Line.text := by
      rw [List.map_map]
      rfl
    refine ⟨(before'.map Labelled.text).map fun text => ⟨text, newline content⟩, ?_⟩
    rw [List.map_append, List.map_singleton]
    show render content (_ ++ [last.text]) = _
    rw [render_eq, hend, withEnds, List.map_append, List.map_append, htexts, hfront,
      List.append_assoc, joinLines_append, hlast]
  obtain ⟨first, hwritten⟩ := hwritten
  rw [hwritten, trailingRun_append htext, ← joinLines_splitLines content, hsplit, joinLines_append,
    trailingRun_append htext]

/-- Written lines keep their ends exactly if the line ends are restored. -/
theorem keepsLines_render_iff (hne : tracked ≠ [])
    (htext : ∀ l ∈ tracked, ∀ e : End, l.label = some e → '\n' ∉ l.text) :
    KeepsLines tracked (render content (tracked.map Labelled.text)) ↔ Restores content tracked := by
  obtain ⟨init, l, rfl⟩ := (List.eq_nil_or_concat' tracked).resolve_left hne
  rw [keepsLines_iff]
  constructor
  · rintro ⟨hinit, hlast⟩
    have hend : ∀ e ≠ End.none, l.label = some e → e = newline content ∧
        trailingNewline content = true ∧ (l.text = [] → (init ++ [l]).length = 1) :=
      fun e he hlabel => (lastEnd_eq_iff he (htext l (by simp) e hlabel)).1 (hlast e he hlabel)
    refine ⟨fun k hk e he hlabel => ?_, fun k hk e he hlabel => ?_⟩
    · rcases List.mem_append.1 hk with hk | hk
      · exact (hinit k hk e he hlabel).symm
      · rw [List.mem_singleton.1 hk] at hlabel
        exact (hend e he hlabel).1
    · rw [List.getLast?_concat] at hk
      obtain rfl := Option.some.inj hk
      exact (hend e he hlabel).2
  · refine fun hrestores => ⟨fun k hk e he hlabel => ?_, fun e he hlabel => ?_⟩
    · exact (hrestores.same k (List.mem_append_left _ hk) e he hlabel).symm
    · have hl : l ∈ init ++ [l] := by simp
      exact (lastEnd_eq_iff he (htext l hl e hlabel)).2
        ⟨hrestores.same l hl e he hlabel, hrestores.last l (by simp) e he hlabel⟩

/-- What the hunks leave of a file stays as it was exactly if its line ends are restored. -/
theorem applyHunks_preserves_iff (h : applyHunks content hunks = .ok result) :
    ∃ tracked, track fromHunk 0 hunks (original content) = .ok tracked ∧
      (Preserves content tracked result ↔ Restores content tracked) := by
  obtain ⟨tracked, htrack, rfl⟩ := exists_tracked h
  have htext : ∀ l ∈ tracked, ∀ e : End, l.label = some e → '\n' ∉ l.text := by
    intro l hl e hlabel
    have hmem := mem_of_track htrack hl (by rw [hlabel]; simp)
    obtain ⟨line, hline, rfl⟩ := List.mem_map.1 hmem
    exact not_mem_text content line hline
  refine ⟨tracked, htrack, fun hpreserves => ?_, fun hrestores =>
    ⟨fun hne => (keepsLines_render_iff hne htext).2 hrestores, trailingRun_of_restores hrestores⟩⟩
  by_cases hne : tracked = []
  · rw [hne]
    exact ⟨fun l hl => absurd hl List.not_mem_nil, fun l hl => by cases hl⟩
  · exact (keepsLines_render_iff hne htext).1 (hpreserves.lines hne)

/-- One line of two is replaced. -/
theorem applyHunks_preserves_iff_lf :
    ∃ tracked, track fromHunk 0 [{ oldLines := ["b".toList], newLines := ["c".toList] }]
        (original "a\nb\n".toList) = .ok tracked ∧
      (Preserves "a\nb\n".toList tracked "a\nc\n".toList ↔ Restores "a\nb\n".toList tracked) :=
  applyHunks_preserves_iff (by decide)

/-- In a file with both kinds of line ends those of the lines around change. -/
theorem applyHunks_rewrites_lf :
    ¬ ∀ (content : List Char) (hunks : List Hunk) (result : List Char),
      applyHunks content hunks = .ok result →
        ∃ tracked, track fromHunk 0 hunks (original content) = .ok tracked ∧
          Preserves content tracked result := by
  intro h
  obtain ⟨tracked, htrack, hpreserves⟩ := h "a\nb\r\n".toList
    [{ oldLines := ["b".toList], newLines := ["c".toList] }] "a\r\nc\r\n".toList (by decide)
  have htracked : track fromHunk 0 [{ oldLines := ["b".toList], newLines := ["c".toList] }]
      (original "a\nb\r\n".toList) =
        .ok ([⟨"a".toList, some .lf⟩] ++ [⟨"c".toList, none⟩]) := by decide
  obtain rfl := Except.ok.inj (htrack.symm.trans htracked)
  have hrender : "a\r\nc\r\n".toList = render "a\nb\r\n".toList
      (([⟨"a".toList, some .lf⟩] ++ [⟨"c".toList, none⟩] : List (Labelled (Option End))).map
        Labelled.text) := by decide
  have hlines := hpreserves.lines (by simp)
  rw [hrender] at hlines
  have hend := ((keepsLines_iff _ _).1 hlines).1 _ (List.mem_singleton_self _) .lf (by simp) rfl
  exact absurd hend (by decide)

end PatchLines
end RustyHand
