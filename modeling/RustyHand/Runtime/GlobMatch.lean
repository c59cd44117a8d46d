import RustyHand.Lib.Glob
import RustyHand.Runtime.ChunkText
import RustyHand.Types.Capability

/-!
# Two matchers for the same globs

`glob_match` of `rusty-hand-runtime/src/tool_policy.rs`, and `glob_matches` of
`rusty-hand-types/src/capability.rs` with the slices that it takes.  A slice that is out of range or
not at a character boundary panics.

* `ToolPolicy.globMatch`, `globMatch_ok`: this one is right for every pattern;
* `Capability.globMatchesSlices`, `globMatchesSlices_eq`: the other one takes no wrong slice;
* `matches_of_patternOf`, `patternOf_complete_iff`: it knows one star;
* `globs_right_iff`: for which patterns and texts both are right.
-/

namespace RustyHand

open Glob Text
open ChunkText (slice slice_append)

namespace ToolPolicy

/-- The loop over the parts, from part `i` of `count` on. -/
def globLoop (text : List Char) (count : ℕ) : ℕ → ℕ → List (List Char) → Except Stop Bool
  | _, _, [] => .ok true
  | i, pos, part :: parts =>
    if part = [] then globLoop text count (i + 1) pos parts
    else if i = 0 then
      -- must match the start
      if part.isPrefixOf text then globLoop text count (i + 1) (byteLength part) parts
      else .ok false
    else
      match slice text pos (byteLength text) with
      | .error e => .error e
      | .ok rest =>
        if i = count - 1 then
          -- must match the end
          if part.isSuffixOf rest then globLoop text count (i + 1) pos parts else .ok false
        else
          match splitOnce part rest with
          | some (before, _) =>
            globLoop text count (i + 1) (pos + byteLength before + byteLength part) parts
          | none => .ok false

/-- `glob_match`, on characters. -/
def globMatchChars (pattern text : List Char) : Except Stop Bool :=
  if pattern = ['*'] then .ok true
  else if '*' ∉ pattern then .ok (pattern = text)
  else
    match pieces (· = '*') pattern with
    | [before, after] =>
      .ok (before.isPrefixOf text && after.isSuffixOf text &&
        decide (byteLength before + byteLength after ≤ byteLength text))
    | parts => globLoop text parts.length 0 0 parts

/-- `glob_match`. -/
def globMatch (pattern text : String) : Except Stop Bool :=
  globMatchChars pattern.toList text.toList

variable {text pre rest : List Char} {count i pos : ℕ} {parts : List (List Char)}

/-- What stands before the first occurrence is no longer than what stands before another. -/
theorem splitOnce_first {part before after : List Char}
    (h : splitOnce part text = some (before, after)) {w u : List Char}
    (hw : text = w ++ part ++ u) :
    before.length ≤ w.length := by
  induction text generalizing before w with
  | nil =>
    rw [splitOnce_nil] at h
    split_ifs at h
    obtain ⟨rfl, rfl⟩ : [] = before ∧ [] = after := by simpa using h
    exact Nat.zero_le _
  | cons c text ih =>
    rw [splitOnce_cons] at h
    split_ifs at h with hpre
    · obtain ⟨rfl, rfl⟩ : [] = before ∧ (c :: text).drop part.length = after := by simpa using h
      exact Nat.zero_le _
    · obtain ⟨⟨b, a⟩, hr, heq⟩ := Option.map_eq_some_iff.1 h
      obtain ⟨rfl, rfl⟩ : c :: b = before ∧ a = after := by simpa using heq
      cases w with
      | nil => exact absurd ⟨u, by rw [hw]; rfl⟩ hpre
      | cons d w =>
        obtain ⟨-, hw⟩ := List.cons.inj hw
        exact Nat.succ_le_succ (ih hr hw)

/-- The slice behind what is matched. -/
theorem slice_rest (pre rest : List Char) :
    slice (pre ++ rest) (byteLength pre) (byteLength (pre ++ rest)) = .ok rest := by
  rw [byteLength_append]
  exact slice_append (List.prefix_refl rest)

/-- Behind the first part: the loop returns, and it finds the parts in what is left of the text
exactly if they fit there. -/
theorem globLoop_behind_first (hne : parts ≠ []) (hi : 0 < i) (hcount : i + parts.length = count) :
    ∃ b, globLoop (pre ++ rest) count i (byteLength pre) parts = .ok b ∧
      (b = true ↔ Fits ([] :: parts) rest) := by
  induction parts generalizing i pre rest with
  | nil => exact absurd rfl hne
  | cons part parts ih =>
    rw [List.length_cons] at hcount
    rw [globLoop]
    cases parts with
    | nil =>
      rw [List.length_nil] at hcount
      rw [fits_nil_last]
      by_cases hpart : part = []
      · rw [if_pos hpart, hpart]
        exact ⟨true, rfl, iff_of_true rfl List.nil_suffix⟩
      · rw [if_neg hpart, if_neg (by omega), slice_rest]
        dsimp only
        rw [if_pos (by omega)]
        by_cases hsuffix : part <:+ rest
        · rw [if_pos (List.isSuffixOf_iff_suffix.2 hsuffix)]
          exact ⟨true, rfl, iff_of_true rfl hsuffix⟩
        · rw [if_neg (mt List.isSuffixOf_iff_suffix.1 hsuffix)]
          exact ⟨false, rfl, iff_of_false Bool.false_ne_true hsuffix⟩
    | cons next parts =>
      have hnext : next :: parts ≠ [] := List.cons_ne_nil _ _
      rw [List.length_cons] at hcount
      by_cases hpart : part = []
      · rw [if_pos hpart, hpart, fits_nil_nil]
        exact ih hnext (Nat.succ_pos i) (by rw [List.length_cons]; omega)
      · rw [if_neg hpart, if_neg (by omega), slice_rest]
        dsimp only
        rw [if_neg (by omega)]
        cases hfind : splitOnce part rest with
        | none =>
          have hno := (splitOnce_eq_none_iff hpart rest).1 hfind
          exact ⟨false, rfl, iff_of_false Bool.false_ne_true (not_fits_of_absent hno)⟩
        | some found =>
          obtain ⟨before, after⟩ := found
          have hrest := eq_of_splitOnce hfind
          rw [fits_leftmost_iff hrest fun w u => splitOnce_first hfind]
          have hpos : byteLength pre + byteLength before + byteLength part =
              byteLength (pre ++ before ++ part) := by
            rw [byteLength_append, byteLength_append]
          have htext : pre ++ rest = (pre ++ before ++ part) ++ after := by
            rw [hrest]
            simp only [List.append_assoc]
          dsimp only
          rw [hpos, htext]
          exact ih hnext (Nat.succ_pos i) (by rw [List.length_cons]; omega)

theorem pieces_eq_splitOn (pattern : List Char) :
    pieces (· = '*') pattern = pattern.splitOn '*' := by
  rw [pieces_eq_splitOnP, List.splitOn_eq_splitOnP]
  rfl

/-- A pattern with a star has two parts or more. -/
theorem exists_parts {pattern : List Char} (h : '*' ∈ pattern) :
    ∃ first next parts, pattern.splitOn '*' = first :: next :: parts := by
  obtain ⟨a, b, rfl⟩ := List.append_of_mem h
  obtain ⟨x, xs, hx⟩ := List.exists_cons_of_ne_nil (List.splitOn_ne_nil '*' a)
  obtain ⟨y, ys, hy⟩ := List.exists_cons_of_ne_nil (List.splitOn_ne_nil '*' b)
  rw [List.splitOn_append_cons_self, hx, hy]
  cases xs with
  | nil => exact ⟨x, y, ys, rfl⟩
  | cons z xs => exact ⟨x, z, xs ++ y :: ys, rfl⟩

/-- A part in front and one at the end, which do not overlap. -/
theorem fits_two_iff {before after : List Char} : Fits [before, after] text ↔
    before <+: text ∧ after <:+ text ∧
      byteLength before + byteLength after ≤ byteLength text := by
  have hhole : Fits [before, after] text ↔
      (HolePattern.Pattern.hole before after).Matches text := by
    rw [HolePattern.Pattern.matches_hole_iff]
    exact ⟨fun ⟨w, _, htext, hrest⟩ => ⟨w, hrest ▸ htext⟩, fun ⟨w, htext⟩ => ⟨w, _, htext, rfl⟩⟩
  rw [hhole]
  exact and_congr_right fun hpre => and_congr_right fun hsuf =>
    (byteLength_add_le_iff hpre hsuf).symm

theorem globLoop_first {first next : List Char} :
    ∃ b, globLoop text (first :: next :: parts).length 0 0 (first :: next :: parts) = .ok b ∧
      (b = true ↔ Fits (first :: next :: parts) text) := by
  have hnext : next :: parts ≠ [] := List.cons_ne_nil _ _
  have hcount : 0 + 1 + (next :: parts).length = (first :: next :: parts).length := by
    simp only [List.length_cons]
    omega
  rw [globLoop]
  by_cases hfirst : first = []
  · rw [if_pos hfirst, hfirst]
    exact @globLoop_behind_first [] text _ 1 _ hnext Nat.one_pos
      (by rw [← hfirst, ← hcount])
  · rw [if_neg hfirst, if_pos rfl, fits_cons_cons_iff]
    by_cases hpre : first <+: text
    · obtain ⟨rest, rfl⟩ := hpre
      obtain ⟨b, hb, hiff⟩ := @globLoop_behind_first first rest _ 1 _ hnext Nat.one_pos hcount
      rw [if_pos (List.isPrefixOf_iff_prefix.2 (List.prefix_append ..))]
      refine ⟨b, hb, hiff.trans ⟨fun h => ⟨rest, rfl, h⟩, ?_⟩⟩
      rintro ⟨u, hu, h⟩
      rwa [List.append_cancel_left hu]
    · rw [if_neg (mt List.isPrefixOf_iff_prefix.1 hpre)]
      refine ⟨false, rfl, iff_of_false Bool.false_ne_true ?_⟩
      rintro ⟨u, rfl, -⟩
      exact hpre (List.prefix_append ..)

/-- The matcher returns, and it is right. -/
theorem globMatchChars_ok (pattern text : List Char) :
    ∃ b, globMatchChars pattern text = .ok b ∧ (b = true ↔ Matches '*' pattern text) := by
  rw [globMatchChars]
  by_cases hstar : pattern = ['*']
  · rw [if_pos hstar, hstar, matches_star_iff]
    exact ⟨true, rfl, iff_of_true rfl ⟨text, [], (List.append_nil text).symm, .nil⟩⟩
  rw [if_neg hstar, matches_iff_fits]
  by_cases hmem : '*' ∈ pattern
  · obtain ⟨first, next, parts, hparts⟩ := exists_parts hmem
    rw [if_neg (not_not.2 hmem), pieces_eq_splitOn, hparts]
    cases parts with
    | nil =>
      refine ⟨_, rfl, ?_⟩
      rw [fits_two_iff, Bool.and_eq_true, Bool.and_eq_true, List.isPrefixOf_iff_prefix,
        List.isSuffixOf_iff_suffix, decide_eq_true_iff, and_assoc]
    | cons part parts => exact globLoop_first
  · rw [if_pos hmem, List.splitOn_eq_singleton hmem]
    exact ⟨_, rfl, by rw [decide_eq_true_iff, Fits, eq_comm]⟩

end ToolPolicy

/-! ### The other matcher -/

namespace Capability

open HolePattern

/-- `glob_matches`, on characters, with the slices around the first star. -/
def globMatchesSlices (pattern value : List Char) : Except Stop Bool :=
  if pattern = ['*'] then .ok true
  else if pattern = value then .ok true
  else
    match pattern with
    | '*' :: suffix => .ok (suffix.isSuffixOf value)
    | _ =>
      if pattern.getLast? = some '*' then .ok (pattern.dropLast.isPrefixOf value)
      else if '*' ∈ pattern then
        let starPos := byteLength (pattern.takeWhile (· ≠ '*'))
        match slice pattern 0 starPos, slice pattern (starPos + 1) (byteLength pattern) with
        | .ok before, .ok after =>
          .ok (before.isPrefixOf value && after.isSuffixOf value &&
            decide (byteLength before + byteLength after ≤ byteLength value))
        | .error e, _ => .error e
        | _, .error e => .error e
      else .ok false

theorem slice_around_star (before after : List Char) :
    slice (before ++ '*' :: after) 0 (byteLength before) = .ok before ∧
      slice (before ++ '*' :: after) (byteLength before + 1)
        (byteLength (before ++ '*' :: after)) = .ok after := by
  constructor
  · have h := @slice_append [] (before ++ '*' :: after) before (List.prefix_append ..)
    rwa [List.nil_append, show byteLength [] = 0 from rfl, Nat.zero_add] at h
  · have h := ToolPolicy.slice_rest (before ++ ['*']) after
    rwa [byteLength_append, List.append_assoc] at h

theorem globMatchesSlices_eq (pattern value : List Char) :
    globMatchesSlices pattern value = .ok (globMatchesChars pattern value) := by
  by_cases hhead : pattern.head? = some '*'
  · obtain ⟨suffix, rfl⟩ := List.head?_eq_some_iff.1 hhead
    unfold globMatchesSlices globMatchesChars
    split_ifs <;> rfl
  have hletter : ∀ suffix, pattern = '*' :: suffix → False := by
    rintro suffix rfl
    exact hhead rfl
  have hstar : pattern ≠ ['*'] := hletter []
  by_cases hself : pattern = value
  · rw [globMatchesSlices, globMatchesChars, if_pos hself, if_pos hself]
    · split_ifs <;> rfl
    · exact hletter
    · exact hletter
  rw [globMatchesChars_of_ne hhead hself, globMatchesSlices, if_neg hstar, if_neg hself]
  · split_ifs with hlast hmem
    · rfl
    · obtain ⟨hbefore, hafter⟩ := slice_around_star (pattern.takeWhile (· ≠ '*'))
        (pattern.dropWhile (· ≠ '*')).tail
      rw [← takeWhile_append_star hmem] at hbefore hafter
      dsimp only
      rw [hbefore, hafter]
    · rfl
  · exact hletter

/-! ### Patterns with more than one star -/

variable {pattern text : List Char}

/-- One star is the wildcard, and what is around it stands for itself. -/
theorem exists_hole (h : '*' ∈ pattern) :
    ∃ before after, pattern = before ++ '*' :: after ∧
      patternOf pattern = .hole before after := by
  by_cases hhead : pattern.head? = some '*'
  · obtain ⟨suffix, rfl⟩ := List.head?_eq_some_iff.1 hhead
    exact ⟨[], suffix, rfl, rfl⟩
  rw [patternOf_of_ne hhead]
  by_cases hlast : pattern.getLast? = some '*'
  · rw [if_pos hlast]
    exact ⟨pattern.dropLast, [], (List.dropLast_append_getLast? '*' hlast).symm, rfl⟩
  · rw [if_neg hlast, if_pos h]
    exact ⟨_, _, takeWhile_append_star h, rfl⟩

theorem patternOf_of_not_mem (h : '*' ∉ pattern) : patternOf pattern = .exact pattern := by
  rw [patternOf_of_ne fun hhead => h (List.mem_of_mem_head? hhead),
    if_neg fun hlast => h (List.mem_of_getLast? hlast), if_neg h]

theorem matches_of_patternOf (h : (patternOf pattern).Matches text) :
    Matches '*' pattern text := by
  by_cases hmem : '*' ∈ pattern
  · obtain ⟨before, after, hpattern, hhole⟩ := exists_hole hmem
    rw [hhole] at h
    obtain ⟨w, rfl⟩ := Pattern.matches_hole_iff.1 h
    rw [hpattern, List.append_assoc]
    exact (matches_self before).append (matches_star_iff.2 ⟨w, after, rfl, matches_self after⟩)
  · rw [patternOf_of_not_mem hmem] at h
    obtain rfl : text = pattern := h
    exact matches_self text

/-- With one star it matches all of the language, and with more it does not. -/
theorem patternOf_complete_iff :
    (∀ text, Matches '*' pattern text → (patternOf pattern).Matches text) ↔
      pattern.count '*' ≤ 1 := by
  by_cases hmem : '*' ∈ pattern
  · obtain ⟨before, after, hpattern, hhole⟩ := exists_hole hmem
    have hcount : pattern.count '*' ≤ 1 ↔ '*' ∉ before ∧ '*' ∉ after := by
      rw [hpattern, List.count_append, List.count_cons_self, ← List.count_eq_zero,
        ← List.count_eq_zero]
      omega
    rw [hhole, hcount]
    constructor
    · intro h
      -- a text without stars, where each star stands for nothing
      have hall := h _ (matches_filter pattern)
      have hno : '*' ∉ pattern.filter fun c => decide (c ≠ '*') := by simp
      exact ⟨fun hb => hno (hall.1.subset hb), fun ha => hno (hall.2.1.subset ha)⟩
    · rintro ⟨hbefore, hafter⟩ text h
      rw [matches_iff_fits, hpattern, List.splitOn_append_cons_self,
        List.splitOn_eq_singleton hbefore, List.splitOn_eq_singleton hafter] at h
      obtain ⟨w, _, rfl, rfl⟩ := h
      exact Pattern.matches_hole_iff.2 ⟨w, rfl⟩
  · rw [patternOf_of_not_mem hmem, List.count_eq_zero.2 hmem]
    refine iff_of_true (fun text h => ?_) (Nat.zero_le 1)
    rw [matches_iff_fits, List.splitOn_eq_singleton hmem] at h
    exact h

end Capability

/-! ### Both matchers -/

/-- Both matchers return, with no slice that panics, and both are right. -/
structure GlobsRight (pattern text : String) : Prop where
  capability : ∃ b, Capability.globMatchesSlices pattern.toList text.toList = .ok b ∧
    (b = true ↔ Matches '*' pattern.toList text.toList)
  toolPolicy : ∃ b, ToolPolicy.globMatch pattern text = .ok b ∧
    (b = true ↔ Matches '*' pattern.toList text.toList)

/-- Both are right about a text exactly if the pattern has one star at most, or the text is not in
its language, or it is a word of the pattern with one star as the wildcard. -/
theorem globsRight_iff_wildcard (pattern text : String) :
    GlobsRight pattern text ↔ (Matches '*' pattern.toList text.toList →
      (Capability.globPattern pattern).Matches text.toList) := by
  have hcapability : ∀ b, Capability.globMatchesSlices pattern.toList text.toList = .ok b ↔
      Capability.globMatchesChars pattern.toList text.toList = b := fun b => by
    rw [Capability.globMatchesSlices_eq, Except.ok.injEq]
  constructor
  · rintro ⟨⟨b, hb, hiff⟩, -⟩ h
    rw [← hiff, ← (hcapability b).1 hb] at h
    exact Capability.globMatchesChars_iff.1 h
  · intro h
    refine ⟨⟨_, (hcapability _).2 rfl, ?_⟩, ToolPolicy.globMatchChars_ok _ _⟩
    rw [Capability.globMatchesChars_iff]
    exact ⟨Capability.matches_of_patternOf, h⟩

/-- Both matchers are right about every text exactly if the pattern has one star at most; and about
a text exactly if it has, or the text is not in its language, or it is a word of the pattern with
one star as the wildcard and the others as letters. -/
theorem globs_right_iff (pattern : String) :
    ((∀ text, GlobsRight pattern text) ↔ pattern.toList.count '*' ≤ 1) ∧
      ∀ text, GlobsRight pattern text ↔
        pattern.toList.count '*' ≤ 1 ∨ ¬ Matches '*' pattern.toList text.toList ∨
          (Capability.globPattern pattern).Matches text.toList := by
  have hall : (∀ text, GlobsRight pattern text) ↔ pattern.toList.count '*' ≤ 1 := by
    rw [← Capability.patternOf_complete_iff]
    constructor
    · intro h text hmatches
      have := (globsRight_iff_wildcard pattern (String.ofList text)).1 (h _)
      rw [String.toList_ofList] at this
      exact this hmatches
    · intro h text
      exact (globsRight_iff_wildcard pattern text).2 (h text.toList)
  refine ⟨hall, fun text => ⟨fun h => ?_, ?_⟩⟩
  · exact .inr (imp_iff_not_or.1 ((globsRight_iff_wildcard pattern text).1 h))
  · rintro (hcount | h)
    · exact hall.2 hcount text
    · exact (globsRight_iff_wildcard pattern text).2 (imp_iff_not_or.2 h)

/-- With two stars one of the matchers does not know the text. -/
theorem globMatches_two_stars : ¬ ∀ pattern text : String, GlobsRight pattern text := by
  intro h
  have hmatches : Matches '*' "a*b*c".toList "axbyc".toList :=
    .letter (by decide) (.more 'x' (.stop (.letter (by decide) (.more 'y' (.stop
      (.letter (by decide) .nil))))))
  exact absurd ((globsRight_iff_wildcard _ _).1 (h "a*b*c" "axbyc") hmatches) (by decide)

end RustyHand
