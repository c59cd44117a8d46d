import RustyHand.Lib.ShellLexer
import RustyHand.Types.Text
import Mathlib.Data.List.DropRight

/-!
# The allowlist of shell commands

`rusty-hand-runtime/src/subprocess_sandbox.rs`: the check a command string passes before it is given
to `sh -c`.  A command string is cut at `&&`, `||`, `|` and `;`, and the base name of the first word
of every part must be in one of two lists.  Positions are counted in characters, not bytes.

* `validateCommandAllowlist` and the functions it calls;
* `mem_extractAllCommands`: what the cut finds behind a control operator of the shell;
* `listed_of_accepted`: which command words an accepted string can have.
-/

namespace RustyHand
namespace SubprocessSandbox

open ShellLexer
open Text (isWhitespace)

/-- `ExecSecurityMode`. -/
inductive ExecSecurityMode
  | deny
  | allowlist
  | full
  deriving DecidableEq

/-- `ExecPolicy`, as far as the check reads it. -/
structure ExecPolicy where
  mode : ExecSecurityMode
  safeBins : List String
  allowedCommands : List String

/-- The text after the last `sep`, or all of it: `s.rsplit(sep).next()`. -/
def afterLast (sep : Char) (s : List Char) : List Char := s.rtakeWhile (· ≠ sep)

/-- The first word: `s.split_whitespace().next().unwrap_or("")`. -/
def firstWord (s : List Char) : List Char := (s.dropWhile isWhitespace).takeWhile (!isWhitespace ·)

/-- `extract_base_command`. -/
def extractBaseCommand (cmd : List Char) : List Char :=
  let trimmed := (cmd.dropWhile isWhitespace).rdropWhile isWhitespace
  afterLast '\\' (afterLast '/' (firstWord trimmed))

/-- Where `sep` first occurs: `s.find(sep)`. -/
def find (sep : List Char) : List Char → Option ℕ
  | [] => if sep = [] then some 0 else none
  | c :: s => if sep.isPrefixOf (c :: s) then some 0 else (find sep s).map (· + 1)

def separators : List (List Char) := [['&', '&'], ['|', '|'], ['|'], [';']]

/-- One turn of the loop over the separators. -/
def closer (rest : List Char) (best : ℕ × ℕ) (sep : List Char) : ℕ × ℕ :=
  match find sep rest with
  | some pos => if pos < best.1 then (pos, sep.length) else best
  | none => best

/-- The first separator: its position and length, the end of the text when there is none. -/
def earliest (rest : List Char) : ℕ × ℕ := separators.foldl (closer rest) (rest.length, 0)

theorem prefix_of_find {sep s : List Char} {pos : ℕ} (h : find sep s = some pos) :
    sep <+: s.drop pos := by
  induction s generalizing pos with
  | nil =>
    unfold find at h
    split_ifs at h with hsep
    rw [hsep]
    exact List.nil_prefix
  | cons c s ih =>
    unfold find at h
    split_ifs at h with hsep
    · obtain rfl := Option.some.inj h
      exact List.isPrefixOf_iff_prefix.1 hsep
    · obtain ⟨i, hi, rfl⟩ := Option.map_eq_some_iff.1 h
      exact ih hi

theorem find_le {sep : List Char} (hsep : sep ≠ []) (pre t : List Char) :
    ∃ pos ≤ pre.length, find sep (pre ++ (sep ++ t)) = some pos := by
  induction pre with
  | nil =>
    refine ⟨0, le_rfl, ?_⟩
    cases sep with
    | nil => exact absurd rfl hsep
    | cons c sep =>
      have : (c :: sep).isPrefixOf (c :: (sep ++ t)) = true :=
        List.isPrefixOf_iff_prefix.2 (List.prefix_append (c :: sep) t)
      simp only [List.nil_append, List.cons_append, find, this, if_true]
  | cons c pre ih =>
    obtain ⟨pos, hpos, hfind⟩ := ih
    rw [List.cons_append, find]
    split_ifs
    · exact ⟨0, Nat.zero_le _, rfl⟩
    · exact ⟨pos + 1, Nat.succ_le_succ hpos, by rw [hfind]; rfl⟩

/-- What is known of the earliest separator after some of them were tried. -/
def IsBest (rest : List Char) (best : ℕ × ℕ) : Prop :=
  best = (rest.length, 0) ∨ ∃ sep ∈ separators, find sep rest = some best.1 ∧ best.2 = sep.length

theorem closer_le (rest : List Char) (best : ℕ × ℕ) (sep : List Char) :
    (closer rest best sep).1 ≤ best.1 := by
  unfold closer
  split
  · split_ifs with h
    · exact h.le
    · exact le_rfl
  · exact le_rfl

theorem closer_le_pos {rest sep : List Char} {pos : ℕ} (h : find sep rest = some pos)
    (best : ℕ × ℕ) : (closer rest best sep).1 ≤ pos := by
  unfold closer
  rw [h]
  dsimp only
  split_ifs with hlt
  · exact le_rfl
  · exact not_lt.1 hlt

theorem IsBest.closer {rest : List Char} {best : ℕ × ℕ} (h : IsBest rest best) {sep : List Char}
    (hsep : sep ∈ separators) : IsBest rest (closer rest best sep) := by
  unfold SubprocessSandbox.closer
  split
  · next pos hpos =>
    split_ifs
    · exact Or.inr ⟨sep, hsep, hpos, rfl⟩
    · exact h
  · exact h

theorem foldl_closer {rest : List Char} (seps : List (List Char)) (hseps : seps ⊆ separators)
    {best : ℕ × ℕ} (h : IsBest rest best) :
    IsBest rest (seps.foldl (closer rest) best) ∧ (seps.foldl (closer rest) best).1 ≤ best.1 ∧
      ∀ sep ∈ seps, ∀ pos, find sep rest = some pos → (seps.foldl (closer rest) best).1 ≤ pos := by
  induction seps generalizing best with
  | nil => exact ⟨h, le_rfl, by simp⟩
  | cons sep seps ih =>
    rw [List.cons_subset] at hseps
    obtain ⟨hbest, hle, hall⟩ := ih hseps.2 (h.closer hseps.1)
    refine ⟨hbest, hle.trans (closer_le rest best sep), ?_⟩
    intro other hother pos hpos
    rcases List.mem_cons.1 hother with rfl | hother
    · exact hle.trans (closer_le_pos hpos best)
    · exact hall other hother pos hpos

theorem isBest_earliest (rest : List Char) : IsBest rest (earliest rest) :=
  (foldl_closer separators (List.Subset.refl _) (Or.inl rfl)).1

theorem earliest_le {sep : List Char} (hsep : sep ∈ separators) (pre t : List Char) :
    (earliest (pre ++ (sep ++ t))).1 ≤ pre.length := by
  have hne : sep ≠ [] := by
    rintro rfl
    simp [separators] at hsep
  obtain ⟨pos, hpos, hfind⟩ := find_le hne pre t
  exact ((foldl_closer separators (List.Subset.refl _) (Or.inl rfl)).2.2 sep hsep pos hfind).trans
    hpos

theorem separator_at_earliest {rest : List Char} (h : (earliest rest).1 < rest.length) :
    ∃ sep ∈ separators, sep <+: rest.drop (earliest rest).1 ∧ (earliest rest).2 = sep.length := by
  rcases isBest_earliest rest with hend | ⟨sep, hsep, hfind, hlen⟩
  · rw [hend] at h
    exact absurd h (lt_irrefl _)
  · exact ⟨sep, hsep, prefix_of_find hfind, hlen⟩

theorem earliest_pos {rest : List Char} (h : (earliest rest).1 < rest.length) :
    0 < (earliest rest).2 := by
  obtain ⟨sep, hsep, -, hlen⟩ := separator_at_earliest h
  rw [hlen, List.length_pos_iff]
  rintro rfl
  simp [separators] at hsep

theorem length_drop_earliest_lt {rest : List Char}
    (h : ¬ rest.length ≤ (earliest rest).1 + (earliest rest).2) :
    (rest.drop ((earliest rest).1 + (earliest rest).2)).length < rest.length := by
  have : 0 < (earliest rest).2 := earliest_pos (by omega)
  rw [List.length_drop]
  omega

/-- `extract_all_commands`. -/
def extractAllCommands (rest : List Char) : List (List Char) :=
  if rest = [] then []
  else
    let base := extractBaseCommand (rest.take (earliest rest).1)
    let commands := if base = [] then [] else [base]
    if _h : rest.length ≤ (earliest rest).1 + (earliest rest).2 then commands
    else commands ++ extractAllCommands (rest.drop ((earliest rest).1 + (earliest rest).2))
termination_by rest.length
decreasing_by exact length_drop_earliest_lt _h

/-- Is the character at `i` an `&` without another one next to it? -/
def isLoneAmpersand (command : List Char) (i : ℕ) : Bool :=
  command[i]? = some '&' &&
    !((0 < i && command[i - 1]? = some '&') || command[i + 1]? = some '&')

/-- `contains_disallowed_shell_metachars`. -/
def containsDisallowedShellMetachars (command : List Char) : Bool :=
  command.contains backquote || (find ['$', '('] command).isSome ||
    (find ['$', Char.ofNat 0x7B] command).isSome || command.contains newline ||
    command.contains (Char.ofNat 0x0D) ||
    (List.range command.length).any (isLoneAmpersand command)

/-- Is the base name in one of the lists? -/
def ExecPolicy.lists (policy : ExecPolicy) (base : String) : Bool :=
  policy.safeBins.any (· = base) || policy.allowedCommands.any (· = base)

/-- `validate_command_allowlist`. -/
def validateCommandAllowlist (command : String) (policy : ExecPolicy) : Except String Unit :=
  match policy.mode with
  | .deny => .error "Shell execution is disabled (exec_policy.mode = deny)"
  | .full => .ok ()
  | .allowlist =>
      if containsDisallowedShellMetachars command.toList then
        .error "command contains shell metacharacters not permitted in allowlist mode"
      else
        match ((extractAllCommands command.toList).map String.ofList).find? (!policy.lists ·) with
        | some base =>
            .error ("Command '" ++ base ++ "' is not in the exec allowlist. Add it to " ++
              "exec_policy.allowed_commands or exec_policy.safe_bins.")
        | none => .ok ()

/-! ### The first word of a part -/

theorem exists_rdropWhile_append {p : Char → Bool} {w : List Char} (hw : ∀ c ∈ w, p c = false)
    (rest : List Char) : ∃ r, r <+: rest ∧ (w ++ rest).rdropWhile p = w ++ r := by
  induction rest using List.reverseRecOn with
  | nil =>
    refine ⟨[], List.nil_prefix, ?_⟩
    rw [List.append_nil, List.rdropWhile_eq_self_iff]
    intro hne
    simp [hw _ (List.getLast_mem hne)]
  | append_singleton rest c ih =>
    obtain ⟨r, hr, hdrop⟩ := ih
    rw [← List.append_assoc, List.rdropWhile_concat]
    split_ifs
    · exact ⟨r, hr.trans (List.prefix_append rest [c]), hdrop⟩
    · exact ⟨rest ++ [c], List.prefix_refl _, List.append_assoc ..⟩

theorem firstWord_eq {w rest : List Char} (hne : w ≠ []) (hw : ∀ c ∈ w, isWhitespace c = false)
    (hrest : ∀ c ∈ rest.head?, isWhitespace c = true) : firstWord (w ++ rest) = w := by
  have hdrop : (w ++ rest).dropWhile isWhitespace = w ++ rest := by
    cases w with
    | nil => exact absurd rfl hne
    | cons c w => simp [hw c (List.mem_cons_self ..)]
  have htake : rest.takeWhile (!isWhitespace ·) = [] := by
    cases rest with
    | nil => rfl
    | cons c rest => simp [hrest c rfl]
  rw [firstWord, hdrop, List.takeWhile_append_of_pos (by simpa using hw), htake, List.append_nil]

/-- The base command of a part that begins with blanks and the word `w`. -/
theorem extractBaseCommand_eq {blanks w rest : List Char}
    (hblanks : ∀ c ∈ blanks, isWhitespace c = true) (hne : w ≠ [])
    (hw : ∀ c ∈ w, isWhitespace c = false) (hrest : ∀ c ∈ rest.head?, isWhitespace c = true) :
    extractBaseCommand (blanks ++ (w ++ rest)) = afterLast '\\' (afterLast '/' w) := by
  have hdrop : (blanks ++ (w ++ rest)).dropWhile isWhitespace = w ++ rest := by
    rw [List.dropWhile_append_of_pos hblanks]
    cases w with
    | nil => exact absurd rfl hne
    | cons c w => simp [hw c (List.mem_cons_self ..)]
  obtain ⟨r, hr, htrim⟩ := exists_rdropWhile_append hw rest
  have hr' : ∀ c ∈ r.head?, isWhitespace c = true := by
    intro c hc
    obtain ⟨u, rfl⟩ := hr
    apply hrest
    rw [List.head?_append, hc]
    rfl
  dsimp only [extractBaseCommand]
  rw [hdrop, htrim, firstWord_eq hne hw hr']

/-! ### The parts -/

/-- The base command of the part a text begins with. -/
def leadingBase (rest : List Char) : List Char := extractBaseCommand (rest.take (earliest rest).1)

theorem leadingBase_mem {rest : List Char} (hne : rest ≠ []) (hbase : leadingBase rest ≠ []) :
    leadingBase rest ∈ extractAllCommands rest := by
  rw [extractAllCommands, if_neg hne]
  unfold leadingBase at hbase
  simp only [if_neg hbase]
  split_ifs
  · exact List.mem_singleton_self _
  · exact List.mem_append_left _ (List.mem_singleton_self _)

theorem mem_of_mem_drop {rest base : List Char}
    (hlt : (earliest rest).1 + (earliest rest).2 < rest.length)
    (h : base ∈ extractAllCommands (rest.drop ((earliest rest).1 + (earliest rest).2))) :
    base ∈ extractAllCommands rest := by
  have hne : rest ≠ [] := by
    rintro rfl
    simp at hlt
  rw [extractAllCommands, if_neg hne]
  simp only [dif_neg (not_le.2 hlt)]
  exact List.mem_append_right _ h

theorem isControl_of_separator {sep : List Char} (h : sep ∈ separators) :
    ∃ c u, sep = c :: u ∧ isControl c = true := by
  simp only [separators, List.mem_cons, List.not_mem_nil, or_false] at h
  rcases h with rfl | rfl | rfl | rfl <;> exact ⟨_, _, rfl, rfl⟩

theorem le_earliest_of_forall {rest : List Char} {n : ℕ} (hn : n ≤ rest.length)
    (h : ∀ i < n, ∀ sep ∈ separators, ¬ sep <+: rest.drop i) : n ≤ (earliest rest).1 := by
  by_contra hlt
  rw [not_le] at hlt
  obtain ⟨sep, hsep, hat, -⟩ := separator_at_earliest (hlt.trans_le hn)
  exact h _ hlt sep hsep hat

/-- No separator begins with a character that is not a control operator. -/
theorem not_separator_of_getElem? {rest sep : List Char} {i : ℕ} {c : Char}
    (hsep : sep ∈ separators) (hget : rest[i]? = some c) (hc : isControl c = false) :
    ¬ sep <+: rest.drop i := by
  obtain ⟨d, u, rfl, hd⟩ := isControl_of_separator hsep
  rintro ⟨v, hv⟩
  rw [← List.head?_drop, ← hv] at hget
  obtain rfl : d = c := Option.some.inj hget
  rw [hc] at hd
  cases hd

/-- No part ends inside a text without control operators. -/
theorem le_earliest {pre t : List Char} (hpre : ∀ c ∈ pre, isControl c = false) :
    pre.length ≤ (earliest (pre ++ t)).1 := by
  refine le_earliest_of_forall (by simp) ?_
  intro i hi sep hsep
  refine not_separator_of_getElem? hsep ?_ (hpre pre[i] (List.getElem_mem hi))
  rw [List.getElem?_append_left hi, List.getElem?_eq_getElem hi]

theorem le_earliest_ampersand {pre t : List Char} (hpre : ∀ c ∈ pre, isControl c = false)
    (hhead : (pre ++ t).head? ≠ some '&') :
    ('&' :: pre).length ≤ (earliest ('&' :: pre ++ t)).1 := by
  refine le_earliest_of_forall (by simp) ?_
  intro i hi sep hsep
  cases i with
  | zero =>
    intro hat
    rw [List.drop_zero] at hat
    apply hhead
    simp only [separators, List.mem_cons, List.not_mem_nil, or_false] at hsep
    rcases hsep with rfl | rfl | rfl | rfl
    · obtain ⟨v, hv⟩ : ['&'] <+: pre ++ t := (List.cons_prefix_cons.1 hat).2
      rw [← hv]
      rfl
    all_goals
      have := (List.cons_prefix_cons.1 hat).1
      exact absurd this (by decide)
  | succ i =>
    rw [List.length_cons, Nat.succ_lt_succ_iff] at hi
    refine not_separator_of_getElem? hsep ?_ (hpre pre[i] (List.getElem_mem hi))
    rw [List.cons_append, List.getElem?_cons_succ, List.getElem?_append_left hi,
      List.getElem?_eq_getElem hi]

theorem isWhitespace_of_isBlank {c : Char} (h : isBlank c = true) : isWhitespace c = true := by
  simp only [isBlank, Bool.or_eq_true, decide_eq_true_eq] at h
  rcases h with rfl | rfl <;> rfl

/-- The base command of a part that begins with the word `w`, whatever comes after it. -/
theorem leadingBase_eq {blanks w rest : List Char} (hblanks : ∀ c ∈ blanks, isBlank c = true)
    (hne : w ≠ []) (hw : ∀ c ∈ w, isWhitespace c = false)
    (hle : (blanks ++ w).length ≤ (earliest (blanks ++ w ++ rest)).1)
    (hrest : (∀ c ∈ rest.head?, isWhitespace c = true) ∨
      (earliest (blanks ++ w ++ rest)).1 ≤ (blanks ++ w).length) :
    leadingBase (blanks ++ w ++ rest) = afterLast '\\' (afterLast '/' w) := by
  have hwhite : ∀ c ∈ blanks, isWhitespace c = true := fun c hc =>
    isWhitespace_of_isBlank (hblanks c hc)
  have htake : (blanks ++ w ++ rest).take (earliest (blanks ++ w ++ rest)).1 =
      blanks ++ (w ++ rest.take ((earliest (blanks ++ w ++ rest)).1 - (blanks ++ w).length)) := by
    rw [List.take_append, List.take_of_length_le hle, List.append_assoc]
  rw [leadingBase, htake]
  refine extractBaseCommand_eq hwhite hne hw ?_
  intro c hc
  rcases hrest with hrest | hrest
  · apply hrest
    cases rest with
    | nil => simp at hc
    | cons d rest =>
      rw [List.head?_take] at hc
      split_ifs at hc
      · cases hc
      · exact hc
  · rw [Nat.sub_eq_zero_of_le hrest] at hc
    cases hc

theorem isControl_of_mem_separator {sep : List Char} (h : sep ∈ separators) :
    ∀ c ∈ sep, isControl c = true := by
  have hall : separators.all (·.all isControl) = true := by decide
  exact List.all_eq_true.1 (List.all_eq_true.1 hall sep h)

theorem length_separator {sep : List Char} (h : sep ∈ separators) :
    0 < sep.length ∧ sep.length ≤ 2 := by
  simp only [separators, List.mem_cons, List.not_mem_nil, or_false] at h
  rcases h with rfl | rfl | rfl | rfl <;> decide

theorem suffix_separator {sep v : List Char} (h : sep ∈ separators) (hv : v <:+ sep) :
    v = [] ∨ v ∈ separators ∨ sep = ['&', '&'] ∧ v = ['&'] := by
  simp only [separators, List.mem_cons, List.not_mem_nil, or_false] at h ⊢
  rcases h with rfl | rfl | rfl | rfl <;>
    simp only [List.suffix_cons_iff, List.suffix_nil] at hv <;> tauto

/-- The first cut in a text with a separator before `t` comes before `t`. -/
theorem exists_cut {b sep₀ t : List Char} (hsep₀ : sep₀ ∈ separators)
    (hhead : ∀ c ∈ t.head?, isControl c = false) :
    ∃ a, ∃ sep ∈ separators, ∃ v, b ++ sep₀ = a ++ sep ++ v ∧
      earliest (b ++ sep₀ ++ t) = (a.length, sep.length) := by
  have hle : (earliest (b ++ sep₀ ++ t)).1 ≤ b.length := by
    rw [List.append_assoc]
    exact earliest_le hsep₀ b t
  have hlt : (earliest (b ++ sep₀ ++ t)).1 < (b ++ sep₀ ++ t).length := by
    have := (length_separator hsep₀).1
    rw [List.length_append, List.length_append]
    omega
  obtain ⟨sep, hsep, ⟨u, hu⟩, hlen⟩ := separator_at_earliest hlt
  generalize hpos : (earliest (b ++ sep₀ ++ t)).1 = pos at *
  have hrest : (b ++ sep₀ ++ t).take pos ++ (sep ++ u) = b ++ (sep₀ ++ t) := by
    rw [hu, List.take_append_drop, List.append_assoc]
  have hpos' : ((b ++ sep₀ ++ t).take pos).length = pos := List.length_take_of_le hlt.le
  generalize (b ++ sep₀ ++ t).take pos = a at *
  have hfits : (a ++ sep).length ≤ (b ++ sep₀).length := by
    rw [List.length_append, List.length_append]
    have h₀ := length_separator hsep₀
    have h₁ := length_separator hsep
    by_contra hlong
    obtain ⟨rfl, htail⟩ := List.append_inj hrest (by omega)
    have hpre : sep₀ <+: sep :=
      List.prefix_of_prefix_length_le (List.prefix_append sep₀ t) ⟨u, htail⟩ (by omega)
    obtain ⟨v, rfl⟩ := hpre
    rw [List.append_assoc, List.append_cancel_left_eq] at htail
    cases v with
    | nil => simp at hlong
    | cons c v =>
      have hc := isControl_of_mem_separator hsep c (by simp)
      rw [hhead c (by rw [← htail]; rfl)] at hc
      cases hc
  have hpre : a ++ sep <+: b ++ sep₀ := by
    have hboth : a ++ sep <+: b ++ sep₀ ++ t :=
      ⟨u, by rw [List.append_assoc, hrest, List.append_assoc]⟩
    exact List.prefix_of_prefix_length_le hboth (List.prefix_append _ t) hfits
  obtain ⟨v, hv⟩ := hpre
  refine ⟨a, sep, hsep, v, hv.symm, ?_⟩
  rw [← hlen, hpos', ← hpos]

/-- Cutting at separators arrives at what stands behind a separator, or at its second half. -/
theorem mem_extractAllCommands {pre t : List Char} (hne : t ≠ [])
    (hhead : ∀ c ∈ t.head?, isControl c = false)
    (hpre : pre = [] ∨ ∃ sep ∈ separators, sep <:+ pre) :
    (leadingBase t ≠ [] → leadingBase t ∈ extractAllCommands (pre ++ t)) ∨
      ['&', '&', '&'] <:+ pre ∧ (leadingBase ('&' :: t) ≠ [] →
        leadingBase ('&' :: t) ∈ extractAllCommands (pre ++ t)) := by
  induction hn : pre.length using Nat.strong_induction_on generalizing pre with
  | _ n ih =>
    subst hn
    rcases hpre with rfl | ⟨sep₀, hsep₀, b, rfl⟩
    · exact Or.inl (leadingBase_mem hne)
    · obtain ⟨a, sep, hsep, v, hv, hearliest⟩ := exists_cut (b := b) hsep₀ hhead
      have hmem : ∀ base ∈ extractAllCommands (v ++ t),
          base ∈ extractAllCommands (b ++ sep₀ ++ t) := by
        intro base hbase
        have hdrop : (b ++ sep₀ ++ t).drop (a.length + sep.length) = v ++ t := by
          rw [hv, List.append_assoc, ← List.length_append, List.drop_left]
        apply mem_of_mem_drop
        · rw [hearliest, hv]
          have := List.length_pos_iff.2 hne
          simp only [List.length_append]
          omega
        · rwa [hearliest, hdrop]
      have hshort : v.length < (b ++ sep₀).length := by
        have := (length_separator hsep).1
        rw [hv]
        simp only [List.length_append]
        omega
      have hsuffix : v <:+ b ++ sep₀ := ⟨a ++ sep, hv.symm⟩
      -- what is left before `t` still ends with the separator, or is a part of it
      have hleft : (v = [] ∨ ∃ sep ∈ separators, sep <:+ v) ∨ sep₀ = ['&', '&'] ∧ v = ['&'] := by
        rcases List.suffix_or_suffix_of_suffix (List.suffix_append b sep₀) hsuffix with h | h
        · exact Or.inl (Or.inr ⟨sep₀, hsep₀, h⟩)
        · rcases suffix_separator hsep₀ h with h | h | h
          · exact Or.inl (Or.inl h)
          · exact Or.inl (Or.inr ⟨v, h, List.suffix_refl v⟩)
          · exact Or.inr h
      rcases hleft with hleft | ⟨rfl, rfl⟩
      · rcases ih v.length hshort hleft rfl with h | ⟨h, h'⟩
        · exact Or.inl fun hbase => hmem _ (h hbase)
        · exact Or.inr ⟨h.trans hsuffix, fun hbase => hmem _ (h' hbase)⟩
      · refine Or.inr ⟨?_, fun hbase => hmem _ (leadingBase_mem (by simp) hbase)⟩
        have hlast : b ++ ['&'] = a ++ sep :=
          List.append_cancel_right (by simpa using hv : b ++ ['&'] ++ ['&'] = a ++ sep ++ ['&'])
        have hsep' : sep.getLast? = some '&' := by
          have hne' : sep ≠ [] := List.length_pos_iff.1 (length_separator hsep).1
          rw [← List.getLast?_append_of_ne_nil a hne', ← hlast, List.getLast?_concat]
        obtain rfl : sep = ['&', '&'] := by
          simp only [separators, List.mem_cons, List.not_mem_nil, or_false] at hsep
          rcases hsep with rfl | rfl | rfl | rfl
          · rfl
          all_goals cases hsep'
        exact ⟨a, by rw [hv, List.append_assoc]; rfl⟩

/-! ### The check -/

theorem not_isLoneAmpersand {a b : List Char}
    (h : (List.range (a ++ '&' :: b).length).any (isLoneAmpersand (a ++ '&' :: b)) = false) :
    a.getLast? = some '&' ∨ b.head? = some '&' := by
  have hlone : isLoneAmpersand (a ++ '&' :: b) a.length = false := by
    rw [List.any_eq_false] at h
    simpa using h a.length (by simp)
  have hhere : (a ++ '&' :: b)[a.length]? = some '&' := by simp
  have hnext : (a ++ '&' :: b)[a.length + 1]? = b.head? := by
    rw [List.getElem?_append_right (Nat.le_succ _), List.head?_eq_getElem?]
    simp
  simp only [isLoneAmpersand, hhere, hnext, decide_true, Bool.true_and, Bool.not_eq_false',
    Bool.or_eq_true, Bool.and_eq_true, decide_eq_true_eq] at hlone
  rcases hlone with ⟨hpos, hprev⟩ | hnext
  · rw [List.getElem?_append_left (by omega), ← List.getLast?_eq_getElem?] at hprev
    exact Or.inl hprev
  · exact Or.inr hnext

theorem accepted_spec {command : String} {policy : ExecPolicy} (hmode : policy.mode = .allowlist)
    (hok : validateCommandAllowlist command policy = .ok ()) :
    newline ∉ command.toList ∧
      (List.range command.toList.length).any (isLoneAmpersand command.toList) = false ∧
      ∀ base ∈ extractAllCommands command.toList, policy.lists (String.ofList base) = true := by
  simp only [validateCommandAllowlist, hmode] at hok
  split_ifs at hok with hmeta
  split at hok
  · cases hok
  · next hfind =>
    simp only [containsDisallowedShellMetachars, Bool.or_eq_true, not_or, Bool.not_eq_true] at hmeta
    refine ⟨by simpa using hmeta.1.1.2, hmeta.2, ?_⟩
    intro base hbase
    have := List.find?_eq_none.1 hfind (String.ofList base) (List.mem_map_of_mem hbase)
    simpa using this

theorem ne_ampersand_of_isWordChar {c : Char} (h : isWordChar c = true) : c ≠ '&' := by
  rintro rfl
  revert h
  decide

theorem isControl_eq_false_of_isWordChar {c : Char} (h : isWordChar c = true) :
    isControl c = false := by
  simp only [isWordChar, isDelimiter, Bool.and_eq_true, Bool.not_eq_true',
    Bool.or_eq_false_iff] at h
  exact h.1.2

theorem isControl_eq_false_of_isBlank {c : Char} (h : isBlank c = true) : isControl c = false := by
  simp only [isBlank, Bool.or_eq_true, decide_eq_true_eq] at h
  rcases h with rfl | rfl <;> decide

/-- A control operator in an accepted string ends a separator, unless an `&` comes next. -/
theorem separator_before {a b : List Char} {c : Char} (hc : isControl c = true)
    (hnewline : newline ∉ a ++ c :: b)
    (hlone : (List.range (a ++ c :: b).length).any (isLoneAmpersand (a ++ c :: b)) = false)
    (hb : b.head? ≠ some '&') : ∃ sep ∈ separators, sep <:+ a ++ [c] := by
  simp only [isControl, Bool.or_eq_true, decide_eq_true_eq] at hc
  rcases hc with ((rfl | rfl) | rfl) | rfl
  · exact ⟨[';'], by decide, List.suffix_append a [';']⟩
  · obtain ⟨u, rfl⟩ : ∃ u, a = u ++ ['&'] :=
      List.getLast?_eq_some_iff.1 ((not_isLoneAmpersand hlone).resolve_right hb)
    exact ⟨['&', '&'], by decide, u, by simp⟩
  · exact ⟨['|'], by decide, List.suffix_append a ['|']⟩
  · exact absurd (by simp) hnewline

/-- A control operator in an accepted string begins a separator, unless an `&` comes before it. -/
theorem separator_behind {a b : List Char} {c : Char} (hc : isControl c = true)
    (hnewline : newline ∉ a ++ c :: b)
    (hlone : (List.range (a ++ c :: b).length).any (isLoneAmpersand (a ++ c :: b)) = false)
    (ha : a.getLast? ≠ some '&') : ∃ sep ∈ separators, sep <+: c :: b := by
  simp only [isControl, Bool.or_eq_true, decide_eq_true_eq] at hc
  rcases hc with ((rfl | rfl) | rfl) | rfl
  · exact ⟨[';'], by decide, List.prefix_append [';'] b⟩
  · obtain ⟨u, rfl⟩ : ∃ u, b = '&' :: u :=
      List.head?_eq_some_iff.1 ((not_isLoneAmpersand hlone).resolve_left ha)
    exact ⟨['&', '&'], by decide, List.prefix_append ['&', '&'] u⟩
  · exact ⟨['|'], by decide, List.prefix_append ['|'] b⟩
  · exact absurd (by simp) hnewline

theorem afterLast_eq_self {sep : Char} {w : List Char} (h : sep ∉ w) : afterLast sep w = w := by
  rw [afterLast, List.rtakeWhile_eq_self_iff]
  intro c hc
  rw [decide_eq_true_eq]
  rintro rfl
  exact h hc

theorem afterLast_suffix (sep : Char) (w : List Char) : afterLast sep w <:+ w :=
  List.rtakeWhile_suffix _ w

theorem afterLast_cons (sep c : Char) (w : List Char) :
    afterLast sep (c :: w) = afterLast sep w ∨ afterLast sep (c :: w) = c :: w := by
  induction w using List.reverseRecOn with
  | nil =>
    by_cases hc : c = sep
    · left
      simp [afterLast, List.rtakeWhile, hc]
    · exact Or.inr (afterLast_eq_self (by simpa using Ne.symm hc))
  | append_singleton w d ih =>
    unfold afterLast at ih ⊢
    rw [← List.cons_append, List.rtakeWhile_concat, List.rtakeWhile_concat]
    split_ifs
    · exact ih.imp (congrArg (· ++ [d])) (congrArg (· ++ [d]))
    · exact Or.inl rfl

/-- The part after the last slash of a word. -/
def baseName (w : List Char) : List Char := afterLast '/' w

theorem afterLast_backslash {w : List Char} (hw : ∀ c ∈ w, isWordChar c = true ∨ c = '&') :
    afterLast '\\' (afterLast '/' w) = baseName w := by
  apply afterLast_eq_self
  intro hmem
  rcases hw _ ((afterLast_suffix '/' w).subset hmem) with h | h
  · revert h
    decide
  · revert h
    decide

section Accepted

variable {pre blanks w rest : List Char}

/-- The base command the check sees where a plain command word stands. -/
theorem leadingBase_word (hblanks : ∀ c ∈ blanks, isBlank c = true)
    (hchars : ∀ c ∈ w, isWordChar c = true) (hne : w ≠ [])
    (hwhite : ∀ c ∈ w, isWhitespace c = false)
    (hrest : (∀ c ∈ rest.head?, isWhitespace c = true) ∨ ∃ sep ∈ separators, sep <+: rest) :
    leadingBase (blanks ++ w ++ rest) = baseName w := by
  have hle : (blanks ++ w).length ≤ (earliest (blanks ++ w ++ rest)).1 := by
    apply le_earliest
    intro c hc
    rcases List.mem_append.1 hc with hc | hc
    · exact isControl_eq_false_of_isBlank (hblanks c hc)
    · exact isControl_eq_false_of_isWordChar (hchars c hc)
  rw [leadingBase_eq hblanks hne hwhite hle, afterLast_backslash (fun c hc => Or.inl (hchars c hc))]
  refine hrest.imp_right ?_
  rintro ⟨sep, hsep, v, rfl⟩
  exact earliest_le hsep (blanks ++ w) v

/-- The base command it sees one `&` before that. -/
theorem leadingBase_ampersand (hblanks : ∀ c ∈ blanks, isBlank c = true)
    (hchars : ∀ c ∈ w, isWordChar c = true) (hne : w ≠ [])
    (hwhite : ∀ c ∈ w, isWhitespace c = false)
    (hrest : (∀ c ∈ rest.head?, isWhitespace c = true) ∨ ∃ sep ∈ separators, sep <+: rest) :
    leadingBase ('&' :: (blanks ++ w ++ rest)) = baseName w ∨
      ∃ e, leadingBase ('&' :: (blanks ++ w ++ rest)) = '&' :: e := by
  cases blanks with
  | nil =>
    have hle : ('&' :: w).length ≤ (earliest ('&' :: w ++ rest)).1 := by
      refine le_earliest_ampersand (fun c hc => isControl_eq_false_of_isWordChar (hchars c hc)) ?_
      rw [List.head?_append_of_ne_nil _ hne]
      intro hamp
      exact ne_ampersand_of_isWordChar (hchars _ (List.mem_of_head? hamp)) rfl
    have heq : leadingBase ([] ++ ('&' :: w) ++ rest) =
        afterLast '\\' (afterLast '/' ('&' :: w)) := by
      refine leadingBase_eq (by simp) (by simp) ?_ hle (hrest.imp_right ?_)
      · intro c hc
        rcases List.mem_cons.1 hc with rfl | hc
        · rfl
        · exact hwhite c hc
      · rintro ⟨sep, hsep, v, rfl⟩
        exact earliest_le hsep ('&' :: w) v
    rw [afterLast_backslash] at heq
    · rcases afterLast_cons '/' '&' w with h | h
      · exact Or.inl (heq.trans h)
      · exact Or.inr ⟨w, heq.trans h⟩
    · intro c hc
      rcases List.mem_cons.1 hc with rfl | hc
      · exact Or.inr rfl
      · exact Or.inl (hchars c hc)
  | cons b blanks =>
    have hb := hblanks b (List.mem_cons_self ..)
    have hle : ['&'].length ≤ (earliest (['&'] ++ (b :: blanks ++ w ++ rest))).1 := by
      refine le_earliest_ampersand (by simp) ?_
      intro hamp
      obtain rfl : b = '&' := Option.some.inj hamp
      revert hb
      decide
    right
    refine ⟨[], ?_⟩
    have heq : leadingBase ([] ++ ['&'] ++ (b :: blanks ++ w ++ rest)) =
        afterLast '\\' (afterLast '/' ['&']) := by
      refine leadingBase_eq (by simp) (by simp) (by simp; rfl) hle (Or.inl ?_)
      intro c hc
      obtain rfl : b = c := Option.some.inj hc
      exact isWhitespace_of_isBlank hb
    exact heq.trans (by decide)

end Accepted

theorem listed_of_accepted {command : String} {policy : ExecPolicy}
    (hmode : policy.mode = .allowlist)
    (hok : validateCommandAllowlist command policy = .ok ()) {commands : List (List Token)}
    (hcommands : commandList command.toList = some commands) {simple : List Token}
    (hmem : simple ∈ commands) {w : List Char} (hword : plainCommandWord? simple = some w)
    (hwhite : ∀ c ∈ w, isWhitespace c = false) :
    baseName w = [] ∨ policy.lists (String.ofList (baseName w)) = true ∨
      ['&', '&', '&'] <:+: command.toList ∧
        ∃ e, policy.lists (String.ofList ('&' :: e)) = true := by
  obtain ⟨hnewline, hlone, hlists⟩ := accepted_spec hmode hok
  obtain ⟨q, rest, htext, ⟨pre, blanks, rfl, hpre, hblanks, hchars⟩, hne, hrest⟩ :=
    (stands_of_mem_commandList hnewline hcommands hmem hword).split
  generalize command.toList = text at *
  have hrest' : (∀ c ∈ rest.head?, isWhitespace c = true) ∨ ∃ sep ∈ separators, sep <+: rest := by
    cases rest with
    | nil => exact Or.inl (by simp)
    | cons d rest =>
      have hd := hrest d rfl
      rw [isDelimiter, Bool.or_eq_true] at hd
      rcases hd with hd | hd
      · refine Or.inl fun c hc => ?_
        rw [← Option.some.inj hc]
        exact isWhitespace_of_isBlank hd
      · rw [htext] at hnewline hlone
        refine Or.inr (separator_behind hd hnewline hlone ?_)
        rw [List.getLast?_append_of_ne_nil _ hne]
        intro hlast
        exact ne_ampersand_of_isWordChar (hchars _ (List.mem_of_getLast? hlast)) rfl
  have hhead : ∀ c ∈ (blanks ++ w ++ rest).head?, isControl c = false := by
    intro c hc
    rw [List.append_assoc, List.head?_append] at hc
    cases blanks with
    | nil =>
      rw [List.head?_append_of_ne_nil _ hne] at hc
      exact isControl_eq_false_of_isWordChar (hchars c (List.mem_of_head? hc))
    | cons b blanks =>
      obtain rfl : b = c := Option.some.inj hc
      exact isControl_eq_false_of_isBlank (hblanks b (List.mem_cons_self ..))
  have htext' : text = pre ++ (blanks ++ w ++ rest) := by
    rw [htext]
    simp only [List.append_assoc]
  have hpre' : pre = [] ∨ ∃ sep ∈ separators, sep <:+ pre := by
    rcases List.eq_nil_or_concat pre with rfl | ⟨a, c, rfl⟩
    · exact Or.inl rfl
    · right
      rw [List.concat_eq_append] at *
      have hsplit : a ++ [c] ++ (blanks ++ w ++ rest) = a ++ c :: (blanks ++ w ++ rest) := by simp
      rw [htext', hsplit] at hnewline hlone
      refine separator_before (hpre c (by simp)) hnewline hlone ?_
      intro hamp
      have := hhead '&' hamp
      revert this
      decide
  have hne' : blanks ++ w ++ rest ≠ [] := by simp [hne]
  have hlisted : ∀ base ≠ [], base ∈ extractAllCommands (pre ++ (blanks ++ w ++ rest)) →
      policy.lists (String.ofList base) = true := by
    intro base _ hbase
    exact hlists base (by rwa [htext'])
  by_cases hbase : baseName w = []
  · exact Or.inl hbase
  right
  rcases mem_extractAllCommands hne' hhead hpre' with h | ⟨htriple, h⟩
  · rw [leadingBase_word hblanks hchars hne hwhite hrest'] at h
    exact Or.inl (hlisted _ hbase (h hbase))
  · rcases leadingBase_ampersand hblanks hchars hne hwhite hrest' with heq | ⟨e, heq⟩
    · rw [heq] at h
      exact Or.inl (hlisted _ hbase (h hbase))
    · rw [heq] at h
      refine Or.inr ⟨?_, e, hlisted _ (by simp) (h (by simp))⟩
      obtain ⟨u, rfl⟩ := htriple
      exact ⟨u, blanks ++ w ++ rest, htext'.symm⟩

/-- The policy of the examples: one safe command. -/
def onlyLs : ExecPolicy := { mode := .allowlist, safeBins := ["ls"], allowedCommands := [] }

theorem extractAllCommands_last {rest : List Char} (hne : rest ≠ [])
    (h : rest.length ≤ (earliest rest).1 + (earliest rest).2) :
    extractAllCommands rest = if leadingBase rest = [] then [] else [leadingBase rest] := by
  rw [extractAllCommands, if_neg hne, dif_pos h]
  rfl

/-- A command word that is a path is accepted for its last component. -/
theorem exists_unlisted_command :
    ¬ ∀ (command : String) (policy : ExecPolicy), policy.mode = .allowlist →
      validateCommandAllowlist command policy = .ok () →
      ∀ commands, commandList command.toList = some commands → ∀ simple ∈ commands,
        ∀ w, commandWord? simple = some w → policy.lists (String.ofList w) = true := by
  intro hall
  have hparts : extractAllCommands "/evil/ls".toList = ["ls".toList] := by
    rw [extractAllCommands_last (by decide) (by decide)]
    decide
  have hok : validateCommandAllowlist "/evil/ls" onlyLs = .ok () := by
    simp only [validateCommandAllowlist, onlyLs, hparts]
    decide
  have := hall "/evil/ls" onlyLs rfl hok
    [[.word ("/evil/ls".toList.map .bare) true]] (by decide) _ (List.mem_singleton_self _)
    "/evil/ls".toList (by decide)
  revert this
  decide

theorem listed_of_accepted_pipeline :
    baseName "ls".toList = [] ∨ onlyLs.lists (String.ofList (baseName "ls".toList)) = true ∨
      ['&', '&', '&'] <:+: "/bin/ls -l | ls".toList ∧
        ∃ e, onlyLs.lists (String.ofList ('&' :: e)) = true := by
  have hparts : extractAllCommands "/bin/ls -l | ls".toList = ["ls".toList, "ls".toList] := by
    have hlast : extractAllCommands " ls".toList = ["ls".toList] := by
      rw [extractAllCommands_last (by decide) (by decide)]
      decide
    rw [extractAllCommands, if_neg (by decide), dif_neg (by decide)]
    have hdrop : "/bin/ls -l | ls".toList.drop ((earliest "/bin/ls -l | ls".toList).1 +
        (earliest "/bin/ls -l | ls".toList).2) = " ls".toList := by decide
    rw [hdrop, hlast]
    decide
  have hok : validateCommandAllowlist "/bin/ls -l | ls" onlyLs = .ok () := by
    simp only [validateCommandAllowlist, onlyLs, hparts]
    decide
  have hmem : [Token.word ("ls".toList.map .bare) true] ∈
      [[Token.word ("/bin/ls".toList.map .bare) true, .word ("-l".toList.map .bare) true],
        [.word ("ls".toList.map .bare) true]] := by decide
  have hwhite : "ls".toList.all (!isWhitespace ·) = true := by decide
  exact listed_of_accepted rfl hok (by decide) hmem (by decide) (by simpa using hwhite)

end SubprocessSandbox
end RustyHand
