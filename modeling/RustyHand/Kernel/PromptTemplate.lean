import RustyHand.Kernel.Workflow

/-!
# Prompt templates

`expand_variables` of `rusty-hand-kernel/src/workflow.rs` passes once over a template.  A template
is meant as a sequence of literal pieces and of placeholders; which one a text is depends on where
its placeholders are taken to begin, and the code takes the first pair of braces from the left.

* `Piece`, `template`, `substituted`: a template as it is meant, its text, and what it stands for;
* `Misread`: a placeholder of the text begins in a literal piece;
* `expandVariables_eq_iff`.
-/

namespace RustyHand
namespace Workflows

/-! ### Templates as they are meant -/

/-- A piece of a template. -/
inductive Piece
  | literal (text : String)
  | placeholder (name : String)

/-- The characters of a piece. -/
def Piece.chars : Piece → List Char
  | literal text => text.toList
  | placeholder name => '\x7b' :: '\x7b' :: name.toList ++ ['\x7d', '\x7d']

/-- The text of a template. -/
def template (pieces : List Piece) : String := String.ofList (pieces.flatMap Piece.chars)

/-- What a piece stands for.  An unknown placeholder stands for itself. -/
def Piece.value (input : String) (vars : String → Option String) : Piece → List Char
  | literal text => text.toList
  | placeholder name =>
    if Text.trim name = "input" then input.toList
    else ((vars (Text.trim name)).map String.toList).getD (placeholder name).chars

/-- The literals and the values of the placeholders, in order. -/
def substituted (pieces : List Piece) (input : String) (vars : String → Option String) : String :=
  String.ofList (pieces.flatMap (Piece.value input vars))

/-- A placeholder of that name ends where its name does. -/
def EndsWithName (name : String) : Prop := ¬ ['\x7d', '\x7d'] <:+: name.toList ++ ['\x7d']

/-- A placeholder begins in front. -/
def Opens (chars : List Char) : Prop :=
  ∃ tail, chars = '\x7b' :: '\x7b' :: tail ∧ ['\x7d', '\x7d'] <:+: tail

/-- A placeholder of the text begins at a character of a literal piece. -/
def Misread (pieces : List Piece) : Prop :=
  ∃ before text after front back, pieces = before ++ .literal text :: after ∧
    text.toList = front ++ back ∧ back ≠ [] ∧ Opens (back ++ after.flatMap Piece.chars)

variable {input : String} {vars : String → Option String} {pieces : List Piece}

/-! ### The scanner -/

theorem splitOnce_of_endsWithName {name : String} (h : EndsWithName name) (after : List Char) :
    Text.splitOnce ['\x7d', '\x7d'] (name.toList ++ '\x7d' :: '\x7d' :: after) =
      some (name.toList, after) := by
  have hall : ∀ cs : List Char, ¬ ['\x7d', '\x7d'] <:+: cs ++ ['\x7d'] →
      Text.splitOnce ['\x7d', '\x7d'] (cs ++ '\x7d' :: '\x7d' :: after) = some (cs, after) := by
    intro cs
    induction cs with
    | nil =>
      intro _
      rw [List.nil_append, Text.splitOnce, if_pos ⟨after, rfl⟩]
      rfl
    | cons c cs ih =>
      intro hcs
      rw [List.cons_append, List.infix_cons_iff, not_or] at hcs
      obtain ⟨hfront, hback⟩ := hcs
      have hpre : ¬ ['\x7d', '\x7d'] <+: c :: (cs ++ '\x7d' :: '\x7d' :: after) := by
        intro hpre
        apply hfront
        obtain ⟨hc, htail⟩ := List.cons_prefix_cons.1 hpre
        refine List.cons_prefix_cons.2 ⟨hc, ?_⟩
        cases cs with
        | nil => exact List.prefix_refl _
        | cons d cs =>
          obtain ⟨hd, -⟩ := List.cons_prefix_cons.1 htail
          exact List.cons_prefix_cons.2 ⟨hd, List.nil_prefix⟩
      rw [List.cons_append, Text.splitOnce, if_neg hpre, ih hback]
      rfl
  exact hall name.toList h

/-- A character at which no placeholder begins is copied. -/
theorem expandChars_cons {c : Char} {rest : List Char} (h : ¬ Opens (c :: rest)) :
    expandChars input vars (c :: rest) = c :: expandChars input vars rest := by
  rw [expandChars.eq_def]
  split
  · rename_i heq
    exact absurd heq (List.cons_ne_nil c rest)
  · rename_i tail heq
    obtain ⟨rfl, rfl⟩ := List.cons.inj heq
    split
    · rename_i name after hsplit
      refine absurd ⟨tail, rfl, ?_⟩ h
      rw [Text.eq_of_splitOnce hsplit]
      exact ⟨name, after, by simp⟩
    · rfl
  · rename_i heq
    obtain ⟨rfl, rfl⟩ := List.cons.inj heq
    rfl

theorem expandChars_placeholder {name : String} (h : EndsWithName name) (after : List Char) :
    expandChars input vars ((Piece.placeholder name).chars ++ after) =
      (Piece.placeholder name).value input vars ++ expandChars input vars after := by
  have hchars : (Piece.placeholder name).chars ++ after =
      '\x7b' :: '\x7b' :: (name.toList ++ '\x7d' :: '\x7d' :: after) := by
    simp [Piece.chars]
  rw [hchars, expandChars, Piece.value]
  split
  · rename_i name' after' hsplit
    rw [splitOnce_of_endsWithName h] at hsplit
    obtain ⟨rfl, rfl⟩ := Prod.mk.inj (Option.some.inj hsplit)
    rw [String.ofList_toList]
    dsimp only
    split_ifs with hinput
    · rfl
    · cases vars (Text.trim name) with
      | none => rfl
      | some value => rfl
  · rename_i hsplit
    rw [splitOnce_of_endsWithName h] at hsplit
    exact absurd hsplit (Option.some_ne_none _)

/-- Literal text in which no placeholder begins is copied. -/
theorem expandChars_literal {rest : List Char} (text : List Char)
    (h : ∀ front back, text = front ++ back → back ≠ [] → ¬ Opens (back ++ rest)) :
    expandChars input vars (text ++ rest) = text ++ expandChars input vars rest := by
  induction text with
  | nil => rfl
  | cons c text ih =>
    have hcons : ¬ Opens (c :: (text ++ rest)) := h [] (c :: text) rfl (List.cons_ne_nil c text)
    rw [List.cons_append, expandChars_cons hcons, ih fun front back heq hne =>
      h (c :: front) back (by rw [heq, List.cons_append]) hne]
    rfl

/-- Where a placeholder does begin, what its value is shows. -/
theorem expandChars_ne_of_opens {rest expected : List Char} (text : List Char)
    (h : ∃ front back, text = front ++ back ∧ back ≠ [] ∧ Opens (back ++ rest)) :
    expandChars "v" (fun _ => some "v") (text ++ rest) ≠ text ++ expected := by
  induction text with
  | nil =>
    obtain ⟨front, back, heq, hne, -⟩ := h
    exact absurd (List.append_eq_nil_iff.1 heq.symm).2 hne
  | cons c text ih =>
    by_cases hopens : Opens (c :: (text ++ rest))
    · obtain ⟨tail, heq, hclose⟩ := hopens
      rw [List.cons_append, heq, expandChars]
      split
      · -- the value begins with another character than the brace
        have hc : c = '\x7b' := (List.cons.inj heq).1
        simp [hc]
      · rename_i hsplit
        exact absurd hclose ((Text.splitOnce_eq_none_iff (by simp) tail).1 hsplit)
    · obtain ⟨front, back, heq, hne, hback⟩ := h
      cases front with
      | nil =>
        rw [List.nil_append] at heq
        subst heq
        exact absurd hback hopens
      | cons d front =>
        rw [List.cons_append] at heq
        obtain ⟨-, rfl⟩ := List.cons.inj heq
        rw [List.cons_append, expandChars_cons hopens]
        exact fun heq => ih ⟨front, back, rfl, hne, hback⟩ (List.cons.inj heq).2

/-! ### Readings -/

theorem misread_literal_iff {text : String} :
    Misread (.literal text :: pieces) ↔
      (∃ front back, text.toList = front ++ back ∧ back ≠ [] ∧
        Opens (back ++ pieces.flatMap Piece.chars)) ∨ Misread pieces := by
  constructor
  · rintro ⟨before, text', after, front, back, heq, hrest⟩
    cases before with
    | nil =>
      obtain ⟨htext, rfl⟩ := List.cons.inj heq
      obtain rfl := Piece.literal.inj htext
      exact .inl ⟨front, back, hrest⟩
    | cons piece before =>
      obtain ⟨-, rfl⟩ := List.cons.inj heq
      exact .inr ⟨before, text', after, front, back, rfl, hrest⟩
  · rintro (⟨front, back, hrest⟩ | ⟨before, text', after, front, back, rfl, hrest⟩)
    · exact ⟨[], text, pieces, front, back, rfl, hrest⟩
    · exact ⟨.literal text :: before, text', after, front, back, rfl, hrest⟩

theorem misread_placeholder_iff {name : String} :
    Misread (.placeholder name :: pieces) ↔ Misread pieces := by
  constructor
  · rintro ⟨before, text, after, front, back, heq, hrest⟩
    cases before with
    | nil => exact Piece.noConfusion (List.cons.inj heq).1
    | cons piece before =>
      obtain ⟨-, rfl⟩ := List.cons.inj heq
      exact ⟨before, text, after, front, back, rfl, hrest⟩
  · rintro ⟨before, text, after, front, back, rfl, hrest⟩
    exact ⟨.placeholder name :: before, text, after, front, back, rfl, hrest⟩

theorem expandChars_template (hnames : ∀ name, .placeholder name ∈ pieces → EndsWithName name)
    (h : ¬ Misread pieces) :
    expandChars input vars (pieces.flatMap Piece.chars) =
      pieces.flatMap (Piece.value input vars) := by
  induction pieces with
  | nil => simp [expandChars]
  | cons piece pieces ih =>
    have htail : ∀ name, .placeholder name ∈ pieces → EndsWithName name :=
      fun name hmem => hnames name (List.mem_cons_of_mem _ hmem)
    rw [List.flatMap_cons, List.flatMap_cons]
    cases piece with
    | literal text =>
      rw [misread_literal_iff, not_or] at h
      obtain ⟨hhere, hrest⟩ := h
      rw [Piece.chars, expandChars_literal text.toList fun front back heq hne hopens =>
        hhere ⟨front, back, heq, hne, hopens⟩, ih htail hrest]
      rfl
    | placeholder name =>
      rw [misread_placeholder_iff] at h
      rw [expandChars_placeholder (hnames name List.mem_cons_self), ih htail h]

/-- A template that is misread, with a value that shows it. -/
theorem expandChars_ne_of_misread
    (hnames : ∀ name, .placeholder name ∈ pieces → EndsWithName name) (h : Misread pieces) :
    expandChars "v" (fun _ => some "v") (pieces.flatMap Piece.chars) ≠
      pieces.flatMap (Piece.value "v" fun _ => some "v") := by
  induction pieces with
  | nil =>
    obtain ⟨before, text, after, front, back, heq, -⟩ := h
    exact absurd heq (by simp)
  | cons piece pieces ih =>
    have htail : ∀ name, .placeholder name ∈ pieces → EndsWithName name :=
      fun name hmem => hnames name (List.mem_cons_of_mem _ hmem)
    rw [List.flatMap_cons, List.flatMap_cons]
    cases piece with
    | literal text =>
      by_cases hhere : ∃ front back, text.toList = front ++ back ∧ back ≠ [] ∧
          Opens (back ++ pieces.flatMap Piece.chars)
      · exact expandChars_ne_of_opens text.toList hhere
      · have hrest := (misread_literal_iff.1 h).resolve_left hhere
        rw [Piece.chars, expandChars_literal text.toList fun front back heq hne hopens =>
          hhere ⟨front, back, heq, hne, hopens⟩]
        exact fun heq => ih htail hrest (List.append_cancel_left heq)
    | placeholder name =>
      rw [expandChars_placeholder (hnames name List.mem_cons_self)]
      exact fun heq => ih htail (misread_placeholder_iff.1 h) (List.append_cancel_left heq)

theorem substituted_congr {vars' : String → Option String}
    (h : ∀ name, .placeholder name ∈ pieces → vars (Text.trim name) = vars' (Text.trim name)) :
    substituted pieces input vars = substituted pieces input vars' := by
  have hvalue : ∀ piece ∈ pieces, piece.value input vars = piece.value input vars' := by
    intro piece hmem
    cases piece with
    | literal text => rfl
    | placeholder name => rw [Piece.value, Piece.value, h name hmem]
  rw [substituted, substituted, List.flatMap_congr hvalue]

/-- The text of a template is expanded as the template is meant, for every input and all values,
exactly when no placeholder of the text begins in a literal piece; and then variables that the
template does not mention make no difference. -/
theorem expandVariables_eq_iff
    (hnames : ∀ name, .placeholder name ∈ pieces → EndsWithName name) :
    ((∀ input vars, expandVariables (template pieces) input vars = substituted pieces input vars) ↔
      ¬ Misread pieces) ∧
    (¬ Misread pieces → ∀ input (vars vars' : String → Option String),
      (∀ name, .placeholder name ∈ pieces → vars (Text.trim name) = vars' (Text.trim name)) →
      expandVariables (template pieces) input vars =
        expandVariables (template pieces) input vars') := by
  have hexpand : ¬ Misread pieces → ∀ input vars,
      expandVariables (template pieces) input vars = substituted pieces input vars := by
    intro hread input vars
    rw [expandVariables, template, String.toList_ofList, expandChars_template hnames hread]
    rfl
  refine ⟨⟨?_, hexpand⟩, ?_⟩
  · intro heq hread
    have hchars := congrArg String.toList (heq "v" fun _ => some "v")
    rw [expandVariables, template, substituted, String.toList_ofList, String.toList_ofList,
      String.toList_ofList] at hchars
    exact expandChars_ne_of_misread hnames hread hchars
  · intro hread input vars vars' hvars
    rw [hexpand hread, hexpand hread, substituted_congr hvars]

/-- "Hi {{ name }}: {{input}}". -/
def greeting : List Piece :=
  [.literal "Hi ", .placeholder " name ", .literal ": ", .placeholder "input"]

theorem expandVariables_eq_iff_greeting :
    ((∀ input vars, expandVariables (template greeting) input vars =
        substituted greeting input vars) ↔ ¬ Misread greeting) ∧
    (¬ Misread greeting → ∀ input (vars vars' : String → Option String),
      (∀ name, .placeholder name ∈ greeting → vars (Text.trim name) = vars' (Text.trim name)) →
      expandVariables (template greeting) input vars =
        expandVariables (template greeting) input vars') := by
  refine expandVariables_eq_iff fun name hmem => ?_
  simp only [greeting, List.mem_cons, Piece.placeholder.injEq, reduceCtorEq, List.not_mem_nil,
    or_false, false_or] at hmem
  rcases hmem with rfl | rfl <;> unfold EndsWithName <;> decide

/-! ### Templates with two readings -/

/-- A template whose literals have no pair of braces, and whose placeholders end with their
names. -/
structure Plain (pieces : List Piece) : Prop where
  literals : ∀ text, .literal text ∈ pieces → ¬ ['\x7b', '\x7b'] <:+: text.toList
  names : ∀ name, .placeholder name ∈ pieces → EndsWithName name

/-- A brace and a placeholder. -/
def braceAndX : List Piece := [.literal "\x7b", .placeholder "x"]

theorem braceAndX_plain : Plain braceAndX where
  literals text hmem := by
    obtain rfl : text = "\x7b" := by simpa [braceAndX] using hmem
    decide
  names name hmem := by
    obtain rfl : name = "x" := by simpa [braceAndX] using hmem
    unfold EndsWithName
    decide

/-- The code reads "{{{x}}" as a placeholder of the name "{x". -/
theorem expandVariables_brace :
    ¬ ∀ pieces, Plain pieces → ∀ input vars,
      expandVariables (template pieces) input vars = substituted pieces input vars := by
  intro h
  have hmisread : Misread braceAndX :=
    ⟨[], "\x7b", [.placeholder "x"], [], ['\x7b'], rfl, rfl, List.cons_ne_nil _ _,
      ['\x7b', 'x', '\x7d', '\x7d'], rfl, by decide⟩
  have hchars := congrArg String.toList (h braceAndX braceAndX_plain "v" fun _ => some "v")
  rw [expandVariables, template, substituted, String.toList_ofList, String.toList_ofList,
    String.toList_ofList] at hchars
  exact expandChars_ne_of_misread braceAndX_plain.names hmisread hchars

end Workflows
end RustyHand
