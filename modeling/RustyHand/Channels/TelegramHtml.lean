import Mathlib.Data.List.Count
import Mathlib.Data.Nat.Notation

/-!
# Telegram's HTML

The HTML that a Telegram message may be formatted with, as far as
`rusty-hand-channels/src/formatter.rs` speaks of it: `<b>`, `<i>`, `<code>`, `<pre>` and
`<a href="">`.

* `Html`: formatted text; `render`: how it is written; `shown`: the characters that it is to show;
* `Piece`, `spell`: characters and the parts of tags, and how they are written;
* `run`: a reader of pieces, with a stack of the tags that are open;
* `run_pieces`, `exists_html`: it takes the pieces of formatted text, and no other ones;
* `shows_iff`: the pieces that are written as formatted text with all characters of a text.
-/

namespace RustyHand
namespace TelegramHtml

/-! ### Formatted text -/

/-- The name of a tag. -/
inductive Name
  | b
  | i
  | code
  | pre
  | a
  deriving DecidableEq

/-- A tag. -/
inductive Tag
  | b
  | i
  | code
  | pre
  | a (href : List Char)

def Tag.name : Tag → Name
  | .b => .b
  | .i => .i
  | .code => .code
  | .pre => .pre
  | .a _ => .a

def Tag.href : Tag → List Char
  | .a href => href
  | _ => []

/-- Formatted text. -/
inductive Html
  | nil
  | char (c : Char) (rest : Html)
  | element (tag : Tag) (inner rest : Html)

/-- What cannot stand in a text by itself. -/
def special (c : Char) : Bool := c = '<' || c = '>' || c = '&'

/-- What cannot stand in an attribute by itself. -/
def specialInHref (c : Char) : Bool := special c || c = '"'

def escape (c : Char) : List Char :=
  if c = '<' then "&lt;".toList
  else if c = '>' then "&gt;".toList
  else if c = '&' then "&amp;".toList
  else [c]

def escapeInHref (c : Char) : List Char := if c = '"' then "&quot;".toList else escape c

/-- The beginning of a start tag, and the end of one. -/
def Name.start : Name → List Char
  | .b => "<b>".toList
  | .i => "<i>".toList
  | .code => "<code>".toList
  | .pre => "<pre>".toList
  | .a => "<a href=\"".toList

def hrefEnd : List Char := "\">".toList

def Name.stop : Name → List Char
  | .b => "</b>".toList
  | .i => "</i>".toList
  | .code => "</code>".toList
  | .pre => "</pre>".toList
  | .a => "</a>".toList

def Tag.render : Tag → List Char
  | .a href => Name.a.start ++ href.flatMap escapeInHref ++ hrefEnd
  | tag => tag.name.start

/-- How formatted text is written. -/
def Html.render : Html → List Char
  | .nil => []
  | .char c rest => escape c ++ rest.render
  | .element tag inner rest => tag.render ++ inner.render ++ tag.name.stop ++ rest.render

/-- The characters of formatted text, and of the targets of its links. -/
def Html.shown : Html → List Char
  | .nil => []
  | .char c rest => c :: rest.shown
  | .element tag inner rest => tag.href ++ inner.shown ++ rest.shown

/-- A text that is written as formatted text, with all characters of another one except for its
markers. -/
def Shows (markers text output : List Char) : Prop :=
  ∃ html : Html, html.render = output ∧ ∀ c, c ∉ markers → html.shown.count c = text.count c

/-! ### Pieces -/

/-- A character or a part of a tag. -/
inductive Piece
  | char (c : Char)
  | start (name : Name)
  | hrefEnd
  | stop (name : Name)
  deriving DecidableEq

/-- How a piece is written. -/
def Piece.spelled : Piece → List Char
  | .char c => [c]
  | .start name => name.start
  | .hrefEnd => TelegramHtml.hrefEnd
  | .stop name => name.stop

def spell (pieces : List Piece) : List Char := pieces.flatMap Piece.spelled

def Tag.pieces : Tag → List Piece
  | .a href => .start .a :: href.map .char ++ [.hrefEnd]
  | tag => [.start tag.name]

/-- The pieces of formatted text. -/
def Html.pieces : Html → List Piece
  | .nil => []
  | .char c rest => .char c :: rest.pieces
  | .element tag inner rest => tag.pieces ++ inner.pieces ++ .stop tag.name :: rest.pieces

/-- The characters of a piece. -/
def Piece.chars : Piece → List Char
  | .char c => [c]
  | _ => []

/-- Nothing of it is escaped. -/
def Html.Plain : Html → Prop
  | .nil => True
  | .char c rest => special c = false ∧ rest.Plain
  | .element tag inner rest =>
    (∀ c ∈ tag.href, specialInHref c = false) ∧ inner.Plain ∧ rest.Plain

@[simp] theorem spell_nil : spell [] = [] := rfl

@[simp] theorem spell_cons (p : Piece) (ps : List Piece) :
    spell (p :: ps) = p.spelled ++ spell ps := rfl

@[simp] theorem spell_append (ps qs : List Piece) : spell (ps ++ qs) = spell ps ++ spell qs :=
  List.flatMap_append

theorem spell_chars (cs : List Char) : spell (cs.map .char) = cs := by
  induction cs with
  | nil => rfl
  | cons c cs ih =>
    rw [List.map_cons, spell_cons, ih]
    rfl

theorem escape_eq {c : Char} (h : special c = false) : escape c = [c] := by
  unfold escape
  split_ifs <;> simp_all [special]

theorem escapeInHref_eq {c : Char} (h : specialInHref c = false) : escapeInHref c = [c] := by
  rw [specialInHref, Bool.or_eq_false_iff, decide_eq_false_iff_not] at h
  rw [escapeInHref, if_neg h.2, escape_eq h.1]

theorem flatMap_escapeInHref {cs : List Char} (h : ∀ c ∈ cs, specialInHref c = false) :
    cs.flatMap escapeInHref = cs := by
  induction cs with
  | nil => rfl
  | cons c cs ih =>
    rw [List.forall_mem_cons] at h
    rw [List.flatMap_cons, escapeInHref_eq h.1, ih h.2]
    rfl

theorem Tag.render_eq {tag : Tag} (h : ∀ c ∈ tag.href, specialInHref c = false) :
    tag.render = spell tag.pieces := by
  cases tag with
  | a href =>
    have hhref : href.flatMap escapeInHref = href := flatMap_escapeInHref h
    show Name.a.start ++ href.flatMap escapeInHref ++ TelegramHtml.hrefEnd = _
    rw [hhref, Tag.pieces, List.cons_append, spell_cons, spell_append, spell_chars, spell_cons,
      spell_nil, List.append_nil, List.append_assoc]
    rfl
  | _ => exact (List.append_nil _).symm

theorem Html.render_eq {html : Html} (h : html.Plain) : html.render = spell html.pieces := by
  induction html with
  | nil => rfl
  | char c rest ih =>
    rw [render, escape_eq h.1, ih h.2]
    rfl
  | element tag inner rest ihinner ihrest =>
    obtain ⟨hhref, hinner, hrest⟩ := h
    rw [render, Tag.render_eq hhref, ihinner hinner, ihrest hrest, pieces]
    simp [Piece.spelled]

theorem count_char_pieces (html : Html) (c : Char) :
    html.pieces.count (.char c) = html.shown.count c := by
  have hinj : Function.Injective Piece.char := fun _ _ h => Piece.char.inj h
  induction html with
  | nil => rfl
  | char d rest ih =>
    rw [Html.pieces, Html.shown, List.count_cons, List.count_cons, ih]
    simp
  | element tag inner rest ihinner ihrest =>
    have htag : tag.pieces.count (.char c) = tag.href.count c := by
      cases tag with
      | a href => simp [Tag.pieces, Tag.href, List.count_map_of_injective href _ hinj c]
      | _ => rfl
    rw [Html.pieces, Html.shown, List.count_append, List.count_append, List.count_append,
      List.count_append, List.count_cons_of_ne (by simp), htag, ihinner, ihrest]

/-! ### Writing -/

/-- How many characters of it are escaped. -/
def Html.escapes : Html → ℕ
  | .nil => 0
  | .char c rest => (if special c then 1 else 0) + rest.escapes
  | .element tag inner rest => tag.href.countP specialInHref + inner.escapes + rest.escapes

theorem count_escape (c : Char) :
    (escape c).count ';' = [c].count ';' + if special c then 1 else 0 := by
  unfold escape
  split_ifs <;> simp_all [special]

theorem count_escapeInHref (c : Char) :
    (escapeInHref c).count ';' = [c].count ';' + if specialInHref c then 1 else 0 := by
  by_cases hc : c = '"'
  · subst hc
    decide
  · have hspecial : specialInHref c = special c := by simp [specialInHref, hc]
    rw [escapeInHref, if_neg hc, count_escape, hspecial]

theorem count_flatMap_escapeInHref (cs : List Char) :
    (cs.flatMap escapeInHref).count ';' = cs.count ';' + cs.countP specialInHref := by
  induction cs with
  | nil => rfl
  | cons c cs ih =>
    have hcons : ([c] ++ cs).count ';' = [c].count ';' + cs.count ';' := List.count_append
    rw [List.singleton_append] at hcons
    rw [List.flatMap_cons, List.count_append, count_escapeInHref, ih, List.countP_cons, hcons]
    omega

theorem count_tag_render (tag : Tag) :
    tag.render.count ';' = tag.href.count ';' + tag.href.countP specialInHref := by
  cases tag with
  | a href =>
    have hstart : Name.a.start.count ';' = 0 := by decide
    have hend : hrefEnd.count ';' = 0 := by decide
    show (Name.a.start ++ href.flatMap escapeInHref ++ hrefEnd).count ';' = _
    rw [List.count_append, List.count_append, count_flatMap_escapeInHref, hstart, hend]
    simp [Tag.href]
  | _ => decide

theorem count_stop (name : Name) : name.stop.count ';' = 0 := by cases name <;> decide

/-- Every escape ends with a semicolon. -/
theorem count_render (html : Html) :
    html.render.count ';' = html.shown.count ';' + html.escapes := by
  induction html with
  | nil => rfl
  | char c rest ih =>
    have hcons : ([c] ++ rest.shown).count ';' = [c].count ';' + rest.shown.count ';' :=
      List.count_append
    rw [List.singleton_append] at hcons
    rw [Html.render, Html.shown, Html.escapes, List.count_append, count_escape, ih, hcons]
    omega
  | element tag inner rest ihinner ihrest =>
    rw [Html.render, Html.shown, Html.escapes]
    simp only [List.count_append, count_tag_render, count_stop, ihinner, ihrest]
    omega

theorem plain_of_escapes {html : Html} (h : html.escapes = 0) : html.Plain := by
  induction html with
  | nil => trivial
  | char c rest ih =>
    rw [Html.escapes, Nat.add_eq_zero_iff] at h
    refine ⟨?_, ih h.2⟩
    by_contra hc
    rw [Bool.not_eq_false] at hc
    rw [if_pos hc] at h
    exact nomatch h.1
  | element tag inner rest ihinner ihrest =>
    rw [Html.escapes, Nat.add_eq_zero_iff, Nat.add_eq_zero_iff] at h
    obtain ⟨⟨hhref, hinner⟩, hrest⟩ := h
    refine ⟨fun c hc => ?_, ihinner hinner, ihrest hrest⟩
    simpa using List.countP_eq_zero.1 hhref c hc

theorem special_of_mem_shown {html : Html} (h : html.Plain) {c : Char} (hc : c ∈ html.shown) :
    special c = false := by
  induction html with
  | nil => exact nomatch hc
  | char d rest ih =>
    rcases List.mem_cons.1 hc with rfl | hc
    · exact h.1
    · exact ih h.2 hc
  | element tag inner rest ihinner ihrest =>
    obtain ⟨hhref, hinner, hrest⟩ := h
    rw [Html.shown, List.mem_append, List.mem_append] at hc
    rcases hc with (hc | hc) | hc
    · exact (Bool.or_eq_false_iff.1 (hhref c hc)).1
    · exact ihinner hinner hc
    · exact ihrest hrest hc

/-! ### Spelling -/

/-- The characters of some pieces are not special. -/
def PlainPieces (ps : List Piece) : Prop := ∀ c, .char c ∈ ps → special c = false

theorem head_spell_ne {ps : List Piece} (h : PlainPieces ps) : (spell ps).head? ≠ some '>' := by
  cases ps with
  | nil => exact nofun
  | cons p ps =>
    cases p with
    | char c =>
      intro heq
      have hc := h c List.mem_cons_self
      rw [Option.some.inj heq] at hc
      exact nomatch hc
    | start name => cases name <;> exact nofun
    | hrefEnd => exact nofun
    | stop name => cases name <;> exact nofun

theorem PlainPieces.tail {p : Piece} {ps : List Piece} (h : PlainPieces (p :: ps)) :
    PlainPieces ps := fun c hc => h c (List.mem_cons_of_mem p hc)

/-- The parts of tags. -/
def tagPieces : List Piece :=
  .hrefEnd :: [Name.b, .i, .code, .pre, .a].flatMap fun name => [.start name, .stop name]

theorem mem_tagPieces {p : Piece} (h : ∀ c, p ≠ .char c) : p ∈ tagPieces := by
  cases p with
  | char c => exact absurd rfl (h c)
  | start name => cases name <;> decide
  | hrefEnd => decide
  | stop name => cases name <;> decide

/-- No part of a tag begins with another one. -/
theorem spelled_prefix_free :
    ∀ p ∈ tagPieces, ∀ q ∈ tagPieces, p.spelled <+: q.spelled → p = q := by decide

/-- A character that is not special is not mistaken for a part of a tag. -/
theorem char_append_ne {c : Char} (hc : special c = false) {ps : List Piece} (h : PlainPieces ps)
    {q : Piece} (hq : ∀ d, q ≠ .char d) (cs : List Char) : c :: spell ps ≠ q.spelled ++ cs := by
  intro heq
  cases q with
  | char d => exact hq d rfl
  | start name =>
    have hlt : c = '<' := by cases name <;> exact (List.cons.inj heq).1
    rw [hlt] at hc
    exact nomatch hc
  | hrefEnd =>
    refine head_spell_ne h ?_
    rw [(List.cons.inj heq).2]
    rfl
  | stop name =>
    have hlt : c = '<' := by cases name <;> exact (List.cons.inj heq).1
    rw [hlt] at hc
    exact nomatch hc

theorem spelled_ne_nil (p : Piece) : p.spelled ≠ [] := by
  cases p with
  | char c => exact List.cons_ne_nil _ _
  | start name => cases name <;> decide
  | hrefEnd => decide
  | stop name => cases name <;> decide

/-- Where the characters are not special, the pieces can be told from how they are written. -/
theorem spell_injective {ps qs : List Piece} (hps : PlainPieces ps) (hqs : PlainPieces qs)
    (h : spell ps = spell qs) : ps = qs := by
  induction ps generalizing qs with
  | nil =>
    cases qs with
    | nil => rfl
    | cons q qs => exact absurd (List.append_eq_nil_iff.1 h.symm).1 (spelled_ne_nil q)
  | cons p ps ih =>
    cases qs with
    | nil => exact absurd (List.append_eq_nil_iff.1 h).1 (spelled_ne_nil p)
    | cons q qs =>
      suffices hpq : p = q by
        subst hpq
        rw [ih hps.tail hqs.tail (List.append_cancel_left h)]
      by_cases hp : ∃ c, p = .char c
      · obtain ⟨c, rfl⟩ := hp
        by_cases hq : ∃ d, q = .char d
        · obtain ⟨d, rfl⟩ := hq
          rw [(List.cons.inj h).1]
        · exact absurd h
            (char_append_ne (hps c List.mem_cons_self) hps.tail (fun d hd => hq ⟨d, hd⟩) _)
      · have hp' := mem_tagPieces fun c hc => hp ⟨c, hc⟩
        by_cases hq : ∃ d, q = .char d
        · obtain ⟨d, rfl⟩ := hq
          exact absurd h.symm
            (char_append_ne (hqs d List.mem_cons_self) hqs.tail (fun c hc => hp ⟨c, hc⟩) _)
        · have hq' := mem_tagPieces fun d hd => hq ⟨d, hd⟩
          have hprefix : p.spelled <+: q.spelled ++ spell qs := ⟨_, h⟩
          rcases List.prefix_or_prefix_of_prefix hprefix (List.prefix_append ..) with hpq | hqp
          · exact spelled_prefix_free p hp' q hq' hpq
          · exact (spelled_prefix_free q hq' p hp' hqp).symm

/-! ### Reading -/

/-- Where a reader of pieces is: whether inside a start tag, and behind which start tags that are
not closed. -/
structure Reading where
  inHref : Bool
  opened : List Name
  deriving DecidableEq

/-- The reading of a piece; `none` where it cannot stand. -/
def step : Reading → Piece → Option Reading
  | ⟨true, opened⟩, .char c => if c = '"' then none else some ⟨true, opened⟩
  | ⟨true, opened⟩, .hrefEnd => some ⟨false, opened⟩
  | ⟨true, _⟩, _ => none
  | ⟨false, opened⟩, .char _ => some ⟨false, opened⟩
  | ⟨false, opened⟩, .start .a => some ⟨true, .a :: opened⟩
  | ⟨false, opened⟩, .start name => some ⟨false, name :: opened⟩
  | ⟨false, name :: opened⟩, .stop name' => if name = name' then some ⟨false, opened⟩ else none
  | ⟨false, _⟩, _ => none

/-- The reading of some pieces. -/
def run (r : Reading) (ps : List Piece) : Option Reading := ps.foldlM step r

/-- Tags that are closed, and properly nested. -/
def Nested (opened : List Name) (ps : List Piece) : Prop :=
  run ⟨false, opened⟩ ps = some ⟨false, []⟩

instance (opened : List Name) (ps : List Piece) : Decidable (Nested opened ps) :=
  inferInstanceAs (Decidable (_ = _))

@[simp] theorem run_cons (r : Reading) (p : Piece) (ps : List Piece) :
    run r (p :: ps) = (step r p).bind (run · ps) := rfl

theorem step_char_in_href (opened : List Name) (c : Char) :
    step ⟨true, opened⟩ (.char c) = if c = '"' then none else some ⟨true, opened⟩ := rfl

theorem step_start_a (opened : List Name) :
    step ⟨false, opened⟩ (.start .a) = some ⟨true, .a :: opened⟩ := by cases opened <;> rfl

theorem step_stop (name : Name) (opened : List Name) (name' : Name) :
    step ⟨false, name :: opened⟩ (.stop name') =
      if name = name' then some ⟨false, opened⟩ else none := rfl

theorem run_append (r : Reading) (ps qs : List Piece) :
    run r (ps ++ qs) = (run r ps).bind (run · qs) := List.foldlM_append

theorem run_href {cs : List Char} (h : '"' ∉ cs) (opened : List Name) :
    run ⟨true, opened⟩ (cs.map .char) = some ⟨true, opened⟩ := by
  induction cs with
  | nil => rfl
  | cons c cs ih =>
    rw [List.mem_cons, not_or] at h
    rw [List.map_cons, run_cons, step_char_in_href, if_neg (Ne.symm h.1), Option.bind_some, ih h.2]

theorem run_tag {tag : Tag} (h : '"' ∉ tag.href) (opened : List Name) :
    run ⟨false, opened⟩ tag.pieces = some ⟨false, tag.name :: opened⟩ := by
  cases tag with
  | a href =>
    rw [Tag.pieces, List.cons_append, run_cons, step_start_a, Option.bind_some, run_append,
      run_href (show '"' ∉ href from h)]
    rfl
  | _ => rfl

/-- The pieces of formatted text are read. -/
theorem run_pieces {html : Html} (h : html.Plain) (opened : List Name) :
    run ⟨false, opened⟩ html.pieces = some ⟨false, opened⟩ := by
  induction html generalizing opened with
  | nil => rfl
  | char c rest ih => exact ih h.2 opened
  | element tag inner rest ihinner ihrest =>
    obtain ⟨hhref, hinner, hrest⟩ := h
    have hquote : '"' ∉ tag.href := fun hmem => nomatch (hhref _ hmem)
    rw [Html.pieces, run_append, run_append, run_tag hquote, Option.bind_some, ihinner hinner,
      Option.bind_some, run_cons]
    rw [step_stop, if_pos rfl, Option.bind_some, ihrest hrest]

/-- What is read inside a start tag is a target and the end of the tag. -/
theorem exists_href {opened : List Name} {ps : List Piece} (hplain : PlainPieces ps)
    (h : run ⟨true, opened⟩ ps = some ⟨false, []⟩) :
    ∃ (href : List Char) (rest : List Piece), ps = href.map .char ++ .hrefEnd :: rest ∧
      (∀ c ∈ href, specialInHref c = false) ∧ Nested opened rest := by
  induction ps with
  | nil => exact nomatch h
  | cons p ps ih =>
    rw [run_cons] at h
    cases p with
    | char c =>
      by_cases hc : c = '"'
      · rw [step_char_in_href, if_pos hc] at h
        exact nomatch h
      · rw [step_char_in_href, if_neg hc] at h
        obtain ⟨href, rest, rfl, hhref, hrest⟩ := ih hplain.tail h
        refine ⟨c :: href, rest, rfl, List.forall_mem_cons.2 ⟨?_, hhref⟩, hrest⟩
        rw [specialInHref, hplain c List.mem_cons_self]
        exact decide_eq_false hc
    | hrefEnd => exact ⟨[], ps, rfl, List.forall_mem_nil _, h⟩
    | start name => exact nomatch h
    | stop name => exact nomatch h

/-- What is read is formatted text, up to the end or to the end of the innermost tag. -/
theorem exists_html {opened : List Name} {ps : List Piece} (hplain : PlainPieces ps)
    (h : Nested opened ps) :
    ∃ (html : Html) (rest : List Piece), html.Plain ∧ ps = html.pieces ++ rest ∧
      (rest = [] ∧ opened = [] ∨ ∃ name opened' rest', opened = name :: opened' ∧
        rest = .stop name :: rest' ∧ Nested opened' rest') := by
  induction hn : ps.length using Nat.strongRecOn generalizing opened ps with
  | ind n ih =>
    cases ps with
    | nil =>
      have hopened : opened = [] := congrArg Reading.opened (Option.some.inj h)
      exact ⟨.nil, [], trivial, rfl, .inl ⟨rfl, hopened⟩⟩
    | cons p ps =>
      rw [List.length_cons] at hn
      rw [Nested, run_cons] at h
      cases p with
      | char c =>
        obtain ⟨html, rest, hhtml, rfl, hrest⟩ := ih ps.length (by omega) hplain.tail h rfl
        exact ⟨.char c html, rest, ⟨hplain c List.mem_cons_self, hhtml⟩, rfl, hrest⟩
      | hrefEnd => exact nomatch h
      | stop name =>
        cases opened with
        | nil => exact nomatch h
        | cons name' opened =>
          by_cases hname : name' = name
          · rw [step_stop, if_pos hname] at h
            exact ⟨.nil, _, trivial, rfl, .inr ⟨name', opened, ps, rfl, by rw [hname], h⟩⟩
          · rw [step_stop, if_neg hname] at h
            exact nomatch h
      | start name =>
        have helement : ∀ (tag : Tag) (qs : List Piece), qs.length < n → PlainPieces qs →
            (∀ c ∈ tag.href, specialInHref c = false) →
            .start name :: ps = tag.pieces ++ qs → Nested (tag.name :: opened) qs →
              ∃ (html : Html) (rest : List Piece), html.Plain ∧
                .start name :: ps = html.pieces ++ rest ∧
                (rest = [] ∧ opened = [] ∨ ∃ name opened' rest', opened = name :: opened' ∧
                  rest = .stop name :: rest' ∧ Nested opened' rest') := by
          intro tag qs hlen hqs hhref heq hqs'
          obtain ⟨inner, rest, hinner, rfl, hrest⟩ := ih qs.length hlen hqs hqs' rfl
          rcases hrest with ⟨-, hnil⟩ | ⟨name', opened', rest', hopened, rfl, hrest⟩
          · exact nomatch hnil
          · obtain ⟨rfl, rfl⟩ := List.cons.inj hopened
            have hplain' : PlainPieces rest' :=
              fun c hc => hqs c (List.mem_append_right _ (List.mem_cons_of_mem _ hc))
            have hlen' : rest'.length < n := by
              rw [List.length_append, List.length_cons] at hlen
              omega
            obtain ⟨after, last, hafter, rfl, hlast⟩ := ih rest'.length hlen' hplain' hrest rfl
            refine ⟨.element tag inner after, last, ⟨hhref, hinner, hafter⟩, ?_, hlast⟩
            rw [heq, Html.pieces]
            simp
        have hps : ps.length < n := by omega
        cases name with
        | b => exact helement .b ps hps hplain.tail (List.forall_mem_nil _) rfl h
        | i => exact helement .i ps hps hplain.tail (List.forall_mem_nil _) rfl h
        | code => exact helement .code ps hps hplain.tail (List.forall_mem_nil _) rfl h
        | pre => exact helement .pre ps hps hplain.tail (List.forall_mem_nil _) rfl h
        | a =>
          obtain ⟨href, rest, rfl, hhref, hrest⟩ := exists_href hplain.tail h
          have hplain' : PlainPieces rest := fun c hc => hplain c
            (List.mem_cons_of_mem _ (List.mem_append_right _ (List.mem_cons_of_mem _ hc)))
          have hlen : rest.length < n := by
            rw [List.length_append, List.length_cons] at hps
            omega
          refine helement (.a href) rest hlen hplain' hhref ?_ hrest
          rw [Tag.pieces]
          simp

theorem count_spell (ps : List Piece) : (spell ps).count ';' = ps.count (.char ';') := by
  induction ps with
  | nil => rfl
  | cons p ps ih =>
    rw [spell_cons, List.count_append, ih, List.count_cons]
    cases p with
    | char c => simp [Piece.spelled, List.count_cons, Nat.add_comm]
    | start name => cases name <;> exact Nat.zero_add _
    | hrefEnd => exact Nat.zero_add _
    | stop name => cases name <;> exact Nat.zero_add _

/-- Pieces that have the characters of a text, but for its markers, are written as formatted text
that shows them exactly if none of the characters is special and the tags are nested. -/
theorem shows_iff {markers text : List Char} {ps : List Piece}
    (hmarkers : ∀ c ∈ markers, c ≠ ';' ∧ special c = false)
    (hcount : ∀ c, c ∉ markers → ps.count (.char c) = text.count c) :
    Shows markers text (spell ps) ↔ (∀ c ∈ text, special c = false) ∧ Nested [] ps := by
  have hpieces : (∀ c ∈ text, special c = false) → PlainPieces ps := by
    intro htext c hc
    by_cases hmem : c ∈ markers
    · exact (hmarkers c hmem).2
    · refine htext c (List.count_pos_iff.1 ?_)
      rw [← hcount c hmem]
      exact List.count_pos_iff.2 hc
  constructor
  · rintro ⟨html, hrender, hshown⟩
    have hsemicolon : ';' ∉ markers := fun hmem => (hmarkers _ hmem).1 rfl
    have hplain : html.Plain := by
      refine plain_of_escapes ?_
      have hcounts := count_render html
      rw [hrender, count_spell, hcount _ hsemicolon, hshown _ hsemicolon] at hcounts
      omega
    have htext : ∀ c ∈ text, special c = false := by
      intro c hc
      by_cases hmem : c ∈ markers
      · exact (hmarkers c hmem).2
      · refine special_of_mem_shown hplain (List.count_pos_iff.1 ?_)
        rw [hshown c hmem]
        exact List.count_pos_iff.2 hc
    have hhtml : PlainPieces html.pieces := by
      intro c hc
      refine special_of_mem_shown hplain (List.count_pos_iff.1 ?_)
      rw [← count_char_pieces]
      exact List.count_pos_iff.2 hc
    have heq : html.pieces = ps := by
      refine spell_injective hhtml (hpieces htext) ?_
      rw [← hrender, Html.render_eq hplain]
    exact ⟨htext, heq ▸ run_pieces hplain []⟩
  · rintro ⟨htext, hnested⟩
    obtain ⟨html, rest, hplain, rfl, ⟨rfl, -⟩ | ⟨name, opened, rest', hnil, -⟩⟩ :=
      exists_html (hpieces htext) hnested
    · rw [List.append_nil] at hcount ⊢
      refine ⟨html, Html.render_eq hplain, fun c hc => ?_⟩
      rw [← count_char_pieces, hcount c hc]
    · exact nomatch hnil

end TelegramHtml
end RustyHand
