import RustyHand.Channels.TelegramHtml
import RustyHand.Lib.Rewriting

/-!
# Formatting for Telegram

`markdown_to_telegram_html` of `rusty-hand-channels/src/formatter.rs`: one pass for bold text, one
for italic text, one for code and one for links, each over what the pass before it has made.  A loop
gets fuel, one unit a round.

* `boldRound`, `italics`, `codeRound`, `telegramLinkRound`: the passes;
* `marks`: a text with its markers of the first three kinds;
* `markdownToTelegramHtml_eq`: what the passes come to, as the pieces that they write;
* `nests`: a reader of marked text; `nested_links_iff`: what it takes;
* `markdownToTelegramHtml_shows_iff`.
-/

namespace RustyHand
namespace Formatter

open Rewriting TelegramHtml

/-! ### The passes -/

/-- A round of the loop for bold text. -/
def boldRound (result : List Char) : Option (List Char) :=
  pairRound "**".toList "<b>".toList "</b>".toList result

/-- The loop for italic text, over any alphabet: a star that has no star beside it. -/
def italics {α : Type} [DecidableEq α] (star : α) (start stop : List α) :
    Option α → Bool → List α → List α
  | _, _, [] => []
  | before, inItalic, c :: chars =>
    if c = star ∧ before ≠ some star ∧ chars.head? ≠ some star then
      (if inItalic then stop else start) ++ italics star start stop (some c) (!inItalic) chars
    else c :: italics star start stop (some c) inItalic chars

/-- A round of the loop for inline code. -/
def codeRound (result : List Char) : Option (List Char) :=
  pairRound "`".toList "<code>".toList "</code>".toList result

/-- What a link becomes. -/
def telegramLink (linkText url : List Char) : List Char :=
  "<a href=\"".toList ++ url ++ "\">".toList ++ linkText ++ "</a>".toList

/-- A round of the loop for links. -/
def telegramLinkRound (result : List Char) : Option (List Char) :=
  linkRound "[".toList "](".toList ")".toList telegramLink result

/-- `markdown_to_telegram_html`. -/
def markdownToTelegramHtml (fuel : ℕ) (text : List Char) : Option (List Char) :=
  (loop boldRound fuel text).bind fun result =>
    let result := italics '*' "<i>".toList "</i>".toList none false result
    (loop codeRound fuel result).bind fun result => loop telegramLinkRound fuel result

/-! ### The marked text -/

/-- What the passes look for. -/
def markers : List Char := "*`[]()".toList

/-- A text with the tags of bold text. -/
def boldMarks (text : List Char) : List Piece :=
  pairs (.char '*') [.char '*'] (.start .b) (.stop .b) (text.map .char)

/-- A text with the tags of bold and of italic text. -/
def italicMarks (text : List Char) : List Piece :=
  italics (.char '*') [.start .i] [.stop .i] none false (boldMarks text)

/-- A text with the tags of bold text, of italic text and of code. -/
def marks (text : List Char) : List Piece :=
  pairs (.char '\x60') [] (.start .code) (.stop .code) (italicMarks text)

/-- Some pieces with the tags of links. -/
def linkMarks (pieces : List Piece) : List Piece :=
  links (.char '[') (.char ']') [.char '('] (.char ')') (.start .a) .hrefEnd (.stop .a) pieces

section Italics

variable {α β : Type} [DecidableEq α] [DecidableEq β] {star : α} {start stop : List α}

theorem italics_cons (before : Option α) (inItalic : Bool) (c : α) (chars : List α) :
    italics star start stop before inItalic (c :: chars) =
      if c = star ∧ before ≠ some star ∧ chars.head? ≠ some star then
        (if inItalic then stop else start) ++ italics star start stop (some c) (!inItalic) chars
      else c :: italics star start stop (some c) inItalic chars := rfl

omit [DecidableEq α] in
theorem singleton_prefix_iff {a : α} {as : List α} : [a] <+: as ↔ as.head? = some a := by
  cases as <;> simp [eq_comm]

/-- Of what stands before, it only matters whether it is a star. -/
theorem italics_congr {before before' : Option α} (h : before = some star ↔ before' = some star)
    (inItalic : Bool) (chars : List α) :
    italics star start stop before inItalic chars =
      italics star start stop before' inItalic chars := by
  cases chars with
  | nil => rfl
  | cons c chars => simp only [italics_cons, ne_eq, h]

theorem italics_append {before : Option α} {word : List α} (hne : word ≠ [])
    (hword : star ∉ word) (inItalic : Bool) (chars : List α) :
    italics star start stop before inItalic (word ++ chars) =
      word ++ italics star start stop none inItalic chars := by
  induction word generalizing before with
  | nil => exact absurd rfl hne
  | cons c word ih =>
    rw [List.mem_cons, not_or] at hword
    rw [List.cons_append, italics_cons, if_neg fun h => hword.1 h.1.symm]
    by_cases hnil : word = []
    · subst hnil
      have hstar : some c = some star ↔ none = some star :=
        iff_of_false (fun h => hword.1 (Option.some.inj h).symm) nofun
      rw [List.nil_append, italics_congr hstar]
      rfl
    · rw [ih hnil hword.2]
      rfl

theorem count_italics {c : α} (hstar : c ≠ star) (hstart : c ∉ start) (hstop : c ∉ stop)
    (before : Option α) (inItalic : Bool) (chars : List α) :
    (italics star start stop before inItalic chars).count c = chars.count c := by
  induction chars generalizing before inItalic with
  | nil => rfl
  | cons d chars ih =>
    rw [italics_cons]
    split_ifs with h hin
    · rw [h.1, List.count_append, List.count_eq_zero_of_not_mem hstop, ih,
        List.count_cons_of_ne hstar.symm, Nat.zero_add]
    · rw [h.1, List.count_append, List.count_eq_zero_of_not_mem hstart, ih,
        List.count_cons_of_ne hstar.symm, Nat.zero_add]
    · rw [List.count_cons, List.count_cons, ih]

theorem italics_flatMap {f : α → List β} {letter : β → α} {star : β} (h : Spells f letter [star])
    {before : Option α} {before' : Option β}
    (hbefore : before' = some star ↔ before = some (letter star)) (inItalic : Bool)
    (chars : List α) :
    italics star (start.flatMap f) (stop.flatMap f) before' inItalic (chars.flatMap f) =
      (italics (letter star) start stop before inItalic chars).flatMap f := by
  induction chars generalizing before before' inItalic with
  | nil => rfl
  | cons c chars ih =>
    rw [List.flatMap_cons]
    by_cases hc : c = letter star
    · subst hc
      have hhead : (chars.flatMap f).head? = some star ↔ chars.head? = some (letter star) := by
        have hprefix := h.prefix_iff chars
        rw [List.map_cons, List.map_nil, singleton_prefix_iff, singleton_prefix_iff] at hprefix
        exact hprefix
      have hnext : some star = some star ↔ some (letter star) = some (letter star) :=
        iff_of_true rfl rfl
      rw [h.single, List.singleton_append, italics_cons, italics_cons]
      by_cases hlone : before ≠ some (letter star) ∧ chars.head? ≠ some (letter star)
      · have hlone' : star = star ∧ before' ≠ some star ∧ (chars.flatMap f).head? ≠ some star :=
          ⟨rfl, mt hbefore.1 hlone.1, mt hhead.1 hlone.2⟩
        rw [if_pos hlone', if_pos (And.intro rfl hlone), ih hnext, List.flatMap_append]
        cases inItalic <;> rfl
      · have hlone' : ¬ (before' ≠ some star ∧ (chars.flatMap f).head? ≠ some star) :=
          fun hboth => hlone ⟨mt hbefore.2 hboth.1, mt hhead.2 hboth.2⟩
        rw [if_neg fun hboth => hlone' hboth.2, if_neg fun hboth => hlone hboth.2, ih hnext,
          List.flatMap_cons, h.single]
        rfl
    · have hword : star ∉ f c := fun hmem => hc (h.only c star List.mem_cons_self hmem)
      have hnext : none = some star ↔ some c = some (letter star) :=
        iff_of_false nofun fun heq => hc (Option.some.inj heq)
      rw [italics_append (h.filled c) hword, italics_cons, if_neg fun hboth => hc hboth.1,
        List.flatMap_cons, ih hnext]

end Italics

/-! ### What the passes come to -/

theorem spelled_spells : Spells Piece.spelled Piece.char markers where
  single _ := rfl
  filled := spelled_ne_nil
  only p c hc hmem := by
    have htags : (tagPieces.all fun q => markers.all fun d => d ∉ q.spelled) = true := by decide
    by_cases hp : ∃ d, p = .char d
    · obtain ⟨d, rfl⟩ := hp
      rw [List.mem_singleton.1 hmem]
    · have hp' := mem_tagPieces fun d hd => hp ⟨d, hd⟩
      exact absurd hmem
        (of_decide_eq_true (List.all_eq_true.1 (List.all_eq_true.1 htags p hp') c hc))

theorem spells_of_subset {pattern : List Char} (h : pattern ⊆ markers) :
    Spells Piece.spelled Piece.char pattern := spelled_spells.mono h

/-- A loop over what some pieces are written as. -/
theorem loop_spell {round : List Char → Option (List Char)}
    {round' : List Piece → Option (List Piece)} {fuel : ℕ} {pieces result : List Piece}
    (h : ∀ ps, round (spell ps) = (round' ps).map spell)
    (hloop : loop round' fuel pieces = some result) :
    loop round fuel (spell pieces) = some (spell result) := by
  rw [loop_map h, hloop]
  rfl

theorem boldRound_spell (ps : List Piece) : boldRound (spell ps) =
    (pairRound [Piece.char '*', .char '*'] [.start .b] [.stop .b] ps).map spell :=
  (spells_of_subset (by decide)).pairRound_flatMap (by decide) [Piece.start .b] [.stop .b] ps

theorem codeRound_spell (ps : List Piece) : codeRound (spell ps) =
    (pairRound [Piece.char '\x60'] [.start .code] [.stop .code] ps).map spell :=
  (spells_of_subset (by decide)).pairRound_flatMap (by decide) [Piece.start .code] [.stop .code] ps

theorem telegramLink_spell (label url : List Piece) :
    telegramLink (spell label) (spell url) =
      spell (Piece.start .a :: url ++ Piece.hrefEnd :: label ++ [Piece.stop .a]) := by
  have hstart : (Piece.start .a).spelled = "<a href=\"".toList := rfl
  have hend : Piece.hrefEnd.spelled = "\">".toList := rfl
  have hstop : (Piece.stop .a).spelled = "</a>".toList := rfl
  unfold telegramLink
  simp only [spell_append, spell_cons, spell_nil, hstart, hend, hstop, List.append_nil,
    List.append_assoc]

theorem telegramLinkRound_spell (ps : List Piece) : telegramLinkRound (spell ps) =
    (linkRound [Piece.char '['] [.char ']', .char '('] [.char ')']
      (fun label url => Piece.start .a :: url ++ Piece.hrefEnd :: label ++ [Piece.stop .a])
      ps).map spell := by
  have hspells : Spells Piece.spelled Piece.char ("[".toList ++ "](".toList ++ ")".toList) :=
    spells_of_subset (by decide)
  exact hspells.linkRound_flatMap (by decide) (by decide) (by decide) telegramLink_spell ps

theorem count_chars (text : List Char) (c : Char) :
    (text.map Piece.char).count (.char c) = text.count c :=
  List.count_map_of_injective text _ (fun _ _ h => Piece.char.inj h) c

/-- Pieces that the passes do not look for and do not make are not touched by the first three. -/
theorem count_marks {p : Piece} (hstar : p ≠ .char '*') (htick : p ≠ .char '\x60')
    (htags : ∀ name, name ∈ [Name.b, .i, .code] → p ≠ .start name ∧ p ≠ .stop name)
    (text : List Char) : (marks text).count p = (text.map .char).count p := by
  have hb := htags .b (by decide)
  have hi := htags .i (by decide)
  have hcode := htags .code (by decide)
  rw [marks, count_pairs (by simpa using htick) hcode.1 hcode.2, italicMarks,
    count_italics hstar (by simpa using hi.1) (by simpa using hi.2), boldMarks,
    count_pairs (by simpa using hstar) hb.1 hb.2]

/-- The loops end, and this is what they come to. -/
theorem markdownToTelegramHtml_eq {fuel : ℕ} {text : List Char} (h : text.length < fuel) :
    markdownToTelegramHtml fuel text = some (spell (linkMarks (marks text))) := by
  have hfuel : ∀ c, text.count c < fuel := fun c => List.count_le_length.trans_lt h
  have hbold : loop boldRound fuel text = some (spell (boldMarks text)) := by
    have hloop := loop_spell boldRound_spell
      (loop_pairRound (by decide) (by decide) ((count_chars text '*').trans_lt (hfuel '*')))
    rwa [spell_chars] at hloop
  have hstar : Spells Piece.spelled Piece.char ['*'] := spells_of_subset (by decide)
  have hbefore : none = some '*' ↔ none = some (Piece.char '*') := iff_of_false nofun nofun
  have hitalic : italics '*' "<i>".toList "</i>".toList none false (spell (boldMarks text)) =
      spell (italicMarks text) :=
    @italics_flatMap _ _ _ _ [Piece.start .i] [.stop .i] _ _ _ hstar _ _ hbefore false
      (boldMarks text)
  have hticks : (italicMarks text).count (.char '\x60') = text.count '\x60' := by
    rw [italicMarks, count_italics (by decide) (by decide) (by decide), boldMarks,
      count_pairs (by decide) (by decide) (by decide), count_chars]
  have hcode : loop codeRound fuel (spell (italicMarks text)) = some (spell (marks text)) :=
    loop_spell codeRound_spell
      (loop_pairRound (by decide) (by decide) (hticks.trans_lt (hfuel '\x60')))
  have hbrackets : (marks text).count (.char '[') = text.count '[' := by
    rw [count_marks (by decide) (by decide) (by decide), count_chars]
  have hlinks : loop telegramLinkRound fuel (spell (marks text)) =
      some (spell (linkMarks (marks text))) :=
    loop_spell telegramLinkRound_spell
      (loop_linkRound (by decide) (by decide) (by decide) (hbrackets.trans_lt (hfuel '[')))
  rw [markdownToTelegramHtml, hbold, Option.bind_some]
  dsimp only
  rw [hitalic, hcode, Option.bind_some, hlinks]

/-- The characters of a text are not touched, except for the markers. -/
theorem count_linkMarks {c : Char} (hc : c ∉ markers) (text : List Char) :
    (linkMarks (marks text)).count (.char c) = text.count c := by
  have hne : ∀ d ∈ markers, Piece.char c ≠ .char d :=
    fun d hd heq => hc (Piece.char.inj heq ▸ hd)
  have hmiddle : Piece.char c ∉ [.char ']', .char '('] := by
    simp only [List.mem_cons, List.not_mem_nil, or_false, not_or]
    exact ⟨hne ']' (by decide), hne '(' (by decide)⟩
  have hstart : Piece.char c ≠ .start .a := nofun
  have hend : Piece.char c ≠ .hrefEnd := nofun
  have hstop : Piece.char c ≠ .stop .a := nofun
  rw [linkMarks,
    count_links (hne '[' (by decide)) hmiddle (hne ')' (by decide)) hstart hend hstop,
    count_marks (hne '*' (by decide)) (hne '\x60' (by decide)) fun _ _ => ⟨nofun, nofun⟩,
    count_chars]

/-! ### A reader of marked text -/

/-- The link that a piece opens: what stands between the brackets, the target, and the rest. -/
def linkAt (p : Piece) (text : List Piece) : Option (List Piece × List Piece × List Piece) :=
  if p = .char '[' then linkTail [.char ']', .char '('] [.char ')'] text else none

theorem linkAt_eq_some_iff {p : Piece} {text label url rest : List Piece} :
    linkAt p text = some (label, url, rest) ↔
      p = .char '[' ∧
        linkTail [.char ']', .char '('] [.char ')'] text = some (label, url, rest) := by
  rw [linkAt]
  split_ifs with hp
  · rw [and_iff_right hp]
  · exact iff_of_false nofun fun h => hp h.1

/-- A link without its target and its markers is shorter. -/
theorem length_of_linkAt {p : Piece} {text label url rest : List Piece}
    (h : linkAt p text = some (label, url, rest)) :
    (label ++ .stop .a :: rest).length < text.length := by
  rw [eq_of_linkTail (linkAt_eq_some_iff.1 h).2]
  simp only [List.length_append, List.length_cons, List.length_nil]
  omega

/-- Whether a link begins in some pieces, with others behind them. -/
def linkIn : List Piece → List Piece → Bool
  | [], _ => false
  | p :: pieces, behind => (linkAt p (pieces ++ behind)).isSome || linkIn pieces behind

/-- A character that can stand in a target. -/
def isTarget : Piece → Bool
  | .char c => c ≠ '"'
  | _ => false

/-- The tags that are open behind a piece. -/
def read : List Name → Piece → Option (List Name)
  | opened, .char _ => some opened
  | opened, .start name => some (name :: opened)
  | name :: opened, .stop name' => if name = name' then some opened else none
  | _, _ => none

/-- Marked text whose markers nest, with some tags open in front of it.  A link is opened by its
bracket and closed where its target stands; the target has no tag, no quote and no link in it. -/
def nests : List Name → List Piece → Bool
  | opened, [] => opened.isEmpty
  | opened, p :: text =>
    match _h : linkAt p text with
    | some (label, url, rest) =>
      url.all isTarget && !linkIn url (.hrefEnd :: (label ++ .stop .a :: rest)) &&
        nests (.a :: opened) (label ++ .stop .a :: rest)
    | none =>
      match read opened p with
      | some opened => nests opened text
      | none => false
termination_by _ text => text.length
decreasing_by
  · have hlen := length_of_linkAt _h
    rw [List.length_cons]
    omega
  · simp

section Reader

variable {p : Piece} {text label url rest front : List Piece} {opened : List Name}

theorem not_mem_url_of_linkAt {q : Piece} (h : linkAt p text = some (label, url, rest))
    (hq : q ∉ text) : q ∉ url := by
  rw [eq_of_linkTail (linkAt_eq_some_iff.1 h).2] at hq
  simp only [List.mem_append, not_or] at hq
  exact hq.1.1.2

theorem not_mem_of_linkAt {q : Piece} (h : linkAt p text = some (label, url, rest))
    (hq : q ∉ text) (hstop : q ≠ .stop .a) : q ∉ label ++ .stop .a :: rest := by
  rw [eq_of_linkTail (linkAt_eq_some_iff.1 h).2] at hq
  simp only [List.mem_append, List.mem_cons, not_or] at hq ⊢
  exact ⟨hq.1.1.1.1, hstop, hq.2⟩

theorem nests_of_some (h : linkAt p text = some (label, url, rest)) :
    nests opened (p :: text) =
      (url.all isTarget && !linkIn url (.hrefEnd :: (label ++ .stop .a :: rest)) &&
        nests (.a :: opened) (label ++ .stop .a :: rest)) := by
  rw [nests]
  split
  · rename_i heq
    rw [h] at heq
    obtain ⟨rfl, rfl, rfl⟩ : label = _ ∧ url = _ ∧ rest = _ := by simpa using heq
    rfl
  · rename_i heq
    rw [h] at heq
    exact nomatch heq

theorem nests_of_none (h : linkAt p text = none) :
    nests opened (p :: text) =
      match read opened p with
      | some opened => nests opened text
      | none => false := by
  rw [nests]
  split
  · rename_i heq
    rw [h] at heq
    exact nomatch heq
  · rfl

theorem linkMarks_of_some (h : linkAt p text = some (label, url, rest)) :
    linkMarks (p :: text) =
      .start .a :: linkMarks (url ++ .hrefEnd :: (label ++ .stop .a :: rest)) := by
  obtain ⟨rfl, htail⟩ := linkAt_eq_some_iff.1 h
  exact links_cons_of_some htail

theorem linkMarks_of_none (h : linkAt p text = none) :
    linkMarks (p :: text) = p :: linkMarks text := by
  refine links_cons_of_imp fun hp => ?_
  rwa [linkAt, if_pos hp] at h

theorem linkMarks_append {behind : List Piece} (h : linkIn front behind = false) :
    linkMarks (front ++ behind) = front ++ linkMarks behind := by
  induction front with
  | nil => rfl
  | cons p front ih =>
    rw [linkIn, Bool.or_eq_false_iff] at h
    have hnone : linkAt p (front ++ behind) = none := by simpa using h.1
    rw [List.cons_append, linkMarks_of_none hnone, ih h.2]
    rfl

/-- A link that begins in some pieces puts a start tag there. -/
theorem exists_start {behind : List Piece} (h : linkIn front behind = true) :
    ∃ before after, linkMarks (front ++ behind) = before ++ .start .a :: after ∧
      before <+: front := by
  induction front with
  | nil => exact nomatch h
  | cons p front ih =>
    cases hlink : linkAt p (front ++ behind) with
    | some r =>
      obtain ⟨label, url, rest⟩ := r
      exact ⟨[], _, linkMarks_of_some hlink, List.nil_prefix⟩
    | none =>
      rw [linkIn, hlink, Option.isSome_none, Bool.false_or] at h
      obtain ⟨before, after, heq, hbefore⟩ := ih h
      refine ⟨p :: before, after, ?_, List.cons_prefix_cons.2 ⟨rfl, hbefore⟩⟩
      rw [List.cons_append, linkMarks_of_none hlink, heq]
      rfl

/-- A start tag cannot stand inside a start tag. -/
theorem run_start_in_href {before : List Piece} (h : .hrefEnd ∉ before) (after : List Piece) :
    run ⟨true, opened⟩ (before ++ .start .a :: after) = none := by
  induction before with
  | nil => rfl
  | cons p before ih =>
    rw [List.mem_cons, not_or] at h
    rw [List.cons_append, run_cons]
    cases p with
    | char c =>
      rw [step_char_in_href]
      split_ifs
      · rfl
      · exact ih h.2
    | hrefEnd => exact absurd rfl h.1
    | start name => rfl
    | stop name => rfl

theorem run_target (h : .hrefEnd ∉ url) (text : List Piece) :
    run ⟨true, opened⟩ (url ++ .hrefEnd :: text) =
      if url.all isTarget then run ⟨false, opened⟩ text else none := by
  induction url with
  | nil => rfl
  | cons p url ih =>
    rw [List.mem_cons, not_or] at h
    rw [List.cons_append, run_cons, List.all_cons]
    cases p with
    | char c =>
      by_cases hc : c = '"'
      · rw [step_char_in_href, if_pos hc]
        simp [isTarget, hc]
      · rw [step_char_in_href, if_neg hc, Option.bind_some, ih h.2]
        simp [isTarget, hc]
    | hrefEnd => exact absurd rfl h.1
    | start name => rfl
    | stop name => rfl

/-- Outside of start tags, a reader of pieces goes on as a reader of marked text. -/
theorem step_eq_read (hstart : p ≠ .start .a) (hend : p ≠ .hrefEnd) :
    step ⟨false, opened⟩ p = (read opened p).map fun opened => ⟨false, opened⟩ := by
  cases p with
  | char c => cases opened <;> rfl
  | start name => cases name <;> first | exact absurd rfl hstart | (cases opened <;> rfl)
  | hrefEnd => exact absurd rfl hend
  | stop name =>
    cases opened with
    | nil => rfl
    | cons name' opened =>
      rw [step_stop, read]
      split_ifs <;> rfl

/-- The tags of links are nested with the other ones exactly if the markers nest. -/
theorem nested_links_iff (hstart : .start .a ∉ text) (hend : .hrefEnd ∉ text) :
    Nested opened (linkMarks text) ↔ nests opened text = true := by
  induction hn : text.length using Nat.strongRecOn generalizing opened text with
  | ind n ih =>
    cases text with
    | nil =>
      rw [linkMarks, links, nests]
      cases opened with
      | nil => exact iff_of_true rfl rfl
      | cons name opened => simp [Nested, run]
    | cons p text =>
      rw [List.length_cons] at hn
      rw [List.mem_cons, not_or] at hstart hend
      cases hlink : linkAt p text with
      | none =>
        rw [linkMarks_of_none hlink, nests_of_none hlink, Nested, run_cons,
          step_eq_read (Ne.symm hstart.1) (Ne.symm hend.1)]
        cases read opened p with
        | none => simp
        | some opened => exact ih text.length (by omega) hstart.2 hend.2 rfl
      | some r =>
        obtain ⟨label, url, rest⟩ := r
        have hlen := length_of_linkAt hlink
        have hstart' := not_mem_of_linkAt hlink hstart.2 (by simp)
        have hend' := not_mem_of_linkAt hlink hend.2 (by simp)
        have hurl := not_mem_url_of_linkAt hlink hend.2
        rw [linkMarks_of_some hlink, nests_of_some hlink, Nested, run_cons, step_start_a,
          Option.bind_some]
        cases hin : linkIn url (.hrefEnd :: (label ++ .stop .a :: rest)) with
        | true =>
          obtain ⟨before, after, heq, hbefore⟩ := exists_start hin
          rw [heq, run_start_in_href fun hmem => hurl (hbefore.subset hmem)]
          simp
        | false =>
          have hnone : linkAt .hrefEnd (label ++ .stop .a :: rest) = none := rfl
          rw [linkMarks_append hin, linkMarks_of_none hnone, run_target hurl]
          cases url.all isTarget with
          | false => simp
          | true =>
            have hrest : Nested (.a :: opened) _ ↔ _ :=
              ih (label ++ .stop .a :: rest).length (by omega) hstart' hend' rfl
            simpa [Nested] using hrest

end Reader

/-! ### Well-formed output -/

theorem shows_marks_iff (text : List Char) :
    Shows markers text (spell (linkMarks (marks text))) ↔
      (∀ c ∈ text, special c = false) ∧ nests [] (marks text) = true := by
  have hcount : ∀ p : Piece, p = .start .a ∨ p = .hrefEnd → p ∉ marks text := by
    intro p hp
    refine List.count_eq_zero.1 ?_
    rw [count_marks (by rcases hp with rfl | rfl <;> nofun)
      (by rcases hp with rfl | rfl <;> nofun) (by rcases hp with rfl | rfl <;> decide)]
    refine List.count_eq_zero.2 fun hmem => ?_
    obtain ⟨c, -, rfl⟩ := List.mem_map.1 hmem
    exact hp.elim nofun nofun
  have hmarkers : (markers.all fun c => c ≠ ';' ∧ special c = false) = true := by decide
  rw [shows_iff (fun c hc => of_decide_eq_true (List.all_eq_true.1 hmarkers c hc))
      fun c hc => count_linkMarks hc text,
    nested_links_iff (hcount _ (.inl rfl)) (hcount _ (.inr rfl))]

/-- The loops end on every text.  The output is Telegram's HTML, with everything of the text but the
markers shown in it, exactly if the text has none of `<`, `>` and `&`, and its markers nest. -/
theorem markdownToTelegramHtml_shows_iff (text : List Char) :
    ∃ output, (∀ fuel, text.length < fuel → markdownToTelegramHtml fuel text = some output) ∧
      (Shows markers text output ↔
        (∀ c ∈ text, special c = false) ∧ nests [] (marks text) = true) := by
  refine ⟨_, fun fuel h => markdownToTelegramHtml_eq h, ?_⟩
  exact shows_marks_iff text

/-- A star that has no other one opens a tag that is not closed. -/
theorem markdownToTelegramHtml_lone_star :
    ¬ ∀ text : List Char,
      ∃ output, (∀ fuel, text.length < fuel → markdownToTelegramHtml fuel text = some output) ∧
        Shows markers text output := by
  intro h
  obtain ⟨output, houtput, hshows⟩ := h "2 * 3".toList
  have heq := (houtput 6 (by decide)).symm.trans (markdownToTelegramHtml_eq (by decide))
  rw [Option.some.inj heq, shows_marks_iff] at hshows
  exact absurd hshows.2 (by decide +kernel)

end Formatter
end RustyHand
