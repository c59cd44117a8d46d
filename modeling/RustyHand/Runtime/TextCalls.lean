import RustyHand.Lib.JsonText
import RustyHand.Runtime.LoopText

/-!
# Which calls are recovered from a text

`recover_text_tool_calls` of `rusty-hand-runtime/src/agent_loop.rs` looks for the two patterns one
after the other, and takes a call of the second pattern only if it has not got it yet.

* `WrittenAnswer`: a text with calls to known tools in it;
* `functionEqCalls_written`, `functionCalls_written`: what the two scans find in it;
* `textToolCalls_written_iff`: when these are the calls, in their order.
-/

namespace RustyHand
namespace LoopText

open JsonPlaces

/-! ### Written calls -/

/-- The two patterns. -/
inductive Pattern
  /-- `<function=NAME>JSON</function>` -/
  | named
  /-- `<function>NAME\x7bJSON\x7d</function>` -/
  | bare
  deriving DecidableEq

structure WrittenCall where
  pattern : Pattern
  name : String
  args : List Char
  input : Json

namespace WrittenCall

def chars (c : WrittenCall) : List Char :=
  match c.pattern with
  | .named => "<function=".toList ++ (c.name.toList ++ '>' :: (c.args ++ "</function>".toList))
  | .bare => "<function>".toList ++ (c.name.toList ++ (c.args ++ "</function>".toList))

/-- The call that should be recovered. -/
def call (c : WrittenCall) : String × Json := (c.name, c.input)

/-- The name and the arguments can be written in the pattern. -/
def Fits (c : WrittenCall) : Prop :=
  match c.pattern with
  | .named => '>' ∉ c.name.toList
  | .bare => '\x7b' ∉ c.name.toList ∧ Text.trim c.name = c.name ∧ c.name ≠ "" ∧
      c.args.head? = some '\x7b'

end WrittenCall

/-- A text without tags. -/
structure Plain (text : List Char) : Prop where
  named : ¬ "<function=".toList <:+: text
  bare : ¬ "<function>".toList <:+: text
  close : ¬ "</function>".toList <:+: text

/-- Plain texts with a call behind each, and a plain text behind them. -/
def written : List (List Char × WrittenCall) → List Char → List Char
  | [], last => last
  | (plain, c) :: l, last => plain ++ (c.chars ++ written l last)

/-- What is used of `serde_json::from_str`: blanks around a JSON text do not matter, and the text
is made of strings and of what may stand outside of them. -/
structure ReadsJson (parseJson : String → Option Json) : Prop where
  trim : ∀ s v, parseJson s = some v → parseJson (Text.trim s) = some v
  places : ∀ s v, parseJson s = some v → readAll .outside s.toList = some .outside

/-- A plain text and a call to a known tool behind it, with JSON that does not close the call. -/
structure Recoverable (parseJson : String → Option Json) (names : List String)
    (s : List Char × WrittenCall) : Prop where
  plain : Plain s.1
  known : s.2.name ∈ names
  json : parseJson (String.ofList s.2.args) = some s.2.input
  unclosed : ¬ "</function>".toList <:+: s.2.args
  fits : s.2.Fits

/-- An answer that calls known tools in its text. -/
structure WrittenAnswer (parseJson : String → Option Json) (names : List String) where
  calls : List (List Char × WrittenCall)
  last : List Char
  recoverable : ∀ s ∈ calls, Recoverable parseJson names s
  plain_last : Plain last

/-- The text of the answer. -/
def WrittenAnswer.text {parseJson : String → Option Json} {names : List String}
    (a : WrittenAnswer parseJson names) : String := String.ofList (written a.calls a.last)

/-- Names that are not taken for a tag, nor for a part of a JSON text. -/
def IsToolName (name : String) : Prop := '<' ∉ name.toList ∧ '"' ∉ name.toList

variable {parseJson : String → Option Json} {names : List String}

/-! ### JSON inside of JSON -/

theorem isWhitespace_ne {c : Char} (h : Text.isWhitespace c = true) : c ≠ '"' ∧ c ≠ '\\' := by
  constructor <;> rintro rfl <;> revert h <;> decide

/-- What follows a place inside a string of a JSON text is not a JSON text. -/
theorem parseJson_trim_eq_none (hjson : ReadsJson parseJson) {cs : List Char}
    (hin : readAll .inside cs = some .outside) :
    parseJson (Text.trim (String.ofList cs)) = none := by
  rw [Option.eq_none_iff_forall_ne_some]
  intro v hv
  have hout := hjson.places _ v hv
  rw [Text.toList_trim, String.toList_ofList] at hout
  have hfront : readAll .inside (cs.takeWhile Text.isWhitespace) = some .inside :=
    readAll_inside fun c hc => isWhitespace_ne (List.mem_takeWhile_imp hc)
  have hback : readAll .inside ((cs.dropWhile Text.isWhitespace).rtakeWhile Text.isWhitespace) =
      some .inside :=
    readAll_inside fun c hc => isWhitespace_ne (List.mem_rtakeWhile_imp hc)
  rw [Text.trimChars_split cs, readAll_append, hfront, Option.bind_some, readAll_append] at hin
  obtain ⟨q, hq, hend⟩ := Option.bind_eq_some_iff.1 hin
  rcases readAll_opposite hq hout with ⟨rfl, -⟩ | ⟨-, h⟩
  · rw [hback] at hend
    cases hend
  · cases h

/-- Behind a tag in a JSON text, up to the next quote, everything is inside a string. -/
theorem readAll_inside_of_tag {p m cs : List Char} {x : Char}
    (h : readAll .outside (p ++ '<' :: (m ++ x :: cs)) = some .outside) (hm : '"' ∉ m)
    (hx : x ≠ '"' ∧ x ≠ '\\') : readAll .inside cs = some .outside := by
  rw [readAll_append] at h
  obtain ⟨q, -, h⟩ := Option.bind_eq_some_iff.1 h
  obtain ⟨r, hr, h⟩ := Option.bind_eq_some_iff.1 h
  obtain rfl := read_eq_inside hr (by decide) (by decide) (by decide)
  rw [readAll_append] at h
  obtain ⟨q, hq, h⟩ := Option.bind_eq_some_iff.1 h
  have hplace := readAll_not_outside hq (by decide) hm
  obtain ⟨r, hr, h⟩ := Option.bind_eq_some_iff.1 h
  suffices hinside : r = .inside from hinside ▸ h
  cases q with
  | outside => exact absurd rfl hplace
  | inside =>
    rw [JsonPlaces.read, if_neg hx.1, if_neg hx.2] at hr
    exact (Option.some.inj hr).symm
  | escaped => exact (Option.some.inj hr).symm

/-! ### Tags in a text -/

namespace WrittenCall

/-- What stands between the `<` of a call and its arguments. -/
def opening (c : WrittenCall) : List Char :=
  match c.pattern with
  | .named => "function=".toList ++ (c.name.toList ++ ['>'])
  | .bare => "function>".toList ++ c.name.toList

theorem chars_eq (c : WrittenCall) :
    c.chars = '<' :: (c.opening ++ (c.args ++ "</function>".toList)) := by
  obtain ⟨pattern, name, args, input⟩ := c
  cases pattern <;> simp [chars, opening]

theorem lt_not_mem_opening {c : WrittenCall} (hname : '<' ∉ c.name.toList) : '<' ∉ c.opening := by
  obtain ⟨pattern, name, args, input⟩ := c
  cases pattern <;> simpa [opening] using hname

end WrittenCall

variable {p plain w last : List Char} {c : WrittenCall}

/-- A tag that neither the plain text nor the call starts with is looked for in the arguments. -/
theorem splitOnce_opening (hp : '<' ∉ p) (hplain : ¬ '<' :: p <:+: plain)
    (hname : '<' ∉ c.name.toList) (hopening : ¬ '<' :: p <+: '<' :: (c.opening ++ w)) :
    Text.splitOnce ('<' :: p) (plain ++ '<' :: (c.opening ++ w)) =
      (Text.splitOnce ('<' :: p) w).map fun r => (plain ++ '<' :: (c.opening ++ r.1), r.2) := by
  rw [Text.splitOnce_append hplain (by simpa using hp), Text.splitOnce_cons_of_not_prefix hopening,
    Text.splitOnce_append_of_not_mem w (WrittenCall.lt_not_mem_opening hname), Option.map_map,
    Option.map_map]
  rfl

/-- A tag that the arguments do not have either is looked for behind the call. -/
theorem splitOnce_chars (hp : '<' ∉ p) (hplain : ¬ '<' :: p <:+: plain)
    (hname : '<' ∉ c.name.toList) (hopening : ∀ t, ¬ '<' :: p <+: '<' :: (c.opening ++ t))
    (hargs : ¬ '<' :: p <:+: c.args) (hclose : ¬ p <+: "/function>".toList ++ w) :
    ∃ front, Text.splitOnce ('<' :: p) (plain ++ (c.chars ++ w)) =
      (Text.splitOnce ('<' :: p) w).map fun r => (front ++ r.1, r.2) := by
  refine ⟨plain ++ '<' :: (c.opening ++ (c.args ++ "</function>".toList)), ?_⟩
  have hclosing : Text.splitOnce ('<' :: p) ("</function>".toList ++ w) =
      (Text.splitOnce ('<' :: p) w).map fun r => ("</function>".toList ++ r.1, r.2) := by
    show Text.splitOnce ('<' :: p) ('<' :: ("/function>".toList ++ w)) = _
    rw [Text.splitOnce_cons_of_not_prefix fun h => hclose (List.cons_prefix_cons.1 h).2,
      Text.splitOnce_append_of_not_mem w (by decide), Option.map_map]
    rfl
  have hrest : Text.splitOnce ('<' :: p) (c.args ++ ("</function>".toList ++ w)) =
      (Text.splitOnce ('<' :: p) w).map
        fun r => (c.args ++ ("</function>".toList ++ r.1), r.2) := by
    rw [Text.splitOnce_append hargs (by simpa using hp), hclosing, Option.map_map]
    rfl
  rw [c.chars_eq, List.cons_append, List.append_assoc, List.append_assoc,
    splitOnce_opening hp hplain hname (hopening _), hrest, Option.map_map]
  congr 1
  funext r
  simp

theorem not_named_prefix_opening (h : c.pattern = .bare) (t : List Char) :
    ¬ "<function=".toList <+: '<' :: (c.opening ++ t) := by
  rw [WrittenCall.opening, h]
  simp

theorem not_bare_prefix_opening (h : c.pattern = .named) (t : List Char) :
    ¬ "<function>".toList <+: '<' :: (c.opening ++ t) := by
  rw [WrittenCall.opening, h]
  simp

theorem not_close_prefix_opening (c : WrittenCall) (t : List Char) :
    ¬ "</function>".toList <+: '<' :: (c.opening ++ t) := by
  rw [WrittenCall.opening]
  cases c.pattern <;> simp

/-- The closing tag that is found first is the call's own. -/
theorem splitOnce_close (hplain : Plain plain) (hname : '<' ∉ c.name.toList)
    (hargs : ¬ "</function>".toList <:+: c.args) :
    ∃ front, Text.splitOnce "</function>".toList (plain ++ (c.chars ++ w)) =
      some (front, w) := by
  have hself : Text.splitOnce "</function>".toList (c.args ++ ("</function>".toList ++ w)) =
      some (c.args, w) :=
    Text.splitOnce_append_self w (by decide) hargs
  have hopening : Text.splitOnce "</function>".toList
      (plain ++ '<' :: (c.opening ++ (c.args ++ ("</function>".toList ++ w)))) =
      (Text.splitOnce "</function>".toList (c.args ++ ("</function>".toList ++ w))).map
        fun r => (plain ++ '<' :: (c.opening ++ r.1), r.2) :=
    splitOnce_opening (by decide) hplain.close hname (not_close_prefix_opening c _)
  refine ⟨plain ++ '<' :: (c.opening ++ c.args), ?_⟩
  rw [c.chars_eq, List.cons_append, List.append_assoc, List.append_assoc, hopening, hself]
  rfl

/-! ### The first scan -/

theorem functionEqCalls_congr {front text text' : List Char} {n : ℕ}
    (h : Text.splitOnce "<function=".toList text' =
      (Text.splitOnce "<function=".toList text).map fun r => (front ++ r.1, r.2)) :
    functionEqCalls parseJson names n text' = functionEqCalls parseJson names n text := by
  cases n with
  | zero => rfl
  | succ n =>
    rw [functionEqCalls, functionEqCalls, h]
    cases Text.splitOnce "<function=".toList text with
    | none => rfl
    | some r => rfl

theorem functionEqCalls_named {n : ℕ} (hjson : ReadsJson parseJson) (hpattern : c.pattern = .named)
    (hplain : Plain plain) (hknown : c.name ∈ names)
    (hinput : parseJson (String.ofList c.args) = some c.input)
    (hargs : ¬ "</function>".toList <:+: c.args) (hfits : c.Fits) :
    functionEqCalls parseJson names (n + 1) (plain ++ (c.chars ++ w)) =
      c.call :: functionEqCalls parseJson names n w := by
  have htag : Text.splitOnce "<function=".toList (plain ++ (c.chars ++ w)) =
      some (plain, c.name.toList ++ '>' :: (c.args ++ ("</function>".toList ++ w))) := by
    rw [WrittenCall.chars, hpattern]
    simp only [List.append_assoc, List.cons_append]
    exact Text.splitOnce_append_self _ (by decide) hplain.named
  have hname : Text.splitOnce ">".toList
      (c.name.toList ++ '>' :: (c.args ++ ("</function>".toList ++ w))) =
      some (c.name.toList, c.args ++ ("</function>".toList ++ w)) := by
    have hfits' : '>' ∉ c.name.toList := by
      rw [WrittenCall.Fits, hpattern] at hfits
      exact hfits
    have := Text.splitOnce_append_of_not_mem (p := [])
      ('>' :: ([] ++ (c.args ++ ("</function>".toList ++ w)))) hfits'
    rw [Text.splitOnce_self, Option.map_some, List.append_nil] at this
    exact this
  have hclose : Text.splitOnce "</function>".toList (c.args ++ ("</function>".toList ++ w)) =
      some (c.args, w) :=
    Text.splitOnce_append_self w (by decide) hargs
  rw [functionEqCalls, htag]
  simp only [hname, hclose, String.ofList_toList]
  rw [if_pos hknown, hjson.trim _ _ hinput]
  rfl

/-- Does the first scan take the closing tag of this call for the end of an opening one? -/
def swallows (c : WrittenCall) : Bool :=
  match Text.splitOnce "<function=".toList c.args with
  | some (_, rest) => !rest.contains '>'
  | none => false

/-- The first scan behind a tag that a closing tag ended. -/
def afterSwallow (parseJson : String → Option Json) (names : List String) (n : ℕ)
    (text : List Char) : List (String × Json) :=
  match Text.splitOnce "</function>".toList text with
  | none => functionEqCalls parseJson names n text
  | some (_, rest) => functionEqCalls parseJson names n rest

/-- A tag in the arguments of a call of the second pattern. -/
theorem splitOnce_bare {front tail : List Char} (hpattern : c.pattern = .bare)
    (hplain : Plain plain) (hname : '<' ∉ c.name.toList)
    (htag : Text.splitOnce "<function=".toList c.args = some (front, tail)) :
    ∃ front, Text.splitOnce "<function=".toList (plain ++ (c.chars ++ w)) =
      some (front, tail ++ ("</function>".toList ++ w)) := by
  have hopening : Text.splitOnce "<function=".toList
      (plain ++ '<' :: (c.opening ++ (c.args ++ ("</function>".toList ++ w)))) =
      (Text.splitOnce "<function=".toList (c.args ++ ("</function>".toList ++ w))).map
        fun r => (plain ++ '<' :: (c.opening ++ r.1), r.2) :=
    splitOnce_opening (by decide) hplain.named hname (not_named_prefix_opening hpattern _)
  refine ⟨plain ++ '<' :: (c.opening ++ front), ?_⟩
  rw [c.chars_eq, List.cons_append, List.append_assoc, List.append_assoc, hopening,
    Text.splitOnce_append_right _ htag]
  rfl

/-- A text with a quote or a tag's beginning in it is no name. -/
theorem not_mem_names {cs : List Char} (hnames : ∀ name ∈ names, IsToolName name)
    (h : '<' ∈ cs ∨ '"' ∈ cs) : String.ofList cs ∉ names := by
  intro hmem
  have := hnames _ hmem
  rw [IsToolName, String.toList_ofList] at this
  exact h.elim this.1 this.2

theorem not_close_infix_of_suffix {front tail : List Char}
    (htag : c.args = front ++ tail) (hargs : ¬ "</function>".toList <:+: c.args) :
    ¬ "</function>".toList <:+: tail := fun h =>
  hargs (h.trans (htag ▸ (List.suffix_append front tail).isInfix))

/-- A tag in the arguments that is not ended by the call's own closing tag calls nothing. -/
theorem functionEqCalls_bare {n : ℕ} {front tail : List Char} (hjson : ReadsJson parseJson)
    (hnames : ∀ name ∈ names, IsToolName name) (hpattern : c.pattern = .bare)
    (hplain : Plain plain) (hname : '<' ∉ c.name.toList)
    (hinput : parseJson (String.ofList c.args) = some c.input)
    (hargs : ¬ "</function>".toList <:+: c.args)
    (htag : Text.splitOnce "<function=".toList c.args = some (front, tail)) (hend : '>' ∈ tail) :
    functionEqCalls parseJson names (n + 1) (plain ++ (c.chars ++ w)) =
      functionEqCalls parseJson names n w := by
  obtain ⟨front', htext⟩ := splitOnce_bare (w := w) hpattern hplain hname htag
  obtain ⟨name, body, hsplit⟩ :
      ∃ name body, Text.splitOnce ">".toList tail = some (name, body) := by
    cases h : Text.splitOnce ">".toList tail with
    | some r => exact ⟨r.1, r.2, rfl⟩
    | none =>
      refine absurd ?_ ((Text.splitOnce_eq_none_iff (by decide) tail).1 h)
      obtain ⟨a, b, rfl⟩ := List.append_of_mem hend
      exact ⟨a, b, by simp⟩
  have htail : tail = name ++ '>' :: body := by simpa using Text.eq_of_splitOnce hsplit
  have hargs' : c.args = (front ++ "<function=".toList ++ name ++ ['>']) ++ body := by
    simpa [htail] using Text.eq_of_splitOnce htag
  have hclose : Text.splitOnce "</function>".toList (body ++ ("</function>".toList ++ w)) =
      some (body, w) :=
    Text.splitOnce_append_self w (by decide) (not_close_infix_of_suffix hargs' hargs)
  rw [functionEqCalls, htext]
  simp only [Text.splitOnce_append_right _ hsplit, hclose]
  by_cases hknown : String.ofList name ∈ names
  · have hquote : '"' ∉ name := fun h => not_mem_names hnames (.inr h) hknown
    have hplaces := hjson.places _ _ hinput
    have hin : readAll .inside body = some .outside := by
      refine readAll_inside_of_tag (p := front) (m := "function=".toList ++ name) (x := '>') ?_
        (by simpa using hquote) (by decide)
      rw [String.toList_ofList, hargs'] at hplaces
      simpa using hplaces
    rw [if_pos hknown, parseJson_trim_eq_none hjson hin]
  · rw [if_neg hknown]

/-- A tag in the arguments that is ended by the call's own closing tag swallows what follows. -/
theorem functionEqCalls_swallow {n : ℕ} {front tail : List Char}
    (hnames : ∀ name ∈ names, IsToolName name) (hpattern : c.pattern = .bare)
    (hplain : Plain plain) (hname : '<' ∉ c.name.toList)
    (htag : Text.splitOnce "<function=".toList c.args = some (front, tail)) (hend : '>' ∉ tail) :
    functionEqCalls parseJson names (n + 1) (plain ++ (c.chars ++ w)) =
      afterSwallow parseJson names n w := by
  obtain ⟨front', htext⟩ := splitOnce_bare (w := w) hpattern hplain hname htag
  have hsplit : Text.splitOnce ">".toList (tail ++ ("</function>".toList ++ w)) =
      some (tail ++ "</function".toList, w) := by
    have hnot : '>' ∉ tail ++ "</function".toList := by simpa using hend
    have := Text.splitOnce_append_of_not_mem (p := []) ('>' :: ([] ++ w)) hnot
    rw [Text.splitOnce_self, Option.map_some, List.append_nil, List.append_assoc] at this
    exact this
  have hunknown : String.ofList (tail ++ "</function".toList) ∉ names :=
    not_mem_names hnames (.inl (by simp))
  rw [functionEqCalls, htext]
  simp only [hsplit, afterSwallow]
  cases Text.splitOnce "</function>".toList w with
  | none => rfl
  | some r => exact if_neg hunknown

/-- What the first scan finds; the flag says whether a tag has swallowed the next call. -/
def heard : Bool → List (List Char × WrittenCall) → List (String × Json)
  | _, [] => []
  | true, _ :: l => heard false l
  | false, (_, c) :: l =>
    match c.pattern with
    | .named => c.call :: heard false l
    | .bare => heard (swallows c) l

variable {l : List (List Char × WrittenCall)}

theorem length_written_lt (s : List Char × WrittenCall) (l : List (List Char × WrittenCall))
    (last : List Char) : (written l last).length < (written (s :: l) last).length := by
  rw [written, WrittenCall.chars_eq]
  simp only [List.length_append, List.length_cons]
  omega

theorem functionEqCalls_plain {n : ℕ} (h : Plain last) :
    functionEqCalls parseJson names n last = [] := by
  cases n with
  | zero => rfl
  | succ n => rw [functionEqCalls, (Text.splitOnce_eq_none_iff (by decide) last).2 h.named]

/-- **The first scan**, from the start and behind a tag that swallows. -/
theorem functionEqCalls_written (hjson : ReadsJson parseJson)
    (hnames : ∀ name ∈ names, IsToolName name) (hlast : Plain last)
    (hl : ∀ s ∈ l, Recoverable parseJson names s) :
    (∀ n, (written l last).length < n →
      functionEqCalls parseJson names n (written l last) = heard false l) ∧
    (∀ n, (written l last).length < n →
      afterSwallow parseJson names n (written l last) = heard true l) := by
  induction l with
  | nil =>
    refine ⟨fun n _ => functionEqCalls_plain hlast, fun n _ => ?_⟩
    rw [afterSwallow, written, (Text.splitOnce_eq_none_iff (by decide) last).2 hlast.close]
    exact functionEqCalls_plain hlast
  | cons s l ih =>
    obtain ⟨plain, c⟩ := s
    obtain ⟨hscan, hswallow⟩ := ih fun s hs => hl s (List.mem_cons_of_mem _ hs)
    obtain ⟨hplain, hknown, hinput, hargs, hfits⟩ := hl (plain, c) List.mem_cons_self
    have hname := (hnames _ hknown).1
    constructor
    · intro n hn
      have hlt := length_written_lt (plain, c) l last
      obtain ⟨n, rfl⟩ : ∃ m, n = m + 1 := ⟨n - 1, by omega⟩
      cases hpattern : c.pattern with
      | named =>
        rw [written, functionEqCalls_named hjson hpattern hplain hknown hinput hargs hfits,
          hscan n (by omega)]
        simp only [heard, hpattern]
      | bare =>
        simp only [heard, hpattern]
        cases htag : Text.splitOnce "<function=".toList c.args with
        | none =>
          obtain ⟨front, hfront⟩ := splitOnce_chars (p := "function=".toList)
            (w := written l last) (by decide) hplain.named hname (not_named_prefix_opening hpattern)
            ((Text.splitOnce_eq_none_iff (by decide) c.args).1 htag) (by simp)
          rw [swallows, htag, written, functionEqCalls_congr hfront]
          exact hscan (n + 1) (by omega)
        | some r =>
          obtain ⟨front, tail⟩ := r
          rw [swallows, htag]
          by_cases hend : '>' ∈ tail
          · rw [written, functionEqCalls_bare hjson hnames hpattern hplain hname hinput hargs htag
              hend, hscan n (by omega)]
            simp [hend]
          · rw [written, functionEqCalls_swallow hnames hpattern hplain hname htag hend,
              hswallow n (by omega)]
            simp [hend]
    · intro n hn
      obtain ⟨front, hclose⟩ := splitOnce_close (w := written l last) hplain hname hargs
      rw [afterSwallow, written, hclose]
      have hlt := length_written_lt (plain, c) l last
      exact hscan n (by omega)

/-! ### The second scan -/

/-- The same name, and arguments that print the same. -/
def sameCall (c d : String × Json) : Bool := c.1 = d.1 && c.2.print = d.2.print

/-- A call of the second pattern is taken if it is not there. -/
def take (calls : List (String × Json)) (c : WrittenCall) : List (String × Json) :=
  match c.pattern with
  | .named => calls
  | .bare => if calls.any fun d => sameCall d c.call then calls else calls ++ [c.call]

theorem functionCalls_congr {front text text' : List Char} {n : ℕ} {calls : List (String × Json)}
    (h : Text.splitOnce "<function>".toList text' =
      (Text.splitOnce "<function>".toList text).map fun r => (front ++ r.1, r.2)) :
    functionCalls parseJson names n text' calls = functionCalls parseJson names n text calls := by
  cases n with
  | zero => rfl
  | succ n =>
    rw [functionCalls, functionCalls, h]
    cases Text.splitOnce "<function>".toList text with
    | none => rfl
    | some r => rfl

/-- A call of the second pattern is found. -/
theorem functionCalls_bare {n : ℕ} {calls : List (String × Json)} (hjson : ReadsJson parseJson)
    (hpattern : c.pattern = .bare) (hplain : Plain plain) (hknown : c.name ∈ names)
    (hname : '<' ∉ c.name.toList) (hinput : parseJson (String.ofList c.args) = some c.input)
    (hargs : ¬ "</function>".toList <:+: c.args) (hfits : c.Fits) :
    functionCalls parseJson names (n + 1) (plain ++ (c.chars ++ w)) calls =
      functionCalls parseJson names n w (take calls c) := by
  have htag : Text.splitOnce "<function>".toList (plain ++ (c.chars ++ w)) =
      some (plain, c.name.toList ++ (c.args ++ ("</function>".toList ++ w))) := by
    rw [WrittenCall.chars, hpattern]
    simp only [List.append_assoc]
    exact Text.splitOnce_append_self _ (by decide) hplain.bare
  have hclose : Text.splitOnce "</function>".toList
      (c.name.toList ++ (c.args ++ ("</function>".toList ++ w))) =
      some (c.name.toList ++ c.args, w) := by
    have hself : Text.splitOnce "</function>".toList (c.args ++ ("</function>".toList ++ w)) =
        some (c.args, w) :=
      Text.splitOnce_append_self w (by decide) hargs
    have hover : Text.splitOnce "</function>".toList
        (c.name.toList ++ (c.args ++ ("</function>".toList ++ w))) =
        (Text.splitOnce "</function>".toList (c.args ++ ("</function>".toList ++ w))).map
          fun r => (c.name.toList ++ r.1, r.2) :=
      Text.splitOnce_append_of_not_mem _ hname
    rw [hover, hself, Option.map_some]
  rw [WrittenCall.Fits, hpattern] at hfits
  obtain ⟨hbrace, htrim, hne, hhead⟩ := hfits
  obtain ⟨args, hbody⟩ : ∃ args, c.args = '\x7b' :: args := by
    cases h : c.args with
    | nil => simp [h] at hhead
    | cons x args =>
      rw [h] at hhead
      exact ⟨args, by rw [Option.some.inj hhead]⟩
  have hall : ∀ x ∈ c.name.toList, decide (x ≠ '\x7b') = true := fun x hx =>
    decide_eq_true fun h => hbrace (h ▸ hx)
  have hbefore : (c.name.toList ++ c.args).takeWhile (· ≠ '\x7b') = c.name.toList := by
    rw [List.takeWhile_append_of_pos hall, hbody]
    simp
  have hafter : (c.name.toList ++ c.args).dropWhile (· ≠ '\x7b') = c.args := by
    rw [List.dropWhile_append_of_pos hall, hbody]
    simp
  have hargs' : c.args ≠ [] := by
    rw [hbody]
    exact List.cons_ne_nil _ _
  have hempty : c.name.isEmpty = false := by simpa using hne
  rw [functionCalls, htag]
  simp only [hclose, hbefore, hafter, String.ofList_toList, htrim, hjson.trim _ _ hinput]
  rw [if_neg (by simp [hargs', hempty, hknown]), take, hpattern]
  exact (apply_ite (functionCalls parseJson names n w) ..).symm

/-- A tag in the arguments of a call of the first pattern calls nothing. -/
theorem functionCalls_named {n : ℕ} {front tail : List Char} {calls : List (String × Json)}
    (hjson : ReadsJson parseJson) (hnames : ∀ name ∈ names, IsToolName name)
    (hpattern : c.pattern = .named) (hplain : Plain plain) (hname : '<' ∉ c.name.toList)
    (hinput : parseJson (String.ofList c.args) = some c.input)
    (hargs : ¬ "</function>".toList <:+: c.args)
    (htag : Text.splitOnce "<function>".toList c.args = some (front, tail)) :
    functionCalls parseJson names (n + 1) (plain ++ (c.chars ++ w)) calls =
      functionCalls parseJson names n w calls := by
  have hopening : Text.splitOnce "<function>".toList
      (plain ++ '<' :: (c.opening ++ (c.args ++ ("</function>".toList ++ w)))) =
      (Text.splitOnce "<function>".toList (c.args ++ ("</function>".toList ++ w))).map
        fun r => (plain ++ '<' :: (c.opening ++ r.1), r.2) :=
    splitOnce_opening (by decide) hplain.bare hname (not_bare_prefix_opening hpattern _)
  have htext : Text.splitOnce "<function>".toList (plain ++ (c.chars ++ w)) =
      some (plain ++ '<' :: (c.opening ++ front), tail ++ ("</function>".toList ++ w)) := by
    rw [c.chars_eq, List.cons_append, List.append_assoc, List.append_assoc, hopening,
      Text.splitOnce_append_right _ htag]
    rfl
  have hargs' : c.args = (front ++ "<function>".toList) ++ tail := Text.eq_of_splitOnce htag
  have hclose : Text.splitOnce "</function>".toList (tail ++ ("</function>".toList ++ w)) =
      some (tail, w) :=
    Text.splitOnce_append_self w (by decide) (not_close_infix_of_suffix hargs' hargs)
  rw [functionCalls, htext]
  simp only [hclose]
  split_ifs with hskip
  · rfl
  -- a known name has no quote, so that its brace stands in a string of the arguments
  simp only [Bool.or_eq_true, decide_eq_true_eq, not_or, not_not] at hskip
  obtain ⟨⟨hbody, -⟩, hknown⟩ := hskip
  have hquote : '"' ∉ tail.takeWhile (· ≠ '\x7b') := fun h => by
    have := (hnames _ hknown).2
    rw [Text.toList_trim, String.toList_ofList] at this
    exact this (Text.mem_trimChars h (by decide))
  have hplaces := hjson.places _ _ hinput
  cases hdrop : tail.dropWhile (· ≠ '\x7b') with
  | nil => exact absurd hdrop hbody
  | cons x body =>
    have hx : x = '\x7b' := by
      have := List.head?_dropWhile_not (· ≠ '\x7b') tail
      rw [hdrop] at this
      simpa using this
    have htail : tail = tail.takeWhile (· ≠ '\x7b') ++ x :: body := by
      rw [← hdrop, List.takeWhile_append_dropWhile]
    have hin : readAll .inside (x :: body) = some .outside := by
      rw [readAll_cons, hx]
      refine readAll_inside_of_tag (p := front)
        (m := "function>".toList ++ tail.takeWhile (· ≠ '\x7b')) (x := x) ?_ ?_ ?_
      · rw [String.toList_ofList, hargs', htail] at hplaces
        simpa using hplaces
      · simpa using hquote
      · rw [hx]
        decide
    rw [parseJson_trim_eq_none hjson hin]

/-- **The second scan.** -/
theorem functionCalls_written {n : ℕ} {calls : List (String × Json)} (hjson : ReadsJson parseJson)
    (hnames : ∀ name ∈ names, IsToolName name) (hlast : Plain last)
    (hl : ∀ s ∈ l, Recoverable parseJson names s) (hn : (written l last).length < n) :
    functionCalls parseJson names n (written l last) calls =
      l.foldl (fun calls s => take calls s.2) calls := by
  induction l generalizing n calls with
  | nil =>
    cases n with
    | zero => rfl
    | succ n =>
      rw [functionCalls, written, (Text.splitOnce_eq_none_iff (by decide) last).2 hlast.bare]
      rfl
  | cons s l ih =>
    obtain ⟨plain, c⟩ := s
    have hl' : ∀ s ∈ l, Recoverable parseJson names s := fun s hs =>
      hl s (List.mem_cons_of_mem _ hs)
    obtain ⟨hplain, hknown, hinput, hargs, hfits⟩ := hl (plain, c) List.mem_cons_self
    have hname := (hnames _ hknown).1
    have hlt := length_written_lt (plain, c) l last
    obtain ⟨n, rfl⟩ : ∃ m, n = m + 1 := ⟨n - 1, by omega⟩
    rw [written, List.foldl_cons]
    cases hpattern : c.pattern with
    | bare =>
      rw [functionCalls_bare hjson hpattern hplain hknown hname hinput hargs hfits]
      exact ih hl' (by omega)
    | named =>
      have htake : take calls c = calls := by rw [take, hpattern]
      rw [htake]
      cases htag : Text.splitOnce "<function>".toList c.args with
      | none =>
        obtain ⟨front, hfront⟩ := splitOnce_chars (p := "function>".toList)
          (w := written l last) (by decide) hplain.bare hname (not_bare_prefix_opening hpattern)
          ((Text.splitOnce_eq_none_iff (by decide) c.args).1 htag) (by simp)
        rw [functionCalls_congr hfront]
        exact ih hl' (by omega)
      | some r =>
        rw [functionCalls_named hjson hnames hpattern hplain hname hinput hargs htag]
        exact ih hl' (by omega)

/-! ### What the scans come to -/

/-- The calls of one pattern, in their order. -/
def callsOf (pattern : Pattern) (l : List (List Char × WrittenCall)) : List (String × Json) :=
  (l.filter fun s => s.2.pattern = pattern).map fun s => s.2.call

theorem callsOf_cons_of_eq {s : List Char × WrittenCall} {pattern : Pattern}
    (h : s.2.pattern = pattern) : callsOf pattern (s :: l) = s.2.call :: callsOf pattern l := by
  rw [callsOf, List.filter_cons_of_pos (by simpa using h), List.map_cons]
  rfl

theorem callsOf_cons_of_ne {s : List Char × WrittenCall} {pattern : Pattern}
    (h : s.2.pattern ≠ pattern) : callsOf pattern (s :: l) = callsOf pattern l := by
  rw [callsOf, List.filter_cons_of_neg (by simpa using h)]
  rfl

theorem mem_callsOf {pattern : Pattern} {d : String × Json} :
    d ∈ callsOf pattern l ↔ ∃ s ∈ l, s.2.pattern = pattern ∧ s.2.call = d := by
  simp [callsOf, and_assoc]

theorem callsOf_cons_sublist (pattern : Pattern) (s : List Char × WrittenCall) :
    (callsOf pattern l).Sublist (callsOf pattern (s :: l)) := by
  by_cases h : s.2.pattern = pattern
  · rw [callsOf_cons_of_eq h]
    exact List.sublist_cons_self _ _
  · rw [callsOf_cons_of_ne h]

theorem length_callsOf (l : List (List Char × WrittenCall)) :
    (callsOf .named l).length + (callsOf .bare l).length = l.length := by
  induction l with
  | nil => rfl
  | cons s l ih =>
    cases h : s.2.pattern with
    | named =>
      rw [callsOf_cons_of_eq h, callsOf_cons_of_ne (by simp [h]), List.length_cons,
        List.length_cons]
      omega
    | bare =>
      rw [callsOf_cons_of_eq h, callsOf_cons_of_ne (by simp [h]), List.length_cons,
        List.length_cons]
      omega

theorem heard_sublist (b : Bool) (l : List (List Char × WrittenCall)) :
    (heard b l).Sublist (callsOf .named l) := by
  induction l generalizing b with
  | nil => cases b <;> exact List.Sublist.refl _
  | cons s l ih =>
    cases b with
    | true => exact (ih false).trans (callsOf_cons_sublist .named s)
    | false =>
      cases h : s.2.pattern with
      | named =>
        rw [callsOf_cons_of_eq h, heard, h]
        exact (ih false).cons_cons _
      | bare =>
        rw [callsOf_cons_of_ne (by simp [h]), heard, h]
        exact ih _

/-- What is taken is what is there and some of the calls of the second pattern. -/
theorem foldl_take_sublist (l : List (List Char × WrittenCall)) (calls : List (String × Json)) :
    ∃ taken, l.foldl (fun calls s => take calls s.2) calls = calls ++ taken ∧
      taken.Sublist (callsOf .bare l) := by
  induction l generalizing calls with
  | nil => exact ⟨[], by simp, List.Sublist.refl _⟩
  | cons s l ih =>
    obtain ⟨taken, htaken, hsub⟩ := ih (take calls s.2)
    rw [List.foldl_cons, htaken, take]
    cases h : s.2.pattern with
    | named => exact ⟨taken, rfl, hsub.trans (callsOf_cons_sublist .bare s)⟩
    | bare =>
      dsimp only
      rw [callsOf_cons_of_eq h]
      split_ifs
      · exact ⟨taken, rfl, hsub.cons _⟩
      · exact ⟨s.2.call :: taken, by simp, hsub.cons_cons _⟩

/-- All of them are taken exactly if none of them is there, neither before nor among them. -/
theorem foldl_take_eq_iff (l : List (List Char × WrittenCall)) (calls : List (String × Json)) :
    l.foldl (fun calls s => take calls s.2) calls = calls ++ callsOf .bare l ↔
      (callsOf .bare l).Pairwise (fun d e => sameCall d e = false) ∧
        ∀ e ∈ callsOf .bare l, ∀ d ∈ calls, sameCall d e = false := by
  induction l generalizing calls with
  | nil => simp [callsOf]
  | cons s l ih =>
    rw [List.foldl_cons, take]
    cases h : s.2.pattern with
    | named =>
      rw [callsOf_cons_of_ne (by simp [h])]
      exact ih calls
    | bare =>
      rw [callsOf_cons_of_eq h]
      dsimp only
      split_ifs with hany
      · refine iff_of_false (fun heq => ?_) fun hall => ?_
        · obtain ⟨taken, htaken, hsub⟩ := foldl_take_sublist l calls
          rw [htaken] at heq
          have := hsub.length_le
          rw [List.append_cancel_left heq, List.length_cons] at this
          omega
        · obtain ⟨d, hd, hsame⟩ := List.any_eq_true.1 hany
          rw [hall.2 _ List.mem_cons_self d hd] at hsame
          cases hsame
      · have hnone : ∀ d ∈ calls, sameCall d s.2.call = false := by simpa using hany
        rw [List.append_cons calls s.2.call (callsOf .bare l), ih, List.pairwise_cons,
          List.forall_mem_cons]
        simp only [List.mem_append, List.mem_singleton]
        constructor
        · rintro ⟨hpair, hall⟩
          exact ⟨⟨fun e he => hall e he _ (.inr rfl), hpair⟩, hnone,
            fun e he d hd => hall e he d (.inl hd)⟩
        · rintro ⟨⟨hfirst, hpair⟩, -, hall⟩
          refine ⟨hpair, fun e he d hd => ?_⟩
          rcases hd with hd | rfl
          · exact hall e he d hd
          · exact hfirst e he

theorem sameCall_self (d : String × Json) : sameCall d d = true := by simp [sameCall]

/-- A call is recovered behind another one. -/
def Follows (c d : WrittenCall) : Prop :=
  (c.pattern = .bare → d.pattern = .bare) ∧ (d.pattern = .bare → sameCall c.call d.call = false)

/-- Behind a call of the second pattern there is none of the first. -/
theorem callsOf_named_eq_nil (h : ∀ s ∈ l, s.2.pattern = .bare) : callsOf .named l = [] := by
  rw [List.eq_nil_iff_forall_not_mem]
  intro d hd
  obtain ⟨s, hs, hnamed, -⟩ := mem_callsOf.1 hd
  rw [h s hs] at hnamed
  cases hnamed

/-- In an ordered text the first scan finds all its calls, and the second one goes on. -/
theorem heard_of_pairwise (h : l.Pairwise fun s t => Follows s.2 t.2) :
    heard false l = callsOf .named l ∧
      callsOf .named l ++ callsOf .bare l = l.map fun s => s.2.call := by
  induction l with
  | nil => exact ⟨rfl, rfl⟩
  | cons s l ih =>
    rw [List.pairwise_cons] at h
    obtain ⟨hheard, hall⟩ := ih h.2
    cases hs : s.2.pattern with
    | named =>
      rw [heard, hs, callsOf_cons_of_eq hs, callsOf_cons_of_ne (by simp [hs]), List.map_cons,
        ← hall, hheard]
      exact ⟨rfl, rfl⟩
    | bare =>
      have hnil := callsOf_named_eq_nil fun t ht => (h.1 t ht).1 hs
      rw [hnil] at hall
      rw [heard, hs, callsOf_cons_of_eq hs, callsOf_cons_of_ne (by simp [hs]), List.map_cons,
        ← hall, hnil]
      exact ⟨List.sublist_nil.1 (hnil ▸ heard_sublist _ l), rfl⟩

theorem not_repeated_of_pairwise (h : l.Pairwise fun s t => Follows s.2 t.2) :
    (callsOf .bare l).Pairwise (fun d e => sameCall d e = false) ∧
      ∀ e ∈ callsOf .bare l, ∀ d ∈ callsOf .named l, sameCall d e = false := by
  induction l with
  | nil => exact ⟨List.Pairwise.nil, fun e he => absurd he List.not_mem_nil⟩
  | cons s l ih =>
    rw [List.pairwise_cons] at h
    obtain ⟨hpair, hcross⟩ := ih h.2
    have hfirst : ∀ e ∈ callsOf .bare l, sameCall s.2.call e = false := fun e he => by
      obtain ⟨t, ht, hbare, rfl⟩ := mem_callsOf.1 he
      exact (h.1 t ht).2 hbare
    cases hs : s.2.pattern with
    | named =>
      rw [callsOf_cons_of_eq hs, callsOf_cons_of_ne (by simp [hs])]
      refine ⟨hpair, fun e he d hd => ?_⟩
      rcases List.mem_cons.1 hd with rfl | hd
      · exact hfirst e he
      · exact hcross e he d hd
    | bare =>
      rw [callsOf_cons_of_eq hs, callsOf_cons_of_ne (by simp [hs]),
        callsOf_named_eq_nil fun t ht => (h.1 t ht).1 hs]
      exact ⟨List.pairwise_cons.2 ⟨hfirst, hpair⟩, fun e _ d hd => absurd hd List.not_mem_nil⟩

/-- If the two kinds of calls, one behind the other, are the calls in their order, and no call is
repeated in the second pattern, then no call of the first pattern stands behind one of the second:
the first such call would have to be equal to one. -/
theorem pairwise_of_append_eq
    (hall : callsOf .named l ++ callsOf .bare l = l.map fun s => s.2.call)
    (hpair : (callsOf .bare l).Pairwise fun d e => sameCall d e = false)
    (hcross : ∀ e ∈ callsOf .bare l, ∀ d ∈ callsOf .named l, sameCall d e = false) :
    l.Pairwise fun s t => Follows s.2 t.2 := by
  induction l with
  | nil => exact List.Pairwise.nil
  | cons s l ih =>
    rw [List.pairwise_cons]
    cases hs : s.2.pattern with
    | named =>
      rw [callsOf_cons_of_eq hs, callsOf_cons_of_ne (by simp [hs]), List.map_cons,
        List.cons_append] at hall
      rw [callsOf_cons_of_ne (by simp [hs])] at hpair
      rw [callsOf_cons_of_eq hs, callsOf_cons_of_ne (by simp [hs])] at hcross
      refine ⟨fun t ht => ⟨fun hbare => ?_, fun hbare => ?_⟩, ?_⟩
      · rw [hs] at hbare
        cases hbare
      · exact hcross _ (mem_callsOf.2 ⟨t, ht, hbare, rfl⟩) _ List.mem_cons_self
      · exact ih (List.cons.inj hall).2 hpair fun e he d hd =>
          hcross e he d (List.mem_cons_of_mem _ hd)
    | bare =>
      rw [callsOf_cons_of_eq hs, callsOf_cons_of_ne (by simp [hs]), List.map_cons] at hall
      rw [callsOf_cons_of_eq hs] at hpair
      rw [callsOf_cons_of_eq hs, callsOf_cons_of_ne (by simp [hs])] at hcross
      rw [List.pairwise_cons] at hpair
      have hnil : callsOf .named l = [] := by
        cases hnamed : callsOf .named l with
        | nil => rfl
        | cons d ds =>
          rw [hnamed, List.cons_append] at hall
          have hd := hcross _ List.mem_cons_self d (hnamed ▸ List.mem_cons_self)
          rw [(List.cons.inj hall).1, sameCall_self] at hd
          cases hd
      rw [hnil, List.nil_append] at hall
      refine ⟨fun t ht => ⟨fun _ => ?_, fun hbare => ?_⟩, ih ?_ hpair.2 ?_⟩
      · cases ht' : t.2.pattern with
        | bare => rfl
        | named =>
          have : t.2.call ∈ callsOf .named l := mem_callsOf.2 ⟨t, ht, ht', rfl⟩
          rw [hnil] at this
          exact absurd this List.not_mem_nil
      · exact hpair.1 _ (mem_callsOf.2 ⟨t, ht, hbare, rfl⟩)
      · rw [hnil]
        exact (List.cons.inj hall).2
      · rw [hnil]
        exact fun e _ d hd => absurd hd List.not_mem_nil

/-! ### The recovered calls -/

variable {availableTools : List ToolDefinition}

theorem textToolCalls_written (hjson : ReadsJson parseJson)
    (hnames : ∀ tool ∈ availableTools, IsToolName tool.name)
    (a : WrittenAnswer parseJson (availableTools.map ToolDefinition.name)) :
    textToolCalls parseJson a.text availableTools =
      a.calls.foldl (fun calls s => take calls s.2) (heard false a.calls) := by
  have hnames' : ∀ name ∈ availableTools.map ToolDefinition.name, IsToolName name := by
    simpa using hnames
  rw [textToolCalls, WrittenAnswer.text, String.toList_ofList,
    (functionEqCalls_written hjson hnames' a.plain_last a.recoverable).1 _ (Nat.lt_succ_self _)]
  exact functionCalls_written hjson hnames' a.plain_last a.recoverable (Nat.lt_succ_self _)

/-- **When exactly the calls that are written are recovered**, each as often as it is written and in
their order: exactly if every call is recovered behind every call before it. -/
theorem textToolCalls_written_iff (hjson : ReadsJson parseJson)
    (hnames : ∀ tool ∈ availableTools, IsToolName tool.name)
    (a : WrittenAnswer parseJson (availableTools.map ToolDefinition.name)) :
    textToolCalls parseJson a.text availableTools = a.calls.map (fun s => s.2.call) ↔
      a.calls.Pairwise fun s t => Follows s.2 t.2 := by
  rw [textToolCalls_written hjson hnames]
  constructor
  · intro hcalls
    obtain ⟨taken, htaken, hsub⟩ := foldl_take_sublist a.calls (heard false a.calls)
    have hheard := heard_sublist false a.calls
    have hlen := congrArg List.length (htaken.symm.trans hcalls)
    rw [List.length_append, List.length_map, ← length_callsOf] at hlen
    -- nothing of either kind may be missing
    have hle := hheard.length_le
    have hle' := hsub.length_le
    have hnamed := hheard.eq_of_length (by omega)
    have hbare := hsub.eq_of_length (by omega)
    rw [hbare] at htaken
    obtain ⟨hpair, hcross⟩ := (foldl_take_eq_iff a.calls _).1 htaken
    rw [hnamed] at htaken hcross hcalls
    exact pairwise_of_append_eq (htaken.symm.trans hcalls) hpair hcross
  · intro hpairwise
    obtain ⟨hheard, hall⟩ := heard_of_pairwise hpairwise
    rw [hheard, ← hall, foldl_take_eq_iff]
    exact not_repeated_of_pairwise hpairwise

/-! ### Two calls without arguments -/

/-- A reader that knows one text. -/
def readEmptyObject (s : String) : Option Json :=
  if s = "\x7b\x7d" then some (.object []) else none

theorem readsJson_readEmptyObject : ReadsJson readEmptyObject where
  trim s v h := by
    obtain rfl : s = "\x7b\x7d" := by
      by_contra hne
      rw [readEmptyObject, if_neg hne] at h
      cases h
    exact h
  places s v h := by
    obtain rfl : s = "\x7b\x7d" := by
      by_contra hne
      rw [readEmptyObject, if_neg hne] at h
      cases h
    decide

def clockTools : List ToolDefinition := [⟨"now", "", .null⟩, ⟨"today", "", .null⟩]

theorem recoverable_emptyObject (pattern : Pattern) {text : List Char} {name : String}
    (hplain : Plain text) (hknown : name ∈ names)
    (hname : '>' ∉ name.toList ∧ '\x7b' ∉ name.toList) (htrim : Text.trim name = name)
    (hne : name ≠ "") : Recoverable readEmptyObject names
      (text, ⟨pattern, name, "\x7b\x7d".toList, .object []⟩) where
  plain := hplain
  known := hknown
  json := rfl
  unclosed := by
    dsimp only
    decide
  fits := by
    cases pattern with
    | named => exact hname.1
    | bare => exact ⟨hname.2, htrim, hne, rfl⟩

/-- The tools are called one behind the other, each in a pattern. -/
def clockAnswer (first second : Pattern) :
    WrittenAnswer readEmptyObject (clockTools.map ToolDefinition.name) where
  calls := [("Now: ".toList, ⟨first, "now", "\x7b\x7d".toList, .object []⟩),
    (" today: ".toList, ⟨second, "today", "\x7b\x7d".toList, .object []⟩)]
  last := []
  recoverable := by
    refine List.forall_mem_cons.2 ⟨?_, List.forall_mem_singleton.2 ?_⟩
    · exact recoverable_emptyObject first ⟨by decide, by decide, by decide⟩
        (by decide) (by decide) (by decide) (by decide)
    · exact recoverable_emptyObject second ⟨by decide, by decide, by decide⟩
        (by decide) (by decide) (by decide) (by decide)
  plain_last := ⟨by decide, by decide, by decide⟩

theorem isToolName_clockTools : ∀ tool ∈ clockTools, IsToolName tool.name := by
  unfold IsToolName
  decide

theorem textToolCalls_clockAnswer :
    textToolCalls readEmptyObject (clockAnswer .named .bare).text clockTools =
        (clockAnswer .named .bare).calls.map (fun s => s.2.call) ↔
      (clockAnswer .named .bare).calls.Pairwise fun s t => Follows s.2 t.2 :=
  textToolCalls_written_iff readsJson_readEmptyObject isToolName_clockTools
    (clockAnswer .named .bare)

/-- The call of the second pattern is moved behind the other one. -/
theorem textToolCalls_reordered : ∃ a : WrittenAnswer readEmptyObject
      (clockTools.map ToolDefinition.name), ReadsJson readEmptyObject ∧
    (textToolCalls readEmptyObject a.text clockTools).map Prod.fst = ["today", "now"] ∧
    textToolCalls readEmptyObject a.text clockTools ≠ a.calls.map (fun s => s.2.call) := by
  have hnames : (textToolCalls readEmptyObject (clockAnswer .bare .named).text clockTools).map
      Prod.fst = ["today", "now"] := by
    rw [textToolCalls_written readsJson_readEmptyObject isToolName_clockTools]
    decide
  refine ⟨clockAnswer .bare .named, readsJson_readEmptyObject, hnames, fun h => ?_⟩
  rw [h] at hnames
  revert hnames
  decide

end LoopText
end RustyHand
