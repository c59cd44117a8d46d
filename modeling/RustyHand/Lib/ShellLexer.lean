import Mathlib.Data.List.Basic
import Mathlib.Tactic.Common

/-!
# The shell's lexer

How a POSIX shell cuts a command string into tokens and the tokens into simple commands: words with
their quoting, redirections with their file descriptors, comments, and the control operators that
end a command.  A word keeps what the later expansions need to know of each of its characters.

Not entered are the bodies of command substitutions and of here-documents, and a string the grammar
of lists refuses (two control operators in a row) is cut all the same.

* `Lexer`, `Lexer.step`: the state between two characters, and reading one;
* `commandList`: the commands of a string, or nothing when a quotation is left open;
* `commandWord?`: the word a command executes;
* `stands_of_mem_commandList`: where in the string a command's first word stands.
-/

namespace ShellLexer

/-- A character of a word, or the beginning of a quotation in it. -/
inductive Piece
  | bare (c : Char)
  | quoted (c : Char)
  | expand (c : Char)
  | quote
  deriving DecidableEq

/-- A word (does it end at a blank or a control operator, or right before another operator?), a
redirection operator, or a parenthesis. -/
inductive Token
  | word (pieces : List Piece) (alone : Bool)
  | redirect (op : List Char)
  | paren (c : Char)
  deriving DecidableEq

/-- How the next character is read. -/
inductive Mode
  | plain
  | escape
  | single
  | double
  | doubleEscape
  | comment
  deriving DecidableEq

def apostrophe : Char := Char.ofNat 0x27
def quotation : Char := Char.ofNat 0x22
def backquote : Char := Char.ofNat 0x60
def backslash : Char := Char.ofNat 0x5C
def newline : Char := Char.ofNat 0x0A
def tab : Char := Char.ofNat 0x09

def isBlank (c : Char) : Bool := c = ' ' || c = tab

/-- Does `c` begin an operator that ends a command? -/
def isControl (c : Char) : Bool := c = ';' || c = '&' || c = '|' || c = newline

def isDelimiter (c : Char) : Bool := isBlank c || isControl c

/-- Does `c` stand for itself in a word, wherever it comes in it? -/
def isWordChar (c : Char) : Bool :=
  !isDelimiter c && !(c = '<' || c = '>' || c = '(' || c = ')' || c = backslash ||
    c = apostrophe || c = quotation || c = '$' || c = backquote)

def redirectOps : List (List Char) :=
  [['<'], ['>'], ['<', '<'], ['>', '>'], ['<', '&'], ['>', '&'], ['<', '>'], ['>', '|'],
    ['<', '<', '-']]

/-- What was read: the word and the redirection operator not finished yet, the tokens of the command
not finished yet, and the commands before it. -/
structure Lexer where
  mode : Mode
  word : Option (List Piece)
  redirect : List Char
  command : List Token
  commands : List (List Token)

namespace Lexer

def init : Lexer :=
  { mode := .plain, word := none, redirect := [], command := [], commands := [] }

def addPiece (p : Piece) (s : Lexer) : Lexer := { s with word := some (s.word.getD [] ++ [p]) }

def endRedirect (s : Lexer) : Lexer :=
  if s.redirect = [] then s
  else { s with redirect := [], command := s.command ++ [.redirect s.redirect] }

def endWord (alone : Bool) (s : Lexer) : Lexer :=
  match s.word with
  | none => s
  | some w => { s with word := none, command := s.command ++ [.word w alone] }

def endCommand (s : Lexer) : Lexer :=
  if s.command = [] then s else { s with command := [], commands := s.commands ++ [s.command] }

/-- Is the word the number of a file descriptor, should a redirection follow? -/
def hasIoNumber (s : Lexer) : Bool :=
  match s.word with
  | none => false
  | some w => w.all fun p =>
      match p with
      | .bare c => c.isDigit
      | _ => false

/-- Read a character outside quotations and operators. -/
def readPlain (c : Char) (s : Lexer) : Lexer :=
  if isBlank c then s.endWord true
  else if isControl c then (s.endWord true).endCommand
  else if c = '<' ∨ c = '>' then
    { (if s.hasIoNumber then { s with word := none } else s.endWord false) with redirect := [c] }
  else if c = '(' ∨ c = ')' then
    { s.endWord false with command := (s.endWord false).command ++ [.paren c] }
  else if c = '#' ∧ s.word = none then { s with mode := .comment }
  else if c = backslash then { s with mode := .escape }
  else if c = apostrophe then { s.addPiece .quote with mode := .single }
  else if c = quotation then { s.addPiece .quote with mode := .double }
  else if c = '$' ∨ c = backquote then s.addPiece (.expand c)
  else s.addPiece (.bare c)

/-- Read a character. -/
def step (s : Lexer) (c : Char) : Lexer :=
  match s.mode with
  | .plain =>
      if s.redirect ≠ [] ∧ s.redirect ++ [c] ∈ redirectOps then
        { s with redirect := s.redirect ++ [c] }
      else s.endRedirect.readPlain c
  | .escape =>
      -- a backslash and a newline are both removed
      if c = newline then { s with mode := .plain }
      else { s.addPiece (.quoted c) with mode := .plain }
  | .single =>
      if c = apostrophe then { s with mode := .plain } else s.addPiece (.quoted c)
  | .double =>
      if c = quotation then { s with mode := .plain }
      else if c = backslash then { s with mode := .doubleEscape }
      else if c = '$' ∨ c = backquote then s.addPiece (.expand c)
      else s.addPiece (.quoted c)
  | .doubleEscape =>
      if c = newline then { s with mode := .double }
      else if c = '$' ∨ c = backquote ∨ c = quotation ∨ c = backslash then
        { s.addPiece (.quoted c) with mode := .double }
      else { (s.addPiece (.quoted backslash)).addPiece (.quoted c) with mode := .double }
  | .comment => if c = newline then ({ s with mode := .plain }).readPlain c else s

/-- The commands, when the string ends here. -/
def finish (s : Lexer) : Option (List (List Token)) :=
  match s.mode with
  | .plain | .comment => some (s.endRedirect.readPlain newline).commands
  | .escape => some ((s.addPiece (.quoted backslash)).readPlain newline).commands
  | .single | .double | .doubleEscape => none

end Lexer

/-- The simple commands of a command string, as tokens. -/
def commandList (s : List Char) : Option (List (List Token)) := (s.foldl Lexer.step .init).finish

/-! ### The word a command executes -/

/-- The characters of a piece after quote removal, when no expansion or pattern is in it. -/
def Piece.chars? : Piece → Option (List Char)
  | .bare c => if c = '*' ∨ c = '?' ∨ c = '[' then none else some [c]
  | .quoted c => some [c]
  | .expand _ => none
  | .quote => some []

/-- The text a word stands for, when it is the same in every environment. -/
def value? (w : List Piece) : Option (List Char) :=
  if w.head? = some (.bare '~') then none else (w.mapM Piece.chars?).map List.flatten

/-- Is the word an assignment `name=…`? -/
def isAssignment (w : List Piece) : Bool :=
  let name := w.takeWhile fun p =>
    match p with
    | .bare c => c.isAlphanum || c = '_'
    | _ => false
  (w.drop name.length).head? = some (.bare '=') &&
    match name with
    | .bare c :: _ => !c.isDigit
    | _ => false

def reservedWords : List (List Char) :=
  ["!", "\x7b", "\x7d", "case", "do", "done", "elif", "else", "esac", "fi", "for", "if", "then",
    "until",     "while"].map String.toList

/-- Does the command begin with a reserved word? -/
def isReserved (w : List Piece) : Bool := reservedWords.any fun r => w = r.map .bare

/-- The command word behind assignments and redirections. -/
def wordBehind? : List Token → Option (List Char)
  | .redirect _ :: .word _ _ :: rest => wordBehind? rest
  | .word w _ :: rest => if isAssignment w then wordBehind? rest else value? w
  | _ => none

/-- The command word of a simple command. -/
def commandWord? : List Token → Option (List Char)
  | .word w a :: rest => if isReserved w then none else wordBehind? (.word w a :: rest)
  | c => wordBehind? c

/-- The characters of a word without quotations and expansions. -/
def literal? : List Piece → Option (List Char)
  | [] => some []
  | .bare c :: w => (literal? w).map (c :: ·)
  | _ :: _ => none

/-- The command word, when it is the first token, a literal, and stands alone. -/
def plainCommandWord? : List Token → Option (List Char)
  | .word w true :: _ =>
      if isAssignment w || isReserved w || value? w = none then none else literal? w
  | _ => none

theorem eq_map_bare_of_literal? {w : List Piece} {t : List Char} (h : literal? w = some t) :
    w = t.map .bare := by
  induction w generalizing t with
  | nil =>
    obtain rfl : [] = t := Option.some.inj h
    rfl
  | cons p w ih =>
    cases p with
    | bare c =>
      obtain ⟨u, hu, rfl⟩ := Option.map_eq_some_iff.1 h
      rw [ih hu, List.map_cons]
    | quoted c => cases h
    | expand c => cases h
    | quote => cases h

/-! ### Where the first word of a command stands -/

/-- The text `p` ends with the word `w`, behind its beginning or a control operator and blanks. -/
def Begun (p w : List Char) : Prop :=
  ∃ pre blanks, p = pre ++ blanks ++ w ∧ (∀ c ∈ pre.getLast?, isControl c = true) ∧
    (∀ c ∈ blanks, isBlank c = true) ∧ ∀ c ∈ w, isWordChar c = true

/-- The text `p` has the word `w` at the beginning of a command, and then a blank or a control
operator. -/
def Stands (p w : List Char) : Prop :=
  ∃ q d rest, p = q ++ d :: rest ∧ Begun q w ∧ w ≠ [] ∧ isDelimiter d = true

theorem Begun.nil : Begun [] [] := ⟨[], [], rfl, by simp, by simp, by simp⟩

theorem Begun.blank {p : List Char} {c : Char} (h : Begun p []) (hc : isBlank c = true) :
    Begun (p ++ [c]) [] := by
  obtain ⟨pre, blanks, rfl, hpre, hblanks, hw⟩ := h
  refine ⟨pre, blanks ++ [c], by simp, hpre, ?_, hw⟩
  intro d hd
  rcases List.mem_append.1 hd with hd | hd
  · exact hblanks d hd
  · rwa [List.mem_singleton.1 hd]

theorem Begun.control (p : List Char) {c : Char} (hc : isControl c = true) :
    Begun (p ++ [c]) [] := by
  refine ⟨p ++ [c], [], by simp, ?_, by simp, by simp⟩
  intro d hd
  rw [List.getLast?_concat] at hd
  rwa [← Option.some.inj hd]

theorem Begun.snoc {p w : List Char} {c : Char} (h : Begun p w) (hc : isWordChar c = true) :
    Begun (p ++ [c]) (w ++ [c]) := by
  obtain ⟨pre, blanks, rfl, hpre, hblanks, hw⟩ := h
  refine ⟨pre, blanks, by simp, hpre, hblanks, ?_⟩
  intro d hd
  rcases List.mem_append.1 hd with hd | hd
  · exact hw d hd
  · rwa [List.mem_singleton.1 hd]

theorem Begun.stands {p w : List Char} {c : Char} (h : Begun p w) (hw : w ≠ [])
    (hc : isDelimiter c = true) : Stands (p ++ [c]) w := ⟨p, c, [], rfl, h, hw, hc⟩

theorem Stands.snoc {p w : List Char} (h : Stands p w) (c : Char) : Stands (p ++ [c]) w := by
  obtain ⟨q, d, rest, rfl, h⟩ := h
  exact ⟨q, d, rest ++ [c], by simp, h⟩

/-- The text around a word that stands before the end of a text or inside it. -/
theorem Stands.split {t w : List Char} {c : Char} (h : Stands (t ++ [c]) w) :
    ∃ q rest, t = q ++ rest ∧ Begun q w ∧ w ≠ [] ∧ ∀ d ∈ rest.head?, isDelimiter d = true := by
  obtain ⟨q, d, rest, ht, hbegun, hne, hd⟩ := h
  rcases List.eq_nil_or_concat rest with rfl | ⟨rest, e, rfl⟩
  · obtain ⟨rfl, -⟩ := List.append_inj' ht rfl
    exact ⟨t, [], by rw [List.append_nil], hbegun, hne, by simp⟩
  · have ht' : t ++ [c] = (q ++ d :: rest) ++ [e] := by simpa using ht
    obtain ⟨rfl, -⟩ := List.append_inj' ht' rfl
    refine ⟨q, d :: rest, rfl, hbegun, hne, ?_⟩
    intro e he
    rwa [← Option.some.inj he]

/-- The command's first token is the word `w`, a literal that stands alone. -/
def Leads (command : List Token) (w : List Char) : Prop :=
  command.head? = some (.word (w.map .bare) true)

theorem leads_of_plainCommandWord? {command : List Token} {w : List Char}
    (h : plainCommandWord? command = some w) : Leads command w := by
  unfold plainCommandWord? at h
  split at h
  · split_ifs at h
    rw [Leads, eq_map_bare_of_literal? h, List.head?_cons]
  · cases h

theorem leads_append {command : List Token} {t : Token} {w : List Char}
    (h : Leads (command ++ [t]) w) :
    Leads command w ∨ command = [] ∧ t = .word (w.map .bare) true := by
  cases command with
  | nil => exact Or.inr ⟨rfl, Option.some.inj h⟩
  | cons u command => exact Or.inl h

namespace Lexer

variable {p : List Char} {s : Lexer} {c : Char}

/-- What holds after reading `p`, as long as no newline came. -/
structure Inv (p : List Char) (s : Lexer) : Prop where
  done : ∀ command ∈ s.commands, ∀ w, Leads command w → Stands p w
  current : ∀ w, Leads s.command w → Stands p w
  begun : s.command = [] → s.redirect = [] → s.mode = .plain →
    ∀ w, s.word.getD [] = w.map .bare → Begun p w
  word : s.word ≠ some []
  quote : s.mode = .single ∨ s.mode = .double ∨ s.mode = .doubleEscape →
    .quote ∈ s.word.getD []
  comment : s.mode = .comment → s.word = none

theorem inv_init : Inv [] init where
  done := by simp [init]
  current := by simp [init, Leads]
  begun := by
    intro _ _ _ w hw
    obtain rfl : w = [] := by simpa [init, eq_comm] using hw
    exact Begun.nil
  word := by simp [init]
  quote := by simp [init]
  comment := by simp [init]

/-- The finished commands are where they were. -/
theorem Inv.stands (h : Inv p s) (c : Char) :
    (∀ command ∈ s.commands, ∀ w, Leads command w → Stands (p ++ [c]) w) ∧
      ∀ w, Leads s.command w → Stands (p ++ [c]) w :=
  ⟨fun command hmem w hw => (h.done command hmem w hw).snoc c,
    fun w hw => (h.current w hw).snoc c⟩

@[simp] theorem endRedirect_redirect (s : Lexer) : s.endRedirect.redirect = [] := by
  unfold endRedirect
  split_ifs with h
  · exact h
  · rfl

@[simp] theorem endRedirect_mode (s : Lexer) : s.endRedirect.mode = s.mode := by
  unfold endRedirect
  split_ifs <;> rfl

@[simp] theorem endWord_word (s : Lexer) (alone : Bool) : (s.endWord alone).word = none := by
  unfold endWord
  split
  · assumption
  · rfl

@[simp] theorem endWord_commands (s : Lexer) (alone : Bool) :
    (s.endWord alone).commands = s.commands := by
  unfold endWord
  split <;> rfl

@[simp] theorem endWord_mode (s : Lexer) (alone : Bool) : (s.endWord alone).mode = s.mode := by
  unfold endWord
  split <;> rfl

theorem Inv.endRedirect (h : Inv p s) : Inv p s.endRedirect := by
  unfold Lexer.endRedirect
  split_ifs with hr
  · exact h
  · refine ⟨h.done, ?_, ?_, h.word, h.quote, h.comment⟩
    · intro w hw
      rcases leads_append hw with hw | hw
      · exact h.current w hw
      · cases hw.2
    · intro hnil
      simp at hnil

/-- A finished word that leads its command stands where it begins it. -/
theorem Inv.leads_endWord (h : Inv p s) {alone : Bool}
    (halone : alone = true → isDelimiter c = true)
    (hbegun : s.command = [] → ∀ w, s.word = some (w.map .bare) → Begun p w) {w : List Char}
    (hw : Leads (s.endWord alone).command w) : Stands (p ++ [c]) w := by
  unfold endWord at hw
  split at hw
  · exact (h.stands c).2 w hw
  · next ws hws =>
    rcases leads_append hw with hw | hw
    · exact (h.stands c).2 w hw
    · obtain ⟨hnil, heq⟩ := hw
      injection heq with heq hone
      subst heq
      have hne : w ≠ [] := by
        rintro rfl
        exact h.word hws
      exact (hbegun hnil w hws).stands hne (halone hone)

theorem mem_endCommand {command : List Token} (h : command ∈ s.endCommand.commands) :
    command ∈ s.commands ∨ command = s.command := by
  unfold endCommand at h
  split_ifs at h
  · exact Or.inl h
  · rcases List.mem_append.1 h with h | h
    · exact Or.inl h
    · exact Or.inr (List.mem_singleton.1 h)

theorem endCommand_command (s : Lexer) : s.endCommand.command = [] := by
  unfold endCommand
  split_ifs with h
  · exact h
  · rfl

theorem endCommand_word (s : Lexer) : s.endCommand.word = s.word := by
  unfold endCommand
  split_ifs <;> rfl

theorem endCommand_mode (s : Lexer) : s.endCommand.mode = s.mode := by
  unfold endCommand
  split_ifs <;> rfl

/-- A control operator ends the word and the command. -/
theorem Inv.mem_control (h : Inv p s) (hc : isControl c = true)
    (hbegun : s.command = [] → ∀ w, s.word = some (w.map .bare) → Begun p w)
    {command : List Token} (hmem : command ∈ (s.endWord true).endCommand.commands) {w : List Char}
    (hw : Leads command w) : Stands (p ++ [c]) w := by
  rcases mem_endCommand hmem with hmem | rfl
  · rw [endWord_commands] at hmem
    exact (h.stands c).1 command hmem w hw
  · exact h.leads_endWord (fun _ => by simp [isDelimiter, hc]) hbegun hw

theorem readPlain_of_control (hc : isControl c = true) :
    s.readPlain c = (s.endWord true).endCommand := by
  have hblank : isBlank c = false := by
    simp only [isControl, Bool.or_eq_true, decide_eq_true_eq] at hc
    rcases hc with ((rfl | rfl) | rfl) | rfl <;> rfl
  simp [readPlain, hblank, hc]

/-- A new piece that is not a literal character ends the hope for a literal word. -/
theorem ne_map_bare_of_mem {ws : List Piece} {q : Piece} (hq : q ∈ ws) (hbare : ∀ c, q ≠ .bare c)
    (w : List Char) : ws ≠ w.map .bare := by
  rintro rfl
  obtain ⟨c, _, rfl⟩ := List.mem_map.1 hq
  exact hbare c rfl

/-- A step that ends neither a word nor a command. -/
theorem Inv.within (h : Inv p s) (c : Char) {t : Lexer} (hcommands : t.commands = s.commands)
    (hcommand : t.command = s.command)
    (hbegun : t.command = [] → t.redirect = [] → t.mode = .plain →
      ∀ w, t.word.getD [] = w.map .bare → Begun (p ++ [c]) w)
    (hword : t.word ≠ some [])
    (hquote : t.mode = .single ∨ t.mode = .double ∨ t.mode = .doubleEscape →
      .quote ∈ t.word.getD [])
    (hcomment : t.mode = .comment → t.word = none) : Inv (p ++ [c]) t where
  done := by
    rw [hcommands]
    exact (h.stands c).1
  current := by
    rw [hcommand]
    exact (h.stands c).2
  begun := hbegun
  word := hword
  quote := hquote
  comment := hcomment

theorem addPiece_word_ne (q : Piece) (s : Lexer) : (s.addPiece q).word ≠ some [] := by
  simp [addPiece]

/-- A step that adds to the word what is not a literal character. -/
theorem Inv.addOther (h : Inv p s) (c : Char) {q : Piece} (hq : ∀ c, q ≠ .bare c) {m : Mode}
    (hm : m = .single ∨ m = .double ∨ m = .doubleEscape → .quote ∈ s.word.getD [] ++ [q])
    (hm' : m ≠ .comment) : Inv (p ++ [c]) { s.addPiece q with mode := m } := by
  refine h.within c rfl rfl ?_ (addPiece_word_ne q s) hm (fun hcomment => absurd hcomment hm')
  intro _ _ _ w hw
  exact absurd hw (ne_map_bare_of_mem (List.mem_append_right _ (List.mem_singleton_self q)) hq w)

theorem Inv.readPlain (h : Inv p s) (hredirect : s.redirect = []) (hmode : s.mode = .plain)
    (c : Char) : Inv (p ++ [c]) (s.readPlain c) := by
  have hbegun : s.command = [] → ∀ w, s.word.getD [] = w.map .bare → Begun p w :=
    fun hnil => h.begun hnil hredirect hmode
  have hbegun' : s.command = [] → ∀ w, s.word = some (w.map .bare) → Begun p w := by
    intro hnil w hw
    exact hbegun hnil w (by rw [hw]; rfl)
  unfold Lexer.readPlain
  split_ifs with hblank hcontrol hangle hio hparen hhash hescape hsingle hdouble hexpand
  · -- a blank ends the word
    refine ⟨?_, ?_, ?_, by simp, by simp [hmode], by simp⟩
    · rw [endWord_commands]
      exact (h.stands c).1
    · intro w hw
      exact h.leads_endWord (fun _ => by simp [isDelimiter, hblank]) hbegun' hw
    · intro hnil _ _ w hw
      obtain rfl : w = [] := by simpa [eq_comm] using hw
      unfold endWord at hnil
      split at hnil
      · next hnone =>
        exact (hbegun hnil [] (by rw [hnone]; rfl)).blank hblank
      · simp at hnil
  · refine ⟨?_, ?_, ?_, ?_, ?_, ?_⟩
    · intro command hmem w hw
      exact h.mem_control hcontrol hbegun' hmem hw
    · intro w hw
      rw [endCommand_command] at hw
      cases hw
    · intro _ _ _ w hw
      obtain rfl : w = [] := by simpa [endCommand_word, eq_comm] using hw
      exact Begun.control p hcontrol
    · simp [endCommand_word]
    · simp [endCommand_mode, hmode]
    · simp [endCommand_word]
  · refine h.within c rfl rfl ?_ (by simp) (by simp [hmode]) (by simp)
    intro _ hr
    cases hr
  · -- the redirection that follows keeps the next word from leading
    refine ⟨?_, ?_, ?_, by simp, by simp [hmode], by simp⟩
    · simpa using (h.stands c).1
    · intro w hw
      exact h.leads_endWord (fun hfalse => by cases hfalse) hbegun' hw
    · intro _ hr
      cases hr
  · refine ⟨?_, ?_, ?_, by simp, by simp [hmode], by simp⟩
    · simpa using (h.stands c).1
    · intro w hw
      rcases leads_append hw with hw | hw
      · exact h.leads_endWord (fun hfalse => by cases hfalse) hbegun' hw
      · cases hw.2
    · intro hnil
      simp at hnil
  · exact h.within c rfl rfl (fun _ _ hm => by cases hm) h.word (by simp) (fun _ => hhash.2)
  · exact h.within c rfl rfl (fun _ _ hm => by cases hm) h.word (by simp) (fun hm => by cases hm)
  · exact h.addOther c (by simp) (by simp) (by simp)
  · exact h.addOther c (by simp) (by simp) (by simp)
  · exact h.addOther (m := s.mode) c (by simp) (by simp [hmode]) (by simp [hmode])
  · refine h.within c rfl rfl ?_ (addPiece_word_ne _ s) (by simp [addPiece, hmode])
      (by simp [addPiece, hmode])
    intro hnil _ _ w hw
    obtain ⟨v, u, rfl, hv, hu⟩ := List.map_eq_append_iff.1 hw.symm
    obtain ⟨d, rfl, hd⟩ := List.map_eq_singleton_iff.1 hu
    injection hd with hd
    subst hd
    refine (hbegun hnil v hv.symm).snoc ?_
    simp [isWordChar, isDelimiter, hblank, hcontrol, hescape, hsingle, hdouble]
    tauto

theorem Inv.step (h : Inv p s) (hc : c ≠ newline) : Inv (p ++ [c]) (s.step c) := by
  unfold Lexer.step
  split
  · next hmode =>
    split_ifs with hextend
    · refine h.within c rfl rfl ?_ h.word h.quote h.comment
      intro _ hr
      simp at hr
    · exact h.endRedirect.readPlain (endRedirect_redirect s) (by rw [endRedirect_mode, hmode]) c
  · rw [if_neg hc]
    exact h.addOther c (by simp) (by simp) (by simp)
  · next hmode =>
    have hquote := h.quote (Or.inl hmode)
    split_ifs
    · refine h.within c rfl rfl ?_ h.word (by simp) (by simp)
      intro _ _ _ w hw
      exact absurd hw (ne_map_bare_of_mem hquote (by simp) w)
    · exact h.addOther (m := s.mode) c (by simp) (fun _ => List.mem_append_left _ hquote)
        (by simp [hmode])
  · next hmode =>
    have hquote := h.quote (Or.inr (Or.inl hmode))
    split_ifs
    · refine h.within c rfl rfl ?_ h.word (by simp) (by simp)
      intro _ _ _ w hw
      exact absurd hw (ne_map_bare_of_mem hquote (by simp) w)
    · exact h.within c rfl rfl (fun _ _ hm => by cases hm) h.word (fun _ => hquote) (by simp)
    · exact h.addOther (m := s.mode) c (by simp) (fun _ => List.mem_append_left _ hquote)
        (by simp [hmode])
    · exact h.addOther (m := s.mode) c (by simp) (fun _ => List.mem_append_left _ hquote)
        (by simp [hmode])
  · next hmode =>
    have hquote := h.quote (Or.inr (Or.inr hmode))
    rw [if_neg hc]
    split_ifs
    · exact h.addOther c (by simp) (fun _ => List.mem_append_left _ hquote) (by simp)
    · refine h.within c rfl rfl (fun _ _ hm => by cases hm) (addPiece_word_ne _ _) ?_ (by simp)
      intro _
      simp [addPiece, hquote]
  · next hmode =>
    rw [if_neg hc]
    exact h.within c rfl rfl (fun _ _ hm => by rw [hmode] at hm; cases hm) h.word h.quote h.comment

theorem inv_foldl {t : List Char} (hp : Inv p s) (ht : newline ∉ t) :
    Inv (p ++ t) (t.foldl Lexer.step s) := by
  induction t generalizing p s with
  | nil => simpa using hp
  | cons c t ih =>
    rw [List.mem_cons, not_or] at ht
    obtain ⟨hc, ht⟩ := ht
    have := ih (hp.step (Ne.symm hc)) ht
    rwa [List.append_assoc, List.singleton_append] at this

/-- The end of the string ends the last word and the last command. -/
theorem Inv.finish (h : Inv p s) {commands : List (List Token)} (hfin : s.finish = some commands)
    {command : List Token} (hmem : command ∈ commands) {w : List Char} (hw : Leads command w) :
    Stands (p ++ [newline]) w := by
  have hc : isControl newline = true := rfl
  unfold Lexer.finish at hfin
  split at hfin
  · next hmode =>
    obtain rfl := Option.some.inj hfin
    rw [readPlain_of_control hc] at hmem
    refine h.endRedirect.mem_control hc ?_ hmem hw
    intro hnil v hv
    exact h.endRedirect.begun hnil (endRedirect_redirect s) (by rw [endRedirect_mode, hmode]) v
      (by rw [hv]; rfl)
  · next hmode =>
    obtain rfl := Option.some.inj hfin
    rw [readPlain_of_control hc] at hmem
    refine h.endRedirect.mem_control hc ?_ hmem hw
    intro _ v hv
    rw [h.endRedirect.comment (by rw [endRedirect_mode, hmode])] at hv
    cases hv
  · next hmode =>
    obtain rfl := Option.some.inj hfin
    rw [readPlain_of_control hc] at hmem
    have hadd : Inv p (s.addPiece (.quoted backslash)) := by
      refine ⟨h.done, h.current, ?_, addPiece_word_ne _ s, ?_, ?_⟩
      · intro _ _ hplain
        exact absurd (hmode.symm.trans hplain) (by simp)
      · simp [addPiece, hmode]
      · simp [addPiece, hmode]
    refine hadd.mem_control hc ?_ hmem hw
    intro _ v hv
    exact absurd (Option.some.inj hv)
      (ne_map_bare_of_mem (List.mem_append_right _ (List.mem_singleton_self _)) (by simp) v)
  all_goals cases hfin

end Lexer

/-- In a string without newlines, the first word of a command, when it is a literal that stands
alone, is found behind the beginning or a control operator, with nothing but blanks between them,
and a blank, a control operator or the end comes next. -/
theorem stands_of_mem_commandList {t : List Char} (ht : newline ∉ t) {commands : List (List Token)}
    (h : commandList t = some commands) {command : List Token} (hmem : command ∈ commands)
    {w : List Char} (hw : plainCommandWord? command = some w) : Stands (t ++ [newline]) w :=
  (Lexer.inv_foldl (p := []) Lexer.inv_init ht).finish h hmem (leads_of_plainCommandWord? hw)

end ShellLexer
