import Mathlib.Data.List.Basic
import Mathlib.Data.Nat.Notation
import Mathlib.Tactic.IntervalCases

/-!
# Strings and numbers in JSON

Strings, natural numbers and flat objects as JSON text, written compactly.

* `escape`: a character inside a string; quotes, backslashes and control characters are escaped;
* `quote`, `unquote`: a string, and how it is read back;
* `unquote_quote`: what is read is what was written, whatever follows;
* `object`, `readObject`: an object whose values are strings;
* `strings`: an array of strings;
* `decimal`, `readDecimal`: a natural number; `strip`: a text that is expected;
* `quote_append_inj`, `strings_append_inj`, `decimal_append_inj`: different things have different
  texts.
-/

namespace JsonText

/-- The number of a hexadecimal digit. -/
def hexValue (c : Char) : Option ℕ :=
  if '0' ≤ c ∧ c ≤ '9' then some (c.toNat - 48)
  else if 'a' ≤ c ∧ c ≤ 'f' then some (c.toNat - 87)
  else none

/-- A character inside a string. -/
def escape (c : Char) : List Char :=
  if c = '"' then ['\\', '"']
  else if c = '\\' then ['\\', '\\']
  else if c = '\x08' then ['\\', 'b']
  else if c = '\t' then ['\\', 't']
  else if c = '\n' then ['\\', 'n']
  else if c = '\x0c' then ['\\', 'f']
  else if c = '\r' then ['\\', 'r']
  else if c.toNat < 0x20 then
    ['\\', 'u', '0', '0', Nat.digitChar (c.toNat / 16), Nat.digitChar (c.toNat % 16)]
  else [c]

/-- A string in quotes. -/
def quote (s : String) : List Char := '"' :: (s.toList.flatMap escape ++ ['"'])

/-- What a backslash and a character stand for. -/
def unescape (c : Char) : Option Char :=
  if c = '"' ∨ c = '\\' ∨ c = '/' then some c
  else if c = 'b' then some '\x08'
  else if c = 't' then some '\t'
  else if c = 'n' then some '\n'
  else if c = 'f' then some '\x0c'
  else if c = 'r' then some '\r'
  else none

/-- The characters up to the quote at the end, and what follows it. -/
def unquoteBody : List Char → Option (List Char × List Char)
  | '"' :: rest => some ([], rest)
  | '\\' :: 'u' :: '0' :: '0' :: x :: y :: rest => do
    let x ← hexValue x
    let y ← hexValue y
    let (cs, rest) ← unquoteBody rest
    some (Char.ofNat (16 * x + y) :: cs, rest)
  | '\\' :: c :: rest => do
    let c ← unescape c
    let (cs, rest) ← unquoteBody rest
    some (c :: cs, rest)
  | c :: rest =>
    if c.toNat < 0x20 then none
    else do
      let (cs, rest) ← unquoteBody rest
      some (c :: cs, rest)
  | [] => none

/-- A string in quotes, read, and what follows it. -/
def unquote : List Char → Option (String × List Char)
  | '"' :: rest => (unquoteBody rest).map fun p => (String.ofList p.1, p.2)
  | _ => none

/-- The members of an object, and the brace at its end. -/
def members : List (String × String) → List Char
  | [] => ['}']
  | [p] => quote p.1 ++ ':' :: (quote p.2 ++ ['}'])
  | p :: q :: ps => quote p.1 ++ ':' :: (quote p.2 ++ ',' :: members (q :: ps))

/-- An object. -/
def object (ps : List (String × String)) : List Char := '{' :: members ps

/-- A member of an object, read, and what follows it. -/
def readMember (cs : List Char) : Option ((String × String) × List Char) := do
  let (name, rest) ← unquote cs
  match rest with
  | ':' :: rest => (unquote rest).map fun p => ((name, p.1), p.2)
  | _ => none

/-- So many members of an object, read, and what follows the brace. -/
def readMembers : ℕ → List Char → Option (List (String × String) × List Char)
  | 0, _ => none
  | n + 1, cs => do
    let (p, rest) ← readMember cs
    match rest with
    | '}' :: rest => some ([p], rest)
    | ',' :: rest => (readMembers n rest).map fun q => (p :: q.1, q.2)
    | _ => none

/-- An object, read, and what follows it. -/
def readObject : List Char → Option (List (String × String) × List Char)
  | '{' :: '}' :: rest => some ([], rest)
  | '{' :: rest => readMembers rest.length rest
  | _ => none

/-- The strings of an array, each after a comma, and the bracket at its end. -/
def moreStrings (ss : List String) : List Char := ss.flatMap (fun s => ',' :: quote s) ++ [']']

/-- An array of strings. -/
def strings : List String → List Char
  | [] => ['[', ']']
  | s :: ss => '[' :: (quote s ++ moreStrings ss)

/-- A natural number. -/
def decimal (n : ℕ) : List Char := Nat.toDigits 10 n

/-- A natural number, read, and what follows it. -/
def readDecimal (cs : List Char) : Option (ℕ × List Char) :=
  if cs.takeWhile Char.isDigit = [] then none
  else some (Nat.ofDigitChars 10 (cs.takeWhile Char.isDigit) 0, cs.dropWhile Char.isDigit)

/-- What follows an expected text. -/
def strip (expected cs : List Char) : Option (List Char) :=
  if expected <+: cs then some (cs.drop expected.length) else none

theorem hexValue_digitChar : ∀ n < 16, hexValue (Nat.digitChar n) = some n := by decide

theorem unquoteBody_escape (c : Char) (rest : List Char) :
    unquoteBody (escape c ++ rest) =
      (unquoteBody rest).map fun p => (c :: p.1, p.2) := by
  unfold escape
  split_ifs with hquote hslash hb ht hn hf hr hcontrol
  · subst hquote
    simp [unquoteBody, unescape, Option.map_eq_bind]
  · subst hslash
    simp [unquoteBody, unescape, Option.map_eq_bind]
  · subst hb
    simp [unquoteBody, unescape, Option.map_eq_bind]
  · subst ht
    simp [unquoteBody, unescape, Option.map_eq_bind]
  · subst hn
    simp [unquoteBody, unescape, Option.map_eq_bind]
  · subst hf
    simp [unquoteBody, unescape, Option.map_eq_bind]
  · subst hr
    simp [unquoteBody, unescape, Option.map_eq_bind]
  · have hhigh := hexValue_digitChar (c.toNat / 16) (by omega)
    have hlow := hexValue_digitChar (c.toNat % 16) (by omega)
    have hc : 16 * (c.toNat / 16) + c.toNat % 16 = c.toNat := Nat.div_add_mod _ _
    simp [unquoteBody, hhigh, hlow, hc, Option.map_eq_bind]
  · rw [List.singleton_append, unquoteBody.eq_def]
    split <;> simp_all [Option.map_eq_bind]

theorem unquote_quote (s : String) (rest : List Char) :
    unquote (quote s ++ rest) = some (s, rest) := by
  have hbody : ∀ cs : List Char,
      unquoteBody (cs.flatMap escape ++ '"' :: rest) = some (cs, rest) := by
    intro cs
    induction cs with
    | nil => simp [unquoteBody]
    | cons c cs ih =>
      rw [List.flatMap_cons, List.append_assoc, unquoteBody_escape, ih]
      rfl
  simp [quote, unquote, hbody]

theorem readMember_append (p : String × String) (rest : List Char) :
    readMember (quote p.1 ++ ':' :: (quote p.2 ++ rest)) = some (p, rest) := by
  simp [readMember, unquote_quote]

theorem readMembers_members {p : String × String} {ps : List (String × String)} {n : ℕ}
    (hn : ps.length < n) (rest : List Char) :
    readMembers n (members (p :: ps) ++ rest) = some (p :: ps, rest) := by
  induction ps generalizing p n with
  | nil =>
    obtain ⟨n, rfl⟩ := Nat.exists_eq_add_of_lt hn
    simp [readMembers, members, readMember_append]
  | cons q ps ih =>
    obtain ⟨n, rfl⟩ : ∃ m, n = m + 1 := ⟨n - 1, by omega⟩
    simp only [List.length_cons] at hn
    simp [readMembers, members, readMember_append, ih (show ps.length < n by omega)]

theorem length_members (ps : List (String × String)) : ps.length < (members ps).length := by
  induction ps using members.induct with
  | case1 => simp [members]
  | case2 p =>
    simp only [members, List.length_append, List.length_cons, List.length_nil]
    omega
  | case3 p q ps ih =>
    simp only [members, List.length_append, List.length_cons] at ih ⊢
    omega

theorem readObject_object (ps : List (String × String)) (rest : List Char) :
    readObject (object ps ++ rest) = some (ps, rest) := by
  cases ps with
  | nil => rfl
  | cons p ps =>
    have hlen := length_members (p :: ps)
    have hhead : ∃ cs, members (p :: ps) = '"' :: cs := by
      cases ps <;> exact ⟨_, rfl⟩
    obtain ⟨cs, hcs⟩ := hhead
    have hread : readObject (object (p :: ps) ++ rest) =
        readMembers (members (p :: ps) ++ rest).length (members (p :: ps) ++ rest) := by
      simp [object, hcs, readObject]
    rw [hread, readMembers_members]
    simp only [List.length_append, List.length_cons] at hlen ⊢
    omega

@[simp] theorem strip_append (expected rest : List Char) :
    strip expected (expected ++ rest) = some rest := by
  rw [strip, if_pos (List.prefix_append _ _), List.drop_left]

theorem readDecimal_decimal (n : ℕ) {c : Char} (hc : c.isDigit = false) (rest : List Char) :
    readDecimal (decimal n ++ c :: rest) = some (n, c :: rest) := by
  have hdigits : ∀ d ∈ decimal n, d.isDigit = true := fun d hd =>
    Nat.isDigit_of_mem_toDigits (by decide) (by decide) hd
  have htake : (decimal n ++ c :: rest).takeWhile Char.isDigit = decimal n := by
    rw [List.takeWhile_append_of_pos hdigits, List.takeWhile_cons_of_neg (by simp [hc]),
      List.append_nil]
  have hdrop : (decimal n ++ c :: rest).dropWhile Char.isDigit = c :: rest := by
    rw [List.dropWhile_append_of_pos hdigits, List.dropWhile_cons_of_neg (by simp [hc])]
  rw [readDecimal, htake, hdrop, decimal, if_neg Nat.toDigits_ne_nil, Nat.ofDigitChars_ten_toDigits]

/-! ### Texts that determine what was written -/

theorem quote_append_inj {s t : String} {rest rest' : List Char}
    (h : quote s ++ rest = quote t ++ rest') : s = t ∧ rest = rest' := by
  have hread := congrArg unquote h
  rw [unquote_quote, unquote_quote] at hread
  simpa using hread

theorem moreStrings_append_inj {ss ts : List String} {rest rest' : List Char}
    (h : moreStrings ss ++ rest = moreStrings ts ++ rest') : ss = ts ∧ rest = rest' := by
  unfold moreStrings at h
  induction ss generalizing ts with
  | nil =>
    cases ts with
    | nil => simpa using h
    | cons t ts => simp at h
  | cons s ss ih =>
    cases ts with
    | nil => simp at h
    | cons t ts =>
      simp only [List.flatMap_cons, List.append_assoc, List.cons_append, List.cons.injEq,
        true_and] at h
      obtain ⟨rfl, hmore⟩ := quote_append_inj h
      obtain ⟨rfl, hrest⟩ := ih (by rwa [List.append_assoc, List.append_assoc])
      exact ⟨rfl, hrest⟩

theorem strings_append_inj {ss ts : List String} {rest rest' : List Char}
    (h : strings ss ++ rest = strings ts ++ rest') : ss = ts ∧ rest = rest' := by
  cases ss with
  | nil =>
    cases ts with
    | nil => simpa [strings] using h
    | cons t ts => simp [strings, quote] at h
  | cons s ss =>
    cases ts with
    | nil => simp [strings, quote] at h
    | cons t ts =>
      simp only [strings, List.cons_append, List.append_assoc, List.cons.injEq, true_and] at h
      obtain ⟨rfl, hmore⟩ := quote_append_inj h
      obtain ⟨rfl, hrest⟩ := moreStrings_append_inj hmore
      exact ⟨rfl, hrest⟩

theorem decimal_append_inj {m n : ℕ} {c : Char} (hc : c.isDigit = false) {rest rest' : List Char}
    (h : decimal m ++ c :: rest = decimal n ++ c :: rest') : m = n ∧ rest = rest' := by
  have hread := congrArg readDecimal h
  rw [readDecimal_decimal m hc, readDecimal_decimal n hc] at hread
  simpa using hread

/-- What is written inside a string is on one line. -/
theorem newline_not_mem_quote (s : String) : '\n' ∉ quote s := by
  have hdigit : ∀ n < 16, Nat.digitChar n ≠ '\n' := by decide
  have hescape : ∀ c, '\n' ∉ escape c := by
    intro c
    unfold escape
    split_ifs with hquote hslash hb ht hn hf hr hcontrol
    all_goals first | decide | skip
    · have hhigh := hdigit (c.toNat / 16) (by omega)
      have hlow := hdigit (c.toNat % 16) (by omega)
      simp [hhigh.symm, hlow.symm]
    · simp [Ne.symm hn]
  simp [quote, hescape]

/-- The members of an object are on one line. -/
theorem newline_not_mem_members (ps : List (String × String)) : '\n' ∉ members ps := by
  induction ps using members.induct with
  | case1 => decide
  | case2 p => simp [members, newline_not_mem_quote]
  | case3 p q ps ih => simp [members, newline_not_mem_quote, ih]

/-- An object ends with a brace. -/
theorem members_eq_concat (ps : List (String × String)) : ∃ cs, members ps = cs ++ ['}'] := by
  induction ps using members.induct with
  | case1 => exact ⟨[], rfl⟩
  | case2 p => exact ⟨quote p.1 ++ ':' :: quote p.2, by simp [members]⟩
  | case3 p q ps ih =>
    obtain ⟨cs, hcs⟩ := ih
    exact ⟨quote p.1 ++ ':' :: (quote p.2 ++ ',' :: cs), by simp [members, hcs]⟩

theorem newline_not_mem_decimal (n : ℕ) : '\n' ∉ decimal n := fun h =>
  absurd (Nat.isDigit_of_mem_toDigits (by decide) (by decide) h) (by decide)

end JsonText

/-!
## Places in a JSON text

A character of a JSON text stands inside a string or outside; outside there are brackets, colons,
commas, numbers, the three words and blanks only.

* `Place`, `read`, `readAll`: the place behind some characters;
* `readAll_opposite`: two readings that start in different places end in different places.
-/

namespace JsonPlaces

inductive Place
  | outside
  | inside
  /-- Inside a string, behind a backslash. -/
  | escaped
  deriving DecidableEq

/-- What may stand outside a string, but for quotes. -/
def isStructural (c : Char) : Bool :=
  "\x7b\x7d[]:,+-.0123456789eEtrufalsn \t\n\r".toList.contains c

/-- The place behind a character. -/
def read : Place → Char → Option Place
  | .outside, c =>
    if c = '"' then some .inside else if isStructural c then some .outside else none
  | .inside, c =>
    if c = '"' then some .outside else if c = '\\' then some .escaped else some .inside
  | .escaped, _ => some .inside

/-- The place behind some characters. -/
def readAll : Place → List Char → Option Place
  | p, [] => some p
  | p, c :: cs => (read p c).bind fun q => readAll q cs

@[simp] theorem readAll_cons (p : Place) (c : Char) (cs : List Char) :
    readAll p (c :: cs) = (read p c).bind fun q => readAll q cs := rfl

theorem readAll_append (p : Place) (a b : List Char) :
    readAll p (a ++ b) = (readAll p a).bind fun q => readAll q b := by
  induction a generalizing p with
  | nil => rfl
  | cons c a ih =>
    rw [List.cons_append, readAll_cons, readAll_cons, Option.bind_assoc]
    exact congrArg _ (funext fun q => ih q)

/-- What is neither a quote nor a backslash does not end a string. -/
theorem readAll_inside {cs : List Char} (h : ∀ c ∈ cs, c ≠ '"' ∧ c ≠ '\\') :
    readAll .inside cs = some .inside := by
  induction cs with
  | nil => rfl
  | cons c cs ih =>
    obtain ⟨hquote, hslash⟩ := h c List.mem_cons_self
    rw [readAll_cons, read, if_neg hquote, if_neg hslash]
    exact ih fun d hd => h d (List.mem_cons_of_mem c hd)

/-- What may not stand outside a string stands in one. -/
theorem read_eq_inside {p q : Place} {c : Char} (h : read p c = some q) (hquote : c ≠ '"')
    (hslash : c ≠ '\\') (hstructural : isStructural c = false) : q = .inside := by
  cases p with
  | outside => simp [read, hquote, hstructural] at h
  | inside =>
    rw [read, if_neg hquote, if_neg hslash] at h
    exact (Option.some.inj h).symm
  | escaped => exact (Option.some.inj h).symm

/-- A string that is not closed goes on. -/
theorem readAll_not_outside {p q : Place} {cs : List Char} (h : readAll p cs = some q)
    (hp : p ≠ .outside) (hquote : '"' ∉ cs) : q ≠ .outside := by
  induction cs generalizing p with
  | nil => exact Option.some.inj h ▸ hp
  | cons c cs ih =>
    rw [List.mem_cons, not_or] at hquote
    obtain ⟨r, hr, h⟩ := Option.bind_eq_some_iff.1 h
    refine ih h ?_ hquote.2
    cases p with
    | outside => exact absurd rfl hp
    | inside =>
      rw [read, if_neg (Ne.symm hquote.1)] at hr
      split_ifs at hr <;> exact Option.some.inj hr ▸ (by decide)
    | escaped => exact Option.some.inj hr ▸ (by decide)

/-- **Two readings of one text**, one from inside a string and one from outside, end in different
places: outside there is no backslash, so every quote counts in both. -/
theorem readAll_opposite {cs : List Char} {p q : Place} (hin : readAll .inside cs = some p)
    (hout : readAll .outside cs = some q) :
    p = .inside ∧ q = .outside ∨ p = .outside ∧ q = .inside := by
  suffices h : ∀ a b, (a = .inside ∧ b = .outside ∨ a = .outside ∧ b = .inside) →
      readAll a cs = some p → readAll b cs = some q →
      p = .inside ∧ q = .outside ∨ p = .outside ∧ q = .inside from
    h .inside .outside (.inl ⟨rfl, rfl⟩) hin hout
  clear hin hout
  induction cs with
  | nil =>
    rintro a b h ha hb
    rwa [← Option.some.inj ha, ← Option.some.inj hb]
  | cons c cs ih =>
    rintro a b h ha hb
    obtain ⟨a', ha', ha⟩ := Option.bind_eq_some_iff.1 ha
    obtain ⟨b', hb', hb⟩ := Option.bind_eq_some_iff.1 hb
    refine ih a' b' ?_ ha hb
    have hslash : isStructural '\\' = false := by decide
    rcases h with ⟨rfl, rfl⟩ | ⟨rfl, rfl⟩ <;> simp only [read] at ha' hb' <;>
      split_ifs at ha' hb' <;> simp_all

end JsonPlaces
