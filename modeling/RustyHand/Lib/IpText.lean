import Mathlib.Data.List.TakeWhile
import Mathlib.Data.Nat.Notation
import Mathlib.Tactic.IntervalCases

/-!
# IP addresses in texts

IPv4 addresses in dotted decimals, and IPv6 addresses in groups of hexadecimal digits, where `::`
stands for zeros and the last two groups may be an IPv4 address.

* `readV4`, `readV6`: an address in front of a text, and what follows it;
* `Only`: a reader that uses characters of some kind only;
* `parse`, `parse_chars`: a whole text, and its characters;
* `addressChars`: all of these characters.
-/

namespace IpText

/-- What stands in front of a text, and what follows it. -/
abbrev Reader (α : Type) : Type := List Char → Option (α × List Char)

/-- The value of a digit, if it is one of the radix. -/
def digit (radix : ℕ) (c : Char) : Option ℕ :=
  let value :=
    if '0' ≤ c ∧ c ≤ '9' then some (c.toNat - 48)
    else if 'a' ≤ c ∧ c ≤ 'f' then some (c.toNat - 87)
    else if 'A' ≤ c ∧ c ≤ 'F' then some (c.toNat - 55)
    else none
  value.filter (· < radix)

/-- The digits in front, as a number below a bound; there are no more than so many, and a zero in
front of others may not be allowed. -/
def readNumber (radix maxDigits bound : ℕ) (zeroPrefix : Bool) : Reader ℕ := fun cs =>
  let digits := cs.takeWhile fun c => (digit radix c).isSome
  let value := digits.foldl (fun n c => radix * n + (digit radix c).getD 0) 0
  if digits = [] ∨ maxDigits < digits.length then none
  else if zeroPrefix = false ∧ digits.head? = some '0' ∧ 1 < digits.length then none
  else if value < bound then some (value, cs.dropWhile fun c => (digit radix c).isSome)
  else none

/-- A reader behind a separator, unless it is the first. -/
def separated {α : Type} (first : Bool) (separator : Char) (reader : Reader α) : Reader α :=
  fun cs =>
    if first then reader cs
    else
      match cs with
      | c :: cs => if c = separator then reader cs else none
      | [] => none

/-- A decimal of an IPv4 address. -/
def readOctet (first : Bool) : Reader ℕ := separated first '.' (readNumber 10 3 256 false)

/-- An IPv4 address. -/
def readV4 : Reader (ℕ × ℕ × ℕ × ℕ) := fun cs => do
  let (a, cs) ← readOctet true cs
  let (b, cs) ← readOctet false cs
  let (c, cs) ← readOctet false cs
  let (d, cs) ← readOctet false cs
  some ((a, b, c, d), cs)

/-- Up to so many groups of an IPv6 address, and if the last two of them are an IPv4 address. -/
def readGroups (first : Bool) : ℕ → List Char → (List ℕ × Bool) × List Char
  | 0, cs => (([], false), cs)
  | n + 1, cs =>
    match if 0 < n then separated first ':' readV4 cs else none with
    | some ((a, b, c, d), rest) => (([256 * a + b, 256 * c + d], true), rest)
    | none =>
      match separated first ':' (readNumber 16 4 65536 true) cs with
      | some (group, rest) =>
        let r := readGroups false n rest
        ((group :: r.1.1, r.1.2), r.2)
      | none => (([], false), cs)

/-- An IPv6 address. -/
def readV6 : Reader (List ℕ) := fun cs =>
  let head := readGroups true 8 cs
  if head.1.1.length = 8 then some (head.1.1, head.2)
  else if head.1.2 then none
  else
    match head.2 with
    | ':' :: ':' :: rest =>
      let tail := readGroups true (8 - (head.1.1.length + 1)) rest
      let zeros := List.replicate (8 - tail.1.1.length - head.1.1.length) 0
      some (head.1.1 ++ zeros ++ tail.1.1, tail.2)
    | _ => none

/-- An address in a text, of one of two kinds. -/
def parse {α : Type} (v4 : ℕ × ℕ × ℕ × ℕ → α) (v6 : List ℕ → α) (cs : List Char) : Option α :=
  match readV4 cs with
  | some (address, rest) => if rest = [] then some (v4 address) else none
  | none =>
    match readV6 cs with
    | some (groups, rest) => if rest = [] then some (v6 groups) else none
    | none => none

/-! ### The characters of an address -/

/-- A character of an address. -/
def IsAddressChar (c : Char) : Prop := (digit 16 c).isSome ∨ c = '.' ∨ c = ':'

/-- The reader uses characters of addresses only. -/
def Only {α : Type} (reader : Reader α) : Prop :=
  ∀ cs x rest, reader cs = some (x, rest) →
    ∃ used, cs = used ++ rest ∧ ∀ c ∈ used, IsAddressChar c

theorem digit_sixteen {radix : ℕ} {c : Char} (hradix : radix ≤ 16) (h : (digit radix c).isSome) :
    (digit 16 c).isSome := by
  obtain ⟨n, hn⟩ := Option.isSome_iff_exists.1 h
  obtain ⟨hvalue, hlt⟩ := Option.filter_eq_some_iff.1 hn
  have hlt' : n < 16 := Nat.lt_of_lt_of_le (of_decide_eq_true hlt) hradix
  exact Option.isSome_iff_exists.2
    ⟨n, Option.filter_eq_some_iff.2 ⟨hvalue, decide_eq_true hlt'⟩⟩

theorem readNumber_only {radix : ℕ} (hradix : radix ≤ 16) (maxDigits bound : ℕ)
    (zeroPrefix : Bool) : Only (readNumber radix maxDigits bound zeroPrefix) := by
  intro cs x rest h
  unfold readNumber at h
  dsimp only at h
  split_ifs at h
  obtain ⟨-, rfl⟩ := Prod.mk.inj (Option.some.inj h)
  exact ⟨cs.takeWhile fun c => (digit radix c).isSome, List.takeWhile_append_dropWhile.symm,
    fun c hc => .inl (digit_sixteen hradix
      (List.mem_takeWhile_imp (p := fun c => (digit radix c).isSome) hc))⟩

theorem separated_only {α : Type} {reader : Reader α} (h : Only reader) (first : Bool)
    {separator : Char} (hseparator : separator = '.' ∨ separator = ':') :
    Only (separated first separator reader) := by
  intro cs x rest hread
  unfold separated at hread
  split_ifs at hread
  · exact h _ _ _ hread
  · cases cs with
    | nil => exact nomatch hread
    | cons c cs =>
      dsimp only at hread
      split_ifs at hread with hc
      obtain ⟨used, rfl, hused⟩ := h _ _ _ hread
      subst hc
      exact ⟨c :: used, rfl, List.forall_mem_cons.2 ⟨.inr hseparator, hused⟩⟩

theorem readOctet_only (first : Bool) : Only (readOctet first) :=
  separated_only (readNumber_only (by decide) 3 256 false) first (.inl rfl)

theorem readV4_only : Only readV4 := by
  intro cs x rest h
  simp only [readV4, Option.bind_eq_bind, Option.bind_eq_some_iff, Prod.exists] at h
  obtain ⟨a, cs1, h1, b, cs2, h2, c, cs3, h3, d, cs4, h4, h⟩ := h
  obtain ⟨-, rfl⟩ := Prod.mk.inj (Option.some.inj h)
  obtain ⟨used1, rfl, hused1⟩ := readOctet_only _ _ _ _ h1
  obtain ⟨used2, rfl, hused2⟩ := readOctet_only _ _ _ _ h2
  obtain ⟨used3, rfl, hused3⟩ := readOctet_only _ _ _ _ h3
  obtain ⟨used4, rfl, hused4⟩ := readOctet_only _ _ _ _ h4
  refine ⟨used1 ++ (used2 ++ (used3 ++ used4)), by simp only [List.append_assoc], ?_⟩
  simp only [List.forall_mem_append]
  exact ⟨hused1, hused2, hused3, hused4⟩

theorem readGroups_only (first : Bool) (n : ℕ) (cs : List Char) :
    ∃ used, cs = used ++ (readGroups first n cs).2 ∧ ∀ c ∈ used, IsAddressChar c := by
  induction n generalizing first cs with
  | zero => exact ⟨[], rfl, List.forall_mem_nil _⟩
  | succ n ih =>
    rw [readGroups]
    split
    · rename_i a b c d rest h
      split_ifs at h
      exact separated_only readV4_only first (.inr rfl) _ _ _ h
    · split
      · rename_i group rest h
        obtain ⟨used, rfl, hused⟩ :=
          separated_only (readNumber_only (Nat.le_refl 16) 4 65536 true) first (.inr rfl) _ _ _ h
        obtain ⟨used', hrest, hused'⟩ := ih false rest
        refine ⟨used ++ used', ?_, List.forall_mem_append.2 ⟨hused, hused'⟩⟩
        rw [List.append_assoc, ← hrest]
      · exact ⟨[], rfl, List.forall_mem_nil _⟩

theorem readV6_only : Only readV6 := by
  intro cs x rest h
  obtain ⟨used, hcs, hused⟩ := readGroups_only true 8 cs
  unfold readV6 at h
  dsimp only at h
  split_ifs at h with hfull hv4
  · obtain ⟨-, rfl⟩ := Prod.mk.inj (Option.some.inj h)
    exact ⟨used, hcs, hused⟩
  · split at h
    · rename_i rest' hcolons
      obtain ⟨-, rfl⟩ := Prod.mk.inj (Option.some.inj h)
      obtain ⟨used', hrest, hused'⟩ :=
        readGroups_only true (8 - ((readGroups true 8 cs).1.1.length + 1)) rest'
      refine ⟨used ++ (':' :: ':' :: used'), ?_, ?_⟩
      · rw [List.append_assoc, List.cons_append, List.cons_append, ← hrest, ← hcolons]
        exact hcs
      · refine List.forall_mem_append.2 ⟨hused, ?_⟩
        exact List.forall_mem_cons.2 ⟨.inr (.inr rfl),
          List.forall_mem_cons.2 ⟨.inr (.inr rfl), hused'⟩⟩
    · exact nomatch h

/-- The characters of an address. -/
theorem parse_chars {α : Type} {v4 : ℕ × ℕ × ℕ × ℕ → α} {v6 : List ℕ → α} {cs : List Char} {x : α}
    (h : parse v4 v6 cs = some x) : ∀ c ∈ cs, IsAddressChar c := by
  unfold parse at h
  split at h
  · rename_i address rest hread
    split_ifs at h with hrest
    obtain ⟨used, rfl, hused⟩ := readV4_only _ _ _ hread
    rwa [hrest, List.append_nil]
  · split at h
    · rename_i groups rest hread
      split_ifs at h with hrest
      obtain ⟨used, rfl, hused⟩ := readV6_only _ _ _ hread
      rwa [hrest, List.append_nil]
    · exact nomatch h

/-- No address is empty. -/
theorem parse_ne_nil {α : Type} {v4 : ℕ × ℕ × ℕ × ℕ → α} {v6 : List ℕ → α} {cs : List Char} {x : α}
    (h : parse v4 v6 cs = some x) : cs ≠ [] := by
  rintro rfl
  exact nomatch h

/-- All characters of addresses. -/
def addressChars : List Char := "0123456789abcdefABCDEF.:".toList

theorem IsAddressChar.mem {c : Char} (h : IsAddressChar c) : c ∈ addressChars := by
  rcases h with h | rfl | rfl
  · obtain ⟨n, hn⟩ := Option.isSome_iff_exists.1 h
    obtain ⟨hvalue, -⟩ := Option.filter_eq_some_iff.1 hn
    have hrange : (48 ≤ c.toNat ∧ c.toNat ≤ 57) ∨ (97 ≤ c.toNat ∧ c.toNat ≤ 102) ∨
        (65 ≤ c.toNat ∧ c.toNat ≤ 70) := by
      split_ifs at hvalue with h0 ha hA
      · exact .inl h0
      · exact .inr (.inl ha)
      · exact .inr (.inr hA)
    obtain ⟨m, hm⟩ : ∃ m, c.toNat = m := ⟨_, rfl⟩
    rw [← Char.ofNat_toNat c, hm]
    rw [hm] at hrange
    rcases hrange with ⟨hlow, hhigh⟩ | ⟨hlow, hhigh⟩ | ⟨hlow, hhigh⟩
    all_goals
      interval_cases m <;> decide
  · decide
  · decide

example : parse (fun a => [a.1, a.2.1, a.2.2.1, a.2.2.2]) id "2001:db8::10.0.0.1".toList =
    some [0x2001, 0xdb8, 0, 0, 0, 0, 0xa00, 1] := by decide

end IpText
