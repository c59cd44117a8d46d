import Mathlib.Data.List.Nodup
import Mathlib.Data.Nat.Notation

/-!
# Base64

Bytes in the standard alphabet, with padding.

* `encode`, `decode`: three bytes in four digits; what is left at the end is padded, and unused bits
  are zero;
* `decode_encode`: what is decoded is what was encoded.
-/

namespace Base64

/-- The 64 digits. -/
def digits : List Char := "ABCDEFGHIJKLMNOPQRSTUVWXYZabcdefghijklmnopqrstuvwxyz0123456789+/".toList

/-- The digit of a number below 64. -/
def digit (n : ℕ) : Char := digits.getD n '='

/-- The number of a digit. -/
def value (c : Char) : Option ℕ := if c ∈ digits then some (digits.idxOf c) else none

/-- The digits of some bytes. -/
def encodeChars : List UInt8 → List Char
  | [] => []
  | [a] => [digit (a.toNat / 4), digit (a.toNat % 4 * 16), '=', '=']
  | [a, b] =>
    [digit (a.toNat / 4), digit (a.toNat % 4 * 16 + b.toNat / 16), digit (b.toNat % 16 * 4), '=']
  | a :: b :: c :: bytes =>
    digit (a.toNat / 4) :: digit (a.toNat % 4 * 16 + b.toNat / 16) ::
      digit (b.toNat % 16 * 4 + c.toNat / 64) :: digit (c.toNat % 64) :: encodeChars bytes

/-- The first byte of four digits. -/
def first (w x : ℕ) : UInt8 := UInt8.ofNat (w * 4 + x / 16)

/-- The second byte of four digits. -/
def second (x y : ℕ) : UInt8 := UInt8.ofNat (x % 16 * 16 + y / 4)

/-- The third byte of four digits. -/
def third (y z : ℕ) : UInt8 := UInt8.ofNat (y % 4 * 64 + z)

/-- The bytes of some digits. -/
def decodeChars : List Char → Option (List UInt8)
  | [] => some []
  | w :: x :: y :: z :: chars =>
    if chars = [] ∧ y = '=' ∧ z = '=' then do
      let w ← value w
      let x ← value x
      if x % 16 = 0 then some [first w x] else none
    else if chars = [] ∧ z = '=' then do
      let w ← value w
      let x ← value x
      let y ← value y
      if y % 4 = 0 then some [first w x, second x y] else none
    else do
      let w ← value w
      let x ← value x
      let y ← value y
      let z ← value z
      let bytes ← decodeChars chars
      some (first w x :: second x y :: third y z :: bytes)
  | _ => none

/-- The text of some bytes. -/
def encode (bytes : List UInt8) : String := String.ofList (encodeChars bytes)

/-- The bytes of a text. -/
def decode (s : String) : Option (List UInt8) := decodeChars s.toList

theorem digits_eq : digits =
    ['A', 'B', 'C', 'D', 'E', 'F', 'G', 'H', 'I', 'J', 'K', 'L', 'M', 'N', 'O', 'P', 'Q', 'R',
      'S', 'T', 'U', 'V', 'W', 'X', 'Y', 'Z', 'a', 'b', 'c', 'd', 'e', 'f', 'g', 'h', 'i', 'j',
      'k', 'l', 'm', 'n', 'o', 'p', 'q', 'r', 's', 't', 'u', 'v', 'w', 'x', 'y', 'z', '0', '1',
      '2', '3', '4', '5', '6', '7', '8', '9', '+', '/'] :=
  String.toList_ofList

theorem length_digits : digits.length = 64 := by
  rw [digits_eq]
  rfl

theorem nodup_digits : digits.Nodup := by
  -- by ranges of codes, not digit by digit
  have hcodes : digits.map Char.toNat =
      List.range' 65 26 ++ (List.range' 97 26 ++ (List.range' 48 10 ++ [43, 47])) := by
    rw [digits_eq]
    rfl
  refine List.Nodup.of_map Char.toNat ?_
  rw [hcodes]
  simp only [List.nodup_append, List.mem_append, List.mem_range'_1, List.mem_cons,
    List.not_mem_nil, or_false]
  refine ⟨List.nodup_range', ⟨List.nodup_range', ⟨List.nodup_range', by decide, ?_⟩, ?_⟩, ?_⟩
  all_goals omega

theorem pad_not_mem_digits : '=' ∉ digits := by
  rw [digits_eq]
  decide

theorem digit_eq_getElem {n : ℕ} (h : n < digits.length) : digit n = digits[n] := by
  rw [digit, List.getD_eq_getElem?_getD, List.getElem?_eq_getElem h, Option.getD_some]

theorem value_digit {n : ℕ} (h : n < 64) : value (digit n) = some n := by
  rw [← length_digits] at h
  rw [digit_eq_getElem h, value, if_pos (List.getElem_mem h), nodup_digits.idxOf_getElem]

theorem digit_ne_pad {n : ℕ} (h : n < 64) : digit n ≠ '=' := by
  rw [← length_digits] at h
  rw [digit_eq_getElem h]
  exact fun heq => pad_not_mem_digits (heq ▸ List.getElem_mem h)

theorem digit_mem (n : ℕ) : digit n ∈ digits ∨ digit n = '=' := by
  by_cases h : n < digits.length
  · rw [digit_eq_getElem h]
    exact .inl (List.getElem_mem h)
  · right
    rw [digit, List.getD_eq_getElem?_getD, List.getElem?_eq_none (Nat.le_of_not_lt h),
      Option.getD_none]

/-- What is written are digits and padding. -/
theorem mem_encodeChars {bytes : List UInt8} {c : Char} (h : c ∈ encodeChars bytes) :
    c ∈ digits ∨ c = '=' := by
  induction bytes using encodeChars.induct with
  | case1 => simp [encodeChars] at h
  | case2 a =>
    simp only [encodeChars, List.mem_cons, List.not_mem_nil, or_false] at h
    rcases h with rfl | rfl | rfl | rfl
    · exact digit_mem _
    · exact digit_mem _
    · exact .inr rfl
    · exact .inr rfl
  | case3 a b =>
    simp only [encodeChars, List.mem_cons, List.not_mem_nil, or_false] at h
    rcases h with rfl | rfl | rfl | rfl
    · exact digit_mem _
    · exact digit_mem _
    · exact digit_mem _
    · exact .inr rfl
  | case4 a b d bytes ih =>
    simp only [encodeChars, List.mem_cons] at h
    rcases h with rfl | rfl | rfl | rfl | h
    · exact digit_mem _
    · exact digit_mem _
    · exact digit_mem _
    · exact digit_mem _
    · exact ih h

theorem first_eq (a : UInt8) {r : ℕ} (h : r < 16) :
    first (a.toNat / 4) (a.toNat % 4 * 16 + r) = a := by
  have hbyte : a.toNat / 4 * 4 + (a.toNat % 4 * 16 + r) / 16 = a.toNat := by omega
  rw [first, hbyte, UInt8.ofNat_toNat]

theorem second_eq (q : ℕ) (b : UInt8) {r : ℕ} (h : r < 4) :
    second (q * 16 + b.toNat / 16) (b.toNat % 16 * 4 + r) = b := by
  have hb := b.toNat_lt
  have hbyte : (q * 16 + b.toNat / 16) % 16 * 16 + (b.toNat % 16 * 4 + r) / 4 = b.toNat := by omega
  rw [second, hbyte, UInt8.ofNat_toNat]

theorem third_eq (q : ℕ) (c : UInt8) : third (q * 4 + c.toNat / 64) (c.toNat % 64) = c := by
  have hc := c.toNat_lt
  have hbyte : (q * 4 + c.toNat / 64) % 4 * 64 + c.toNat % 64 = c.toNat := by omega
  rw [third, hbyte, UInt8.ofNat_toNat]

theorem decodeChars_encodeChars (bytes : List UInt8) :
    decodeChars (encodeChars bytes) = some bytes := by
  induction bytes using encodeChars.induct with
  | case1 => rfl
  | case2 a =>
    have ha := a.toNat_lt
    have hw : a.toNat / 4 < 64 := by omega
    have hx : a.toNat % 4 * 16 < 64 := by omega
    have hfirst := first_eq a (r := 0) (by omega)
    simpa [encodeChars, decodeChars, value_digit hw, value_digit hx] using hfirst
  | case3 a b =>
    have ha := a.toNat_lt
    have hb := b.toNat_lt
    have hw : a.toNat / 4 < 64 := by omega
    have hx : a.toNat % 4 * 16 + b.toNat / 16 < 64 := by omega
    have hy : b.toNat % 16 * 4 < 64 := by omega
    have hfirst := first_eq a (r := b.toNat / 16) (by omega)
    have hsecond := second_eq (a.toNat % 4) b (r := 0) (by omega)
    rw [Nat.add_zero] at hsecond
    simp [encodeChars, decodeChars, value_digit hw, value_digit hx, value_digit hy, digit_ne_pad hy,
      hfirst, hsecond]
  | case4 a b c bytes ih =>
    have ha := a.toNat_lt
    have hb := b.toNat_lt
    have hc := c.toNat_lt
    have hw : a.toNat / 4 < 64 := by omega
    have hx : a.toNat % 4 * 16 + b.toNat / 16 < 64 := by omega
    have hy : b.toNat % 16 * 4 + c.toNat / 64 < 64 := by omega
    have hz : c.toNat % 64 < 64 := by omega
    have hfirst := first_eq a (r := b.toNat / 16) (by omega)
    have hsecond := second_eq (a.toNat % 4) b (r := c.toNat / 64) (by omega)
    have hthird := third_eq (b.toNat % 16) c
    simp [encodeChars, decodeChars, value_digit hw, value_digit hx, value_digit hy, value_digit hz,
      digit_ne_pad hz, ih, hfirst, hsecond, hthird]

@[simp] theorem decode_encode (bytes : List UInt8) : decode (encode bytes) = some bytes := by
  rw [decode, encode, String.toList_ofList, decodeChars_encodeChars]

end Base64
