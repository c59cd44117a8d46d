import Mathlib.Algebra.Ring.Nat
import Mathlib.Data.List.Basic
import Mathlib.Data.Nat.Notation

/-!
# Framed bytes

Texts and numbers as bytes, such that what follows one another can be told apart.

* `utf8`, `fromUtf8`: the bytes of a text, and back;
* `littleEndian`, `bigEndian`: a number in so many bytes;
* `framed`: bytes behind their length, with any code for lengths;
* `framed_append_inj`: a frame and what follows it are determined by the bytes.
-/

namespace Framing

/-- The bytes of a text, in UTF-8. -/
def utf8 (s : String) : List UInt8 := s.toList.flatMap String.utf8EncodeChar

theorem utf8_ofList (l : List Char) : utf8 (String.ofList l) = l.flatMap String.utf8EncodeChar := by
  rw [utf8, String.toList_ofList]

theorem toList_toByteArray (s : String) : utf8 s = s.toByteArray.data.toList := by
  rw [← String.utf8Encode_toList, List.utf8Encode]
  simp [utf8]

theorem utf8_injective : Function.Injective utf8 := by
  intro s t h
  rw [toList_toByteArray, toList_toByteArray] at h
  rw [← String.toByteArray_inj]
  exact ByteArray.ext (Array.toList_inj.1 h)

@[simp] theorem utf8_append (s t : String) : utf8 (s ++ t) = utf8 s ++ utf8 t := by
  rw [utf8, String.toList_append, List.flatMap_append]
  rfl

theorem length_utf8 (s : String) : (utf8 s).length = s.utf8ByteSize := by
  rw [toList_toByteArray]
  rfl

/-- The text of some bytes, if they are one. -/
def fromUtf8 (bytes : List UInt8) : Option String := String.fromUTF8? bytes.toByteArray

@[simp] theorem fromUtf8_utf8 (s : String) : fromUtf8 (utf8 s) = some s := by
  have hbytes : (utf8 s).toByteArray = s.toByteArray := by
    rw [toList_toByteArray]
    exact ByteArray.ext (by simp)
  rw [fromUtf8, hbytes, String.fromUTF8?]
  exact dif_pos s.isValidUTF8

/-- The byte 10 is only in the line feed. -/
theorem eq_newline_of_mem {c : Char} (h : (10 : UInt8) ∈ String.utf8EncodeChar c) : c = '\n' := by
  have hbyte : ∀ n : ℕ, (10 : UInt8) = UInt8.ofNat n → n % 256 = 10 := fun n hn => by
    simpa using (congrArg UInt8.toNat hn).symm
  unfold String.utf8EncodeChar at h
  dsimp only at h
  split_ifs at h with hone htwo hthree
  · have hval := hbyte _ (List.mem_singleton.1 h)
    have hc : c.toNat = 10 := by
      change c.val.toNat = 10
      omega
    rw [← Char.ofNat_toNat c, hc]
  -- the bytes of other characters are 128 or more
  · simp only [List.mem_cons, List.not_mem_nil, or_false] at h
    rcases h with h | h <;> have hval := hbyte _ h <;> omega
  · simp only [List.mem_cons, List.not_mem_nil, or_false] at h
    rcases h with h | h | h <;> have hval := hbyte _ h <;> omega
  · simp only [List.mem_cons, List.not_mem_nil, or_false] at h
    rcases h with h | h | h | h <;> have hval := hbyte _ h <;> omega

theorem newline_not_mem_utf8 {s : String} (h : '\n' ∉ s.toList) : (10 : UInt8) ∉ utf8 s := by
  intro hmem
  obtain ⟨c, hc, hbyte⟩ := List.mem_flatMap.1 hmem
  exact h (eq_newline_of_mem hbyte ▸ hc)

/-- A number in `w` bytes, the lowest first. -/
def littleEndian : ℕ → ℕ → List UInt8
  | 0, _ => []
  | w + 1, n => UInt8.ofNat n :: littleEndian w (n / 256)

/-- A number in `w` bytes, the highest first. -/
def bigEndian (w n : ℕ) : List UInt8 := (littleEndian w n).reverse

@[simp] theorem length_littleEndian (w n : ℕ) : (littleEndian w n).length = w := by
  induction w generalizing n with
  | zero => rfl
  | succ w ih => simp [littleEndian, ih]

@[simp] theorem length_bigEndian (w n : ℕ) : (bigEndian w n).length = w := by
  simp [bigEndian]

theorem littleEndian_inj {w n m : ℕ} (hn : n < 256 ^ w) (hm : m < 256 ^ w)
    (h : littleEndian w n = littleEndian w m) : n = m := by
  induction w generalizing n m with
  | zero => omega
  | succ w ih =>
    rw [littleEndian, littleEndian, List.cons.injEq] at h
    have hlow : n % 256 = m % 256 := by simpa using congrArg UInt8.toNat h.1
    have hhigh : n / 256 = m / 256 := by
      refine ih ?_ ?_ h.2
      · rw [pow_succ] at hn
        omega
      · rw [pow_succ] at hm
        omega
    omega

theorem bigEndian_inj {w n m : ℕ} (hn : n < 256 ^ w) (hm : m < 256 ^ w)
    (h : bigEndian w n = bigEndian w m) : n = m :=
  littleEndian_inj hn hm (List.reverse_injective h)

/-- Bytes behind their length, in the code `code`. -/
def framed (code : ℕ → List UInt8) (bytes : List UInt8) : List UInt8 := code bytes.length ++ bytes

/-- A frame and what follows it, if lengths are coded in so many bytes and told apart. -/
theorem framed_append_inj {code : ℕ → List UInt8} {w bound : ℕ} (hw : ∀ n, (code n).length = w)
    (hcode : ∀ n m, n < bound → m < bound → code n = code m → n = m) {a b r r' : List UInt8}
    (ha : a.length < bound) (hb : b.length < bound)
    (h : framed code a ++ r = framed code b ++ r') : a = b ∧ r = r' := by
  unfold framed at h
  rw [List.append_assoc, List.append_assoc] at h
  obtain ⟨hlen, hrest⟩ := List.append_inj h (by rw [hw, hw])
  exact List.append_inj hrest (hcode _ _ ha hb hlen)

end Framing
