import Mathlib.Algebra.Ring.Nat
import Mathlib.Data.Nat.Log
import Mathlib.Data.Int.Order.Basic

/-!
# Some of IEEE 754 binary64

The part that `(n as f64 * c) as usize` uses: the conversion of a natural number and one product,
each rounded to 53 significant bits with ties to even, and the truncation towards zero.  The
constant is given as the fraction `c / 2 ^ k` it stands for.  Rounding keeps the order
(`roundBits_mono`), and in a small range the product is right (`mulTrunc_bounds`).

And the order of two numbers given by their bits: sign and magnitude, with NaN not comparable and
the two zeros equal.
-/

namespace Float64

/-- `n` rounded to `p` significant bits, ties to even. -/
def roundBits (p n : ℕ) : ℕ :=
  let k := n.log2 + 1 - p
  let q := n / 2 ^ k
  let r := 2 * (n % 2 ^ k)
  (if 2 ^ k < r ∨ (2 ^ k = r ∧ q % 2 = 1) then q + 1 else q) * 2 ^ k

/-- `(n as f64 * (c / 2 ^ k)) as usize`. -/
def mulTrunc (n c k : ℕ) : ℕ := roundBits 53 (roundBits 53 n * c) / 2 ^ k

example : mulTrunc 10 6305039478318694 53 = 7 := by decide
example : mulTrunc (2 ^ 53 + 1) 1 0 = 2 ^ 53 := by decide

/-- The last place of `n`, in `p` bits. -/
def ulp (p n : ℕ) : ℕ := 2 ^ (n.log2 + 1 - p)

theorem roundBits_eq (p n : ℕ) :
    roundBits p n = n / ulp p n * ulp p n ∨
      roundBits p n = (n / ulp p n + 1) * ulp p n ∧ ulp p n ≤ 2 * (n % ulp p n) := by
  unfold roundBits ulp
  dsimp only
  split_ifs with h
  · exact .inr ⟨rfl, by omega⟩
  · exact .inl rfl

/-- A multiple of the last place that is not above `n` is not above its rounding. -/
theorem le_roundBits {p n m : ℕ} (hdvd : ulp p n ∣ m) (hle : m ≤ n) : m ≤ roundBits p n := by
  obtain ⟨a, rfl⟩ := hdvd
  have hpos : 0 < ulp p n := Nat.two_pow_pos _
  have hquot : a ≤ n / ulp p n := by
    rw [Nat.le_div_iff_mul_le hpos, Nat.mul_comm]
    exact hle
  have hfloor := Nat.mul_le_mul_left (ulp p n) hquot
  rcases roundBits_eq p n with h | ⟨h, -⟩
  · rwa [h, Nat.mul_comm (n / ulp p n)]
  · rw [h, Nat.mul_comm (n / ulp p n + 1), Nat.mul_add]
    omega

/-- Rounding adds a last place at most. -/
theorem roundBits_le (p n : ℕ) : roundBits p n ≤ n + ulp p n := by
  have hdiv := Nat.div_mul_le_self n (ulp p n)
  rcases roundBits_eq p n with h | ⟨h, -⟩
  · rw [h]
    omega
  · rw [h, Nat.add_mul, Nat.one_mul]
    omega

/-- Rounding does not go beyond a multiple of the last place. -/
theorem roundBits_le_of_lt {p n m : ℕ} (hdvd : ulp p n ∣ m) (hlt : n < m) : roundBits p n ≤ m := by
  obtain ⟨a, rfl⟩ := hdvd
  have hquot : n / ulp p n + 1 ≤ a := by
    exact Nat.div_lt_of_lt_mul hlt
  have hceil := Nat.mul_le_mul_right (ulp p n) hquot
  rw [Nat.mul_comm (ulp p n)]
  rcases roundBits_eq p n with h | ⟨h, -⟩
  · rw [h]
    rw [Nat.add_mul] at hceil
    omega
  · rwa [h]

theorem roundBits_of_lt {p n : ℕ} (h : n < 2 ^ p) : roundBits p n = n := by
  by_cases hn : n = 0
  · subst hn
    have hpos : 0 < ulp p 0 := Nat.two_pow_pos _
    rcases roundBits_eq p 0 with h | ⟨-, h⟩
    · rw [h, Nat.zero_div, Nat.zero_mul]
    · rw [Nat.zero_mod] at h
      omega
  · have hulp : ulp p n = 1 := by
      rw [ulp, Nat.sub_eq_zero_of_le ((Nat.log2_lt hn).2 h), Nat.pow_zero]
    rcases roundBits_eq p n with h | ⟨-, h⟩
    · rw [h, hulp, Nat.div_one, Nat.mul_one]
    · rw [hulp, Nat.mod_one] at h
      omega

/-- Rounding keeps the order. -/
theorem roundBits_mono {p n m : ℕ} (hp : 0 < p) (h : n ≤ m) : roundBits p n ≤ roundBits p m := by
  by_cases hm : m = 0
  · rw [show n = m by omega]
  have hlog : n.log2 ≤ m.log2 := (Nat.le_log2 hm).2 (by
    by_cases hn : n = 0
    · rw [hn]
      exact Nat.pos_of_ne_zero hm
    · exact (Nat.log2_self_le hn).trans h)
  by_cases hsame : n.log2 = m.log2
  · -- the same last place: a quotient that stays rounds up with the larger remainder
    unfold roundBits
    rw [hsame]
    dsimp only
    refine Nat.mul_le_mul_right _ ?_
    have hquot := Nat.div_le_div_right (c := 2 ^ (m.log2 + 1 - p)) h
    have hn := Nat.div_add_mod n (2 ^ (m.log2 + 1 - p))
    have hm := Nat.div_add_mod m (2 ^ (m.log2 + 1 - p))
    generalize 2 ^ (m.log2 + 1 - p) = u at *
    by_cases hq : n / u = m / u
    · rw [hq] at hn ⊢
      split_ifs <;> omega
    · split_ifs <;> omega
  · -- a power of two between the two numbers
    have hpow : n < 2 ^ m.log2 := by
      by_cases hn : n = 0
      · rw [hn]
        exact Nat.two_pow_pos _
      · exact (Nat.log2_lt hn).1 (by omega)
    have hn := roundBits_le_of_lt (p := p) (Nat.pow_dvd_pow 2 (by omega)) hpow
    have hm := le_roundBits (p := p) (Nat.pow_dvd_pow 2 (by omega)) (Nat.log2_self_le hm)
    exact hn.trans hm

theorem mulTrunc_mono (n : ℕ) {c d : ℕ} (k : ℕ) (h : c ≤ d) : mulTrunc n c k ≤ mulTrunc n d k :=
  Nat.div_le_div_right (roundBits_mono (by omega) (Nat.mul_le_mul_left _ h))

/-- For numbers of 48 bits the product of the whole numbers is off by less than one. -/
theorem mulTrunc_bounds {n c : ℕ} (hn : n ≤ 2 ^ 48) (hc : c < 2 ^ 53) :
    n * c / 2 ^ 53 ≤ mulTrunc n c 53 ∧ mulTrunc n c 53 ≤ (n * c + 2 ^ 48) / 2 ^ 53 := by
  have hexact : roundBits 53 n = n := roundBits_of_lt (lt_of_le_of_lt hn (by decide))
  have hulp : ulp 53 (n * c) ∣ 2 ^ 48 := by
    refine Nat.pow_dvd_pow 2 ?_
    by_cases hzero : n * c = 0
    · rw [hzero]
      decide
    · have hlt : n * c < 2 ^ 101 := by
        calc n * c ≤ 2 ^ 48 * c := Nat.mul_le_mul_right c hn
          _ < 2 ^ 48 * 2 ^ 53 := Nat.mul_lt_mul_of_pos_left hc (Nat.two_pow_pos 48)
      have := (Nat.log2_lt hzero).2 hlt
      omega
  rw [mulTrunc, hexact]
  constructor
  · rw [Nat.le_div_iff_mul_le (Nat.two_pow_pos 53)]
    refine le_roundBits ?_ (Nat.div_mul_le_self _ _)
    exact Nat.dvd_trans hulp (Nat.dvd_mul_left_of_dvd (Nat.pow_dvd_pow 2 (by omega)) _)
  · refine Nat.div_le_div_right ((roundBits_le 53 (n * c)).trans ?_)
    exact Nat.add_le_add_left (Nat.le_of_dvd (Nat.two_pow_pos 48) hulp) _

/-- A binary64 number, by its bits. -/
structure F64 where
  bits : UInt64
  deriving DecidableEq

namespace F64

/-- Where the number stands in the order; nowhere for NaN. -/
def key? (x : F64) : Option ℤ :=
  let magnitude : ℕ := x.bits.toNat % 2 ^ 63
  if 0x7FF0000000000000 < magnitude then none
  else if x.bits.toNat < 2 ^ 63 then some magnitude
  else some (-(magnitude : ℤ))

/-- `x >= y`. -/
def ge (x y : F64) : Bool :=
  match x.key?, y.key? with
  | some a, some b => b ≤ a
  | _, _ => false

theorem ge_iff {x y : F64} : x.ge y = true ↔ ∃ a b, x.key? = some a ∧ y.key? = some b ∧ b ≤ a := by
  unfold ge
  cases hx : x.key? <;> cases hy : y.key? <;> simp

theorem ge_trans {x y z : F64} (hxy : x.ge y = true) (hyz : y.ge z = true) : x.ge z = true := by
  obtain ⟨a, b, ha, hb, hba⟩ := ge_iff.1 hxy
  obtain ⟨b', c, hb', hc, hcb⟩ := ge_iff.1 hyz
  obtain rfl : b = b' := Option.some.inj (hb.symm.trans hb')
  exact ge_iff.2 ⟨a, c, ha, hc, hcb.trans hba⟩

end F64

end Float64
