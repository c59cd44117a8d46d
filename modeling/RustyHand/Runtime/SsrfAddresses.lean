import RustyHand.Runtime.Ssrf
import Mathlib.Algebra.Order.Ring.Nat
import Mathlib.Data.Nat.Bitwise

/-!
# The addresses that the check lets through

What the addresses denote to which `check_ssrf` (`rusty-hand-runtime/src/web_fetch.rs`) lets a host
resolve: the ranges of internal addresses, and the IPv4 addresses that stand in IPv6 addresses.

* `Range`, `Internal`: the ranges that a request must not reach;
* `mapped`, `compatible`: the IPv4 address in an IPv6 address;
* `isPrivateIp_v6`: the bit tests of `is_private_ip`, as ranges;
* `accepted_internal_iff`.
-/

namespace RustyHand
namespace Ssrf

namespace IpAddr

/-! ### Internal addresses -/

/-- The kinds of addresses that are not for the world outside. -/
inductive Range
  | loopback
  | unspecified
  | privateUse
  | linkLocal
  | uniqueLocal
  | metadata
  deriving DecidableEq

/-- The addresses of a kind. -/
def InRange : Range → IpAddr → Prop
  | .loopback, v4 a _ _ _ => a = 127
  | .loopback, ip => ip = v6 0 0 0 0 0 0 0 1
  | .unspecified, ip => ip = v4 0 0 0 0 ∨ ip = v6 0 0 0 0 0 0 0 0
  | .privateUse, v4 a b _ _ =>
    a = 10 ∨ (a = 172 ∧ 16 ≤ b ∧ b ≤ 31) ∨ (a = 192 ∧ b = 168)
  | .linkLocal, v4 a b _ _ => a = 169 ∧ b = 254
  | .linkLocal, v6 s0 _ _ _ _ _ _ _ => 0xFE80 ≤ s0 ∧ s0 ≤ 0xFEBF
  | .uniqueLocal, v6 s0 _ _ _ _ _ _ _ => 0xFC00 ≤ s0 ∧ s0 ≤ 0xFDFF
  -- the metadata services of the clouds, on IPv4 and on IPv6
  | .metadata, ip => ip = v4 169 254 169 254 ∨ ip = v6 0xFD00 0xEC2 0 0 0 0 0 0x254
  | _, _ => False

/-- The address is of one of these kinds. -/
def Internal (ip : IpAddr) : Prop := ∃ range, InRange range ip

/-- The IPv4 address in the last 32 bits. -/
def lastBits (s6 s7 : UInt16) : IpAddr :=
  v4 (s6 >>> 8).toUInt8 s6.toUInt8 (s7 >>> 8).toUInt8 s7.toUInt8

/-- The IPv4 address that is mapped into IPv6: `::ffff:a.b.c.d`. -/
def mapped : IpAddr → Option IpAddr
  | v4 _ _ _ _ => none
  | v6 s0 s1 s2 s3 s4 s5 s6 s7 =>
    if s0 = 0 ∧ s1 = 0 ∧ s2 = 0 ∧ s3 = 0 ∧ s4 = 0 ∧ s5 = 0xFFFF then some (lastBits s6 s7)
    else none

/-- The IPv4 address of a compatible IPv6 address: `::a.b.c.d`. -/
def compatible : IpAddr → Option IpAddr
  | v4 _ _ _ _ => none
  | v6 s0 s1 s2 s3 s4 s5 s6 s7 =>
    if s0 = 0 ∧ s1 = 0 ∧ s2 = 0 ∧ s3 = 0 ∧ s4 = 0 ∧ s5 = 0 then some (lastBits s6 s7) else none

/-- The address is internal, or stands for an IPv4 address that is. -/
def DenotesInternal (ip : IpAddr) : Prop :=
  ip.Internal ∨ (∃ inner, ip.mapped = some inner ∧ inner.Internal) ∨
    ∃ inner, ip.compatible = some inner ∧ inner.Internal

/-- The address is `127.0.0.0/8` or `0.0.0.0` mapped into IPv6, or an IPv6 address that is
compatible with an internal IPv4 address. -/
def Disguised (ip : IpAddr) : Prop :=
  (∃ inner, ip.mapped = some inner ∧
      (InRange .loopback inner ∨ InRange .unspecified inner)) ∨
    ∃ inner, ip.compatible = some inner ∧ inner.Internal

/-! ### The tests of the code -/

/-- Masking the lower bits out. -/
theorem and_mask {n k w : ℕ} (h : n < 2 ^ w) (hk : k ≤ w) :
    n &&& (2 ^ w - 2 ^ k) = n / 2 ^ k * 2 ^ k := by
  have hmask : 2 ^ w - 2 ^ k = (2 ^ (w - k) - 1) * 2 ^ k := by
    rw [Nat.sub_mul, ← pow_add, Nat.sub_add_cancel hk, one_mul]
  apply Nat.eq_of_testBit_eq
  intro i
  rw [Nat.testBit_and, hmask, Nat.testBit_mul_two_pow, Nat.testBit_mul_two_pow,
    Nat.testBit_div_two_pow, Nat.testBit_two_pow_sub_one]
  by_cases hi : k ≤ i
  · by_cases hw : i < w
    · have hlt : i - k < w - k := by omega
      simp [hi, hlt]
    · have hzero : n.testBit i = false :=
        Nat.testBit_lt_two_pow (h.trans_le (Nat.pow_le_pow_right (by omega) (by omega)))
      simp [hi, hzero]
  · simp [hi]

theorem masked_uniqueLocal (s : UInt16) :
    s &&& 0xFE00 = 0xFC00 ↔ 0xFC00 ≤ s ∧ s ≤ 0xFDFF := by
  have hmask := and_mask (k := 9) s.toNat_lt (by omega)
  rw [← UInt16.toNat_inj, UInt16.toNat_and, UInt16.le_iff_toNat_le, UInt16.le_iff_toNat_le]
  simp only [UInt16.reduceToNat, Nat.reducePow, Nat.reduceSub] at hmask ⊢
  rw [hmask]
  omega

theorem masked_linkLocal (s : UInt16) :
    s &&& 0xFFC0 = 0xFE80 ↔ 0xFE80 ≤ s ∧ s ≤ 0xFEBF := by
  have hmask := and_mask (k := 6) s.toNat_lt (by omega)
  rw [← UInt16.toNat_inj, UInt16.toNat_and, UInt16.le_iff_toNat_le, UInt16.le_iff_toNat_le]
  simp only [UInt16.reduceToNat, Nat.reducePow, Nat.reduceSub] at hmask ⊢
  rw [hmask]
  omega

/-- The addresses for which the check fails. -/
def refused (ip : IpAddr) : Bool := ip.isLoopback || ip.isUnspecified || ip.isPrivateIp

theorem isPrivateV4_iff (a b c d : UInt8) :
    isPrivateV4 a b = true ↔
      InRange .privateUse (v4 a b c d) ∨ InRange .linkLocal (v4 a b c d) := by
  simp [isPrivateV4, InRange, or_assoc, and_assoc]

/-- Of the IPv4 addresses, the internal ones are refused. -/
theorem refused_v4_iff (a b c d : UInt8) :
    (v4 a b c d).refused = true ↔ (v4 a b c d).Internal := by
  rw [refused, Bool.or_eq_true, Bool.or_eq_true, isPrivateIp, isPrivateV4_iff a b c d]
  constructor
  · rintro ((hloop | hnone) | hprivate | hlink)
    · exact ⟨.loopback, by simpa [isLoopback, InRange] using hloop⟩
    · exact ⟨.unspecified, by simpa [isUnspecified, InRange, and_assoc] using hnone⟩
    · exact ⟨.privateUse, hprivate⟩
    · exact ⟨.linkLocal, hlink⟩
  · rintro ⟨range, h⟩
    cases range with
    | loopback => exact .inl (.inl (by simpa [isLoopback, InRange] using h))
    | unspecified => exact .inl (.inr (by simpa [isUnspecified, InRange, and_assoc] using h))
    | privateUse => exact .inr (.inl h)
    | linkLocal => exact .inr (.inr h)
    | uniqueLocal => exact h.elim
    | metadata =>
      right
      right
      rcases h with h | h
      · cases h
        exact ⟨rfl, rfl⟩
      · cases h

section V6

variable {s0 s1 s2 s3 s4 s5 s6 s7 : UInt16}

theorem internal_v6_iff : (v6 s0 s1 s2 s3 s4 s5 s6 s7).Internal ↔
    v6 s0 s1 s2 s3 s4 s5 s6 s7 = v6 0 0 0 0 0 0 0 1 ∨
      v6 s0 s1 s2 s3 s4 s5 s6 s7 = v6 0 0 0 0 0 0 0 0 ∨
        (0xFC00 ≤ s0 ∧ s0 ≤ 0xFDFF) ∨ (0xFE80 ≤ s0 ∧ s0 ≤ 0xFEBF) := by
  constructor
  · rintro ⟨range, h⟩
    cases range with
    | loopback => exact .inl h
    | unspecified => exact .inr (.inl (h.resolve_left (by simp)))
    | privateUse => exact h.elim
    | linkLocal => exact .inr (.inr (.inr h))
    | uniqueLocal => exact .inr (.inr (.inl h))
    | metadata =>
      rcases h with h | h
      · cases h
      · cases h
        exact .inr (.inr (.inl (by decide)))
  · rintro (h | h | h | h)
    · exact ⟨.loopback, h⟩
    · exact ⟨.unspecified, .inr h⟩
    · exact ⟨.uniqueLocal, h⟩
    · exact ⟨.linkLocal, h⟩

/-- Of the IPv6 addresses, the internal ones are refused, and those into which an address for
private use or of a link is mapped. -/
theorem refused_v6_iff : (v6 s0 s1 s2 s3 s4 s5 s6 s7).refused = true ↔
    (v6 s0 s1 s2 s3 s4 s5 s6 s7).Internal ∨
      ∃ inner, (v6 s0 s1 s2 s3 s4 s5 s6 s7).mapped = some inner ∧
        (InRange .privateUse inner ∨ InRange .linkLocal inner) := by
  rw [refused, internal_v6_iff, isPrivateIp, mapped]
  by_cases h : s0 = 0 ∧ s1 = 0 ∧ s2 = 0 ∧ s3 = 0 ∧ s4 = 0 ∧ s5 = 0xFFFF
  · rw [if_pos h, if_pos h]
    obtain ⟨rfl, rfl, rfl, rfl, rfl, rfl⟩ := h
    have hprivate := isPrivateV4_iff (s6 >>> 8).toUInt8 s6.toUInt8 (s7 >>> 8).toUInt8 s7.toUInt8
    simp [isLoopback, isUnspecified, lastBits, hprivate]
  · rw [if_neg h, if_neg h]
    simp [isLoopback, isUnspecified, masked_uniqueLocal, masked_linkLocal, and_assoc, or_assoc]

end V6

theorem mapped_v4 {ip inner : IpAddr} (h : ip.mapped = some inner) :
    ∃ a b c d, inner = v4 a b c d := by
  cases ip with
  | v4 => cases h
  | v6 s0 s1 s2 s3 s4 s5 s6 s7 =>
    rw [mapped] at h
    split_ifs at h
    exact ⟨_, _, _, _, (Option.some.inj h).symm⟩

/-- What is let through denotes an internal address only in disguise. -/
theorem denotesInternal_iff {ip : IpAddr} (h : ip.refused = false) :
    ip.DenotesInternal ↔ ip.Disguised := by
  have hrefused : ¬ ip.refused = true := by simp [h]
  have hinternal : ¬ ip.Internal := by
    cases ip with
    | v4 a b c d => exact mt (refused_v4_iff a b c d).2 hrefused
    | v6 => exact fun hin => hrefused (refused_v6_iff.2 (.inl hin))
  rw [DenotesInternal, or_iff_right hinternal, Disguised]
  refine or_congr_left (exists_congr fun inner => and_congr_right fun hmapped => ?_)
  constructor
  · rintro ⟨range, hrange⟩
    have hinner : ¬ (InRange .privateUse inner ∨ InRange .linkLocal inner) := by
      intro hinner
      cases ip with
      | v4 => cases hmapped
      | v6 => exact hrefused (refused_v6_iff.2 (.inr ⟨inner, hmapped, hinner⟩))
    cases range with
    | loopback => exact .inl hrange
    | unspecified => exact .inr hrange
    | privateUse => exact absurd (.inl hrange) hinner
    | linkLocal => exact absurd (.inr hrange) hinner
    | uniqueLocal =>
      obtain ⟨a, b, c, d, rfl⟩ := mapped_v4 hmapped
      exact hrange.elim
    | metadata =>
      obtain ⟨a, b, c, d, rfl⟩ := mapped_v4 hmapped
      rcases hrange with hrange | hrange
      · cases hrange
        exact absurd (.inr ⟨rfl, rfl⟩) hinner
      · cases hrange
  · rintro (hrange | hrange)
    · exact ⟨.loopback, hrange⟩
    · exact ⟨.unspecified, hrange⟩

end IpAddr

/-! ### What is accepted -/

section Accepted

variable {toLowercase : String → String} {toSocketAddrs : String → Except String (List IpAddr)}
  {showIp : IpAddr → String} {url : String} {addrs : List IpAddr}

/-- The text that is resolved for a URL. -/
def socketAddr (url : String) : String :=
  hostname (extractHost url) ++ ":" ++ if startsWithHttps url.toList then "443" else "80"

/-- A host that is accepted resolves, and none of its addresses is refused. -/
theorem refused_of_accepted (h : checkSsrf toLowercase toSocketAddrs showIp url = .ok ())
    (haddrs : toSocketAddrs (socketAddr url) = .ok addrs) :
    ∀ ip ∈ addrs, ip.refused = false := by
  rw [checkSsrf, checkSsrfWithAllowlist] at h
  simp only [List.any_nil, Bool.false_eq_true, if_false] at h
  rw [← socketAddr, haddrs] at h
  dsimp only at h
  split_ifs at h
  intro ip hip
  cases hfind : addrs.find? fun ip => ip.isLoopback || ip.isUnspecified || ip.isPrivateIp with
  | none => exact Bool.eq_false_of_not_eq_true (List.find?_eq_none.1 hfind ip hip)
  | some ip' =>
    rw [hfind] at h
    cases h

/-- The addresses that an accepted host resolves to denote no internal address just if none of them
is one in disguise: `127.0.0.0/8` or `0.0.0.0` mapped into IPv6, or an IPv6 address that is
compatible with an internal IPv4 address. -/
theorem accepted_internal_iff
    (h : checkSsrf toLowercase toSocketAddrs showIp url = .ok ())
    (haddrs : toSocketAddrs (socketAddr url) = .ok addrs) :
    (∀ ip ∈ addrs, ¬ ip.DenotesInternal) ↔ ∀ ip ∈ addrs, ¬ ip.Disguised :=
  forall₂_congr fun ip hip =>
    not_congr (IpAddr.denotesInternal_iff (refused_of_accepted h haddrs ip hip))

/-- A host with a public address. -/
theorem accepted_internal_iff_public :
    (∀ ip ∈ [IpAddr.v4 93 184 216 34], ¬ ip.DenotesInternal) ↔
      ∀ ip ∈ [IpAddr.v4 93 184 216 34], ¬ ip.Disguised :=
  @accepted_internal_iff id publicDns (fun _ => "") "https://example.com/" _ rfl rfl

/-- Name resolution in which every name leads to `::ffff:127.0.0.1`. -/
def mappedDns (_ : String) : Except String (List IpAddr) :=
  .ok [.v6 0 0 0 0 0 0xFFFF 0x7F00 0x0001]

/-- The loopback address is let through when it is mapped into IPv6. -/
theorem accepted_mapped_loopback :
    ¬ ∀ (toLowercase : String → String) (toSocketAddrs : String → Except String (List IpAddr))
        (showIp : IpAddr → String) (url : String) (addrs : List IpAddr),
      checkSsrf toLowercase toSocketAddrs showIp url = .ok () →
      toSocketAddrs (socketAddr url) = .ok addrs → ∀ ip ∈ addrs, ¬ ip.DenotesInternal := by
  intro h
  refine h id mappedDns (fun _ => "") "http://example.com/" _ rfl rfl _ List.mem_cons_self ?_
  exact .inr (.inl ⟨.v4 127 0 0 1, rfl, .loopback, rfl⟩)

end Accepted

end Ssrf
end RustyHand
