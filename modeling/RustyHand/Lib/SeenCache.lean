import Mathlib.Data.List.Basic
import Mathlib.Data.Nat.Notation

/-!
# Keys that are remembered for a while

A cache of keys with the times at which they came in.  It forgets a key after its time to live
`ttl`, and lets in what it does not remember.

* `register`: a key comes in;
* `Remembers`: what a cache knows of all the keys that were let in so far;
* `Remembers.register`: that it goes on to know it, so that a key is let in again only after `ttl`.
-/

namespace SeenCache

variable {κ : Type*} [DecidableEq κ] (ttl : ℕ)

/-- A key comes in: the cache then, and whether the key was let in. -/
def register (now : ℕ) (k : κ) (cache : List (κ × ℕ)) : List (κ × ℕ) × Bool :=
  let cache := cache.filter fun p => now - p.2 < ttl
  if k ∈ cache.map Prod.fst then (cache, false) else (cache ++ [(k, now)], true)

/-- A cache at some time, after everything that was let in. -/
structure Remembers (cache admitted : List (κ × ℕ)) (now : ℕ) : Prop where
  past : ∀ p ∈ admitted, p.2 ≤ now
  kept : ∀ p ∈ admitted, now - p.2 < ttl → p ∈ cache
  apart : admitted.Pairwise fun p q => p.1 = q.1 → p.2 + ttl ≤ q.2

variable {ttl} {cache admitted : List (κ × ℕ)} {now later : ℕ} {k : κ}

omit [DecidableEq κ] in
theorem remembers_nil : Remembers ttl cache ([] : List (κ × ℕ)) now :=
  ⟨fun _ hp => absurd hp List.not_mem_nil, fun _ hp => absurd hp List.not_mem_nil,
    List.Pairwise.nil⟩

omit [DecidableEq κ] in
theorem Remembers.mono (h : Remembers ttl cache admitted now) (hle : now ≤ later) :
    Remembers ttl cache admitted later where
  past p hp := Nat.le_trans (h.past p hp) hle
  kept p hp halive := h.kept p hp (Nat.lt_of_le_of_lt (Nat.sub_le_sub_right hle _) halive)
  apart := h.apart

/-- A key that is let in was let in before only when it is forgotten by now. -/
theorem Remembers.apart_of_register (h : Remembers ttl cache admitted now)
    (hnew : (register ttl now k cache).2 = true) {p : κ × ℕ} (hp : p ∈ admitted) (hk : p.1 = k) :
    p.2 + ttl ≤ now := by
  by_contra hlt
  have halive : now - p.2 < ttl := by
    have := h.past p hp
    omega
  have hmem : k ∈ (cache.filter fun p => now - p.2 < ttl).map Prod.fst :=
    List.mem_map.2 ⟨p, List.mem_filter.2 ⟨h.kept p hp halive, by simpa using halive⟩, hk⟩
  simp [register, hmem] at hnew

/-- A cache goes on to know what was let in. -/
theorem Remembers.register (h : Remembers ttl cache admitted now) (k : κ) :
    Remembers ttl (register ttl now k cache).1
      (if (register ttl now k cache).2 then admitted ++ [(k, now)] else admitted) now := by
  have hkept : ∀ p ∈ admitted, now - p.2 < ttl → p ∈ (SeenCache.register ttl now k cache).1 := by
    intro p hp halive
    have hmem : p ∈ cache.filter fun p => now - p.2 < ttl :=
      List.mem_filter.2 ⟨h.kept p hp halive, by simpa using halive⟩
    unfold SeenCache.register
    dsimp only
    split
    · exact hmem
    · exact List.mem_append_left _ hmem
  cases hnew : (SeenCache.register ttl now k cache).2 with
  | false => exact ⟨h.past, hkept, h.apart⟩
  | true =>
    rw [if_pos rfl]
    refine ⟨fun p hp => ?_, fun p hp halive => ?_, ?_⟩
    · rcases List.mem_append.1 hp with hp | hp
      · exact h.past p hp
      · obtain rfl := List.mem_singleton.1 hp
        exact Nat.le_refl _
    · rcases List.mem_append.1 hp with hp | hp
      · exact hkept p hp halive
      · obtain rfl := List.mem_singleton.1 hp
        unfold SeenCache.register at hnew ⊢
        dsimp only at hnew ⊢
        split_ifs at hnew ⊢ with hmem
        exact List.mem_append_right _ (List.mem_singleton_self _)
    · rw [List.pairwise_append]
      refine ⟨h.apart, List.pairwise_singleton _ _, fun p hp q hq hkey => ?_⟩
      obtain rfl := List.mem_singleton.1 hq
      exact h.apart_of_register hnew hp hkey

end SeenCache
