import Mathlib.Data.List.Induction
import Mathlib.Data.List.Nodup

/-!
# Hash chains

Entries that name the hash of the entry before them, the first one a genesis hash, and that carry
their own hash.

* `Chain`: the links and the hashes are right;
* `tip`: the hash at the end;
* `CollisionFree`: no two of some entries that differ have one hash, and none has the genesis hash;
* `Chain.unique`: a chain is determined by its end;
* `Chain.nodup`: no hash comes twice.
-/

namespace HashChain

variable {α δ : Type*}

/-- How entries are chained: the hash of the entry before, the entry's own hash, and what that hash
should be. -/
structure Format (α δ : Type*) where
  prev : α → δ
  hash : α → δ
  digest : α → δ
  genesis : δ

variable (F : Format α δ)

/-- The links and the hashes of a list are right, behind an entry with the given hash. -/
def Chain : δ → List α → Prop
  | _, [] => True
  | start, e :: l => F.prev e = start ∧ F.digest e = F.hash e ∧ Chain (F.hash e) l

/-- The hash at the end of a list. -/
def tip (start : δ) (l : List α) : δ := (l.getLast?.map F.hash).getD start

/-- No two of the entries that differ have one digest and one hash, and none has the genesis
hash. -/
structure CollisionFree (l : List α) : Prop where
  inj : ∀ a ∈ l, ∀ b ∈ l, F.digest a = F.digest b → F.hash a = F.hash b → a = b
  genesis : ∀ a ∈ l, F.digest a ≠ F.genesis

variable {F} {start : δ} {e : α} {l l' : List α}

@[simp] theorem chain_nil : Chain F start [] := trivial

@[simp] theorem chain_cons : Chain F start (e :: l) ↔
    F.prev e = start ∧ F.digest e = F.hash e ∧ Chain F (F.hash e) l := Iff.rfl

@[simp] theorem tip_nil : tip F start [] = start := rfl

@[simp] theorem tip_cons : tip F start (e :: l) = tip F (F.hash e) l := by
  cases l with
  | nil => rfl
  | cons x l =>
    unfold tip
    rw [List.getLast?_cons_cons, List.getLast?_cons]
    rfl

@[simp] theorem tip_append : tip F start (l ++ l') = tip F (tip F start l) l' := by
  induction l generalizing start with
  | nil => rfl
  | cons e l ih => simp [ih]

theorem chain_append : Chain F start (l ++ l') ↔ Chain F start l ∧ Chain F (tip F start l) l' := by
  induction l generalizing start with
  | nil => simp
  | cons e l ih => simp [ih, and_assoc]

theorem chain_concat : Chain F start (l ++ [e]) ↔
    Chain F start l ∧ F.prev e = tip F start l ∧ F.digest e = F.hash e := by
  simp [chain_append]

theorem CollisionFree.mono (h : CollisionFree F l') (hl : l ⊆ l') : CollisionFree F l :=
  ⟨fun a ha b hb => h.inj a (hl ha) b (hl hb), fun a ha => h.genesis a (hl ha)⟩

/-- The end of a chain that is not empty is not the genesis hash. -/
theorem Chain.tip_ne_genesis (h : Chain F F.genesis (l ++ [e])) (hcf : CollisionFree F (l ++ [e])) :
    tip F F.genesis (l ++ [e]) ≠ F.genesis := by
  obtain ⟨-, -, hdigest⟩ := chain_concat.1 h
  rw [tip_append, tip_cons, tip_nil, ← hdigest]
  exact hcf.genesis e (by simp)

theorem Chain.unique (h : Chain F F.genesis l) (h' : Chain F F.genesis l')
    (hcf : CollisionFree F (l ++ l')) (htip : tip F F.genesis l = tip F F.genesis l') : l = l' := by
  induction l using List.reverseRecOn generalizing l' with
  | nil =>
    rcases List.eq_nil_or_concat' l' with rfl | ⟨m', e', rfl⟩
    · rfl
    · exact absurd htip.symm (h'.tip_ne_genesis hcf)
  | append_singleton m e ih =>
    rcases List.eq_nil_or_concat' l' with rfl | ⟨m', e', rfl⟩
    · exact absurd htip (h.tip_ne_genesis (hcf.mono (by simp)))
    · obtain ⟨hm, hprev, hdigest⟩ := chain_concat.1 h
      obtain ⟨hm', hprev', hdigest'⟩ := chain_concat.1 h'
      have hhash : F.hash e = F.hash e' := by simpa using htip
      have he : e = e' := hcf.inj e (by simp) e' (by simp)
        (hdigest.trans (hhash.trans hdigest'.symm)) hhash
      subst he
      have hmm : m = m' := ih hm hm' (hcf.mono fun x hx => by
        rcases List.mem_append.1 hx with hx | hx <;> simp [hx]) (hprev.symm.trans hprev')
      rw [hmm]

/-- A chain has no hash twice. -/
theorem Chain.nodup (h : Chain F F.genesis l) (hcf : CollisionFree F l) :
    (l.map F.hash).Nodup := by
  induction l using List.reverseRecOn with
  | nil => exact List.nodup_nil
  | append_singleton m e ih =>
    have hm := (chain_append.1 h).1
    have hnodup := ih hm (hcf.mono (by simp))
    rw [List.map_append, List.nodup_append]
    refine ⟨hnodup, by simp, ?_⟩
    rintro d hd d' hd' rfl
    obtain ⟨x, hx, rfl⟩ := List.mem_map.1 hd
    obtain ⟨a, b, rfl⟩ := List.append_of_mem hx
    have hhash : F.hash x = F.hash e := by simpa using hd'
    have hshort : Chain F F.genesis (a ++ [x]) := by
      rw [show a ++ x :: b = (a ++ [x]) ++ b by simp] at hm
      exact (chain_append.1 hm).1
    have heq : a ++ [x] = a ++ x :: b ++ [e] := by
      refine hshort.unique h (hcf.mono fun y hy => ?_) (by simpa using hhash)
      simp only [List.mem_append, List.mem_cons, List.not_mem_nil, or_false] at hy ⊢
      tauto
    have hlen := congrArg List.length heq
    simp at hlen

end HashChain
