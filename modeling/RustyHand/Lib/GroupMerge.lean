import RustyHand.Lib.Table
import Mathlib.Data.List.Sort

/-!
# Merging the rows of a group

A table whose live rows fall into groups, each of which is merged into its first row: that row
absorbs the group, and the others are retired.

* `Merge`: how rows are grouped, ordered, absorbed and retired;
* `members`, `merge`, `mergeAll`;
* `members_merge`, `members_mergeAll`: each group is collapsed (`collapse`), and no other changes;
* `first_le`: the row that stays comes first.
-/

namespace GroupMerge

open Table

/-- How the rows of a table are merged. -/
structure Merge (α κ γ ρ : Type*) where
  key : α → κ
  live : α → Bool
  group : α → γ
  rank : α → ρ
  absorb : List α → α → α
  retire : α → α
  key_absorb : ∀ as a, key (absorb as a) = key a
  live_absorb : ∀ as a, live (absorb as a) = live a
  group_absorb : ∀ as a, group (absorb as a) = group a
  key_retire : ∀ a, key (retire a) = key a
  live_retire : ∀ a, live (retire a) = false

namespace Merge

variable {α κ γ ρ : Type*} {M : Merge α κ γ ρ} {t t' : γ} {rows as : List α} {a b : α}

/-! ### The order -/

section Order

variable [LinearOrder ρ]

/-- Rows in their order. -/
def sorted (M : Merge α κ γ ρ) (as : List α) : List α :=
  as.insertionSort fun a b => M.rank a ≤ M.rank b

/-- What a group comes to. -/
def collapse (M : Merge α κ γ ρ) (as : List α) : List α :=
  match M.sorted as with
  | first :: second :: others => [M.absorb (first :: second :: others) first]
  | _ => as

theorem sorted_perm (as : List α) : (M.sorted as).Perm as := List.perm_insertionSort _ as

theorem first_le {rest : List α} (h : M.sorted as = a :: rest) (hb : b ∈ as) :
    M.rank a ≤ M.rank b := by
  have htotal : Std.Total fun a b => M.rank a ≤ M.rank b := ⟨fun a b => le_total _ _⟩
  have htrans : IsTrans α fun a b => M.rank a ≤ M.rank b := ⟨fun a b c => le_trans⟩
  have hpairwise := List.pairwise_insertionSort (fun a b => M.rank a ≤ M.rank b) as
  rw [← sorted, h] at hpairwise
  rcases List.mem_cons.1 (h ▸ (sorted_perm as).mem_iff.2 hb) with rfl | hrest
  · exact le_rfl
  · exact List.rel_of_pairwise_cons hpairwise hrest

/-- A group of one row, or of none, is left as it is. -/
theorem collapse_of_length_le (h : as.length ≤ 1) : M.collapse as = as := by
  have hlen := (sorted_perm (M := M) as).length_eq
  unfold collapse
  cases hsorted : M.sorted as with
  | nil => rfl
  | cons first rest =>
    cases rest with
    | nil => rfl
    | cons second others =>
      rw [hsorted] at hlen
      simp only [List.length_cons] at hlen
      omega

theorem collapse_of_sorted {first second : α} {others : List α}
    (h : M.sorted as = first :: second :: others) :
    M.collapse as = [M.absorb (first :: second :: others) first] := by
  rw [collapse, h]

/-- A group has one row at most, or a first row and others. -/
theorem collapse_cases (M : Merge α κ γ ρ) (as : List α) :
    (as.length ≤ 1 ∧ M.collapse as = as) ∨
      ∃ first second others, M.sorted as = first :: second :: others ∧
        M.collapse as = [M.absorb (first :: second :: others) first] := by
  by_cases hlen : as.length ≤ 1
  · exact .inl ⟨hlen, collapse_of_length_le hlen⟩
  · right
    have hsorted := (sorted_perm (M := M) as).length_eq
    cases h : M.sorted as with
    | nil =>
      rw [h, List.length_nil] at hsorted
      omega
    | cons first rest =>
      cases rest with
      | nil =>
        rw [h, List.length_singleton] at hsorted
        omega
      | cons second others => exact ⟨first, second, others, rfl, collapse_of_sorted h⟩

theorem length_collapse_le (as : List α) : (M.collapse as).length ≤ 1 := by
  rcases M.collapse_cases as with ⟨hlen, hcollapse⟩ | ⟨first, second, others, -, hcollapse⟩
  · rwa [hcollapse]
  · rw [hcollapse, List.length_singleton]

theorem collapse_eq_nil_iff : M.collapse as = [] ↔ as = [] := by
  rcases M.collapse_cases as with ⟨-, hcollapse⟩ | ⟨first, second, others, hsorted, hcollapse⟩
  · rw [hcollapse]
  · have hne : as ≠ [] := by
      rintro rfl
      cases hsorted
    rw [hcollapse]
    exact iff_of_false (List.cons_ne_nil _ _) hne

end Order

/-! ### The first row and the others -/

section Keys

variable [DecidableEq κ]

theorem uniqueKeys_foldl_retire (as : List α) (h : UniqueKeys M.key rows) :
    UniqueKeys M.key (as.foldl (fun rows a => modify M.key (M.key a) M.retire rows) rows) := by
  induction as generalizing rows with
  | nil => exact h
  | cons a as ih => exact ih (h.modify M.key_retire)

/-- What is left of the first row and of the others, when it absorbs them and they are retired. -/
theorem filter_modify_first {first : α} {others : List α} (as : List α)
    (h : UniqueKeys M.key (first :: others)) :
    (modify M.key (M.key first) (M.absorb as) (first :: others)).filter
        (fun b => M.key b ∉ others.map M.key) = [M.absorb as first] := by
  obtain ⟨hfirst, -⟩ := List.nodup_cons.1 h
  have hothers : modify M.key (M.key first) (M.absorb as) others = others := by
    refine (List.map_congr_left fun b hb => if_neg fun hkey => hfirst ?_).trans (List.map_id _)
    exact hkey ▸ List.mem_map_of_mem hb
  have hdropped : others.filter (fun b => M.key b ∉ others.map M.key) = [] :=
    List.filter_eq_nil_iff.2 fun b hb => by simpa using ⟨b, hb, rfl⟩
  have hkept : M.key (M.absorb as first) ∉ others.map M.key := by rwa [M.key_absorb]
  rw [Table.modify, List.map_cons, if_pos rfl, ← Table.modify, hothers, List.filter_cons, hdropped,
    if_pos (decide_eq_true hkept)]

end Keys

/-! ### The rows of one group -/

section Members

variable [DecidableEq γ]

/-- The live rows of a group. -/
def members (M : Merge α κ γ ρ) (t : γ) (rows : List α) : List α :=
  rows.filter fun a => M.live a && M.group a = t

theorem mem_members : a ∈ M.members t rows ↔ a ∈ rows ∧ M.live a = true ∧ M.group a = t := by
  simp [members]

variable [DecidableEq κ]

theorem members_retire (t : γ) (k : κ) (rows : List α) :
    M.members t (modify M.key k M.retire rows) =
      (M.members t rows).filter fun a => M.key a ≠ k := by
  induction rows with
  | nil => rfl
  | cons a rows ih =>
    unfold members Table.modify at ih ⊢
    rw [List.map_cons, List.filter_cons, List.filter_cons, ih]
    by_cases hkey : M.key a = k
    · rw [if_pos hkey, M.live_retire]
      cases hmember : (M.live a && M.group a = t) with
      | true => simp [hkey]
      | false => simp
    · rw [if_neg hkey]
      cases hmember : (M.live a && M.group a = t) with
      | true => simp [hkey]
      | false => simp

theorem members_foldl_retire (t : γ) (as rows : List α) :
    M.members t (as.foldl (fun rows a => modify M.key (M.key a) M.retire rows) rows) =
      (M.members t rows).filter fun b => M.key b ∉ as.map M.key := by
  induction as generalizing rows with
  | nil => simp
  | cons a as ih =>
    rw [List.foldl_cons, ih, members_retire, List.filter_filter]
    refine List.filter_congr fun b _ => ?_
    rw [Bool.and_comm, ← Bool.decide_and, decide_eq_decide, List.map_cons, List.mem_cons, not_or]

theorem members_absorb (t : γ) (k : κ) (as rows : List α) :
    M.members t (modify M.key k (M.absorb as) rows) =
      modify M.key k (M.absorb as) (M.members t rows) := by
  unfold members Table.modify
  rw [List.filter_map]
  refine congrArg _ (List.filter_congr fun a _ => ?_)
  by_cases hkey : M.key a = k
  · simp [hkey, M.live_absorb, M.group_absorb]
  · simp [hkey]

/-! ### Merging -/

variable [LinearOrder ρ]

/-- The group is merged into its first row, if there are others. -/
def merge (M : Merge α κ γ ρ) (t : γ) (rows : List α) : List α :=
  match M.sorted (M.members t rows) with
  | first :: second :: others =>
    (second :: others).foldl (fun rows a => modify M.key (M.key a) M.retire rows)
      (modify M.key (M.key first) (M.absorb (first :: second :: others)) rows)
  | _ => rows

/-- The groups are merged one after the other. -/
def mergeAll (M : Merge α κ γ ρ) (ts : List γ) (rows : List α) : List α :=
  ts.foldl (fun rows t => M.merge t rows) rows

theorem uniqueKeys_merge (h : UniqueKeys M.key rows) (t : γ) :
    UniqueKeys M.key (M.merge t rows) := by
  unfold Merge.merge
  split
  · exact uniqueKeys_foldl_retire _ (h.modify (M.key_absorb _))
  · exact h

omit [DecidableEq κ] in
theorem uniqueKeys_sorted (h : UniqueKeys M.key rows) (t : γ) :
    UniqueKeys M.key (M.sorted (M.members t rows)) :=
  ((sorted_perm _).map M.key).nodup_iff.2 (h.sublist (List.filter_sublist.map M.key))

/-- The merged group is collapsed, and no other changes. -/
theorem members_merge (h : UniqueKeys M.key rows) (t t' : γ) :
    M.members t (M.merge t' rows) =
      if t = t' then M.collapse (M.members t rows) else M.members t rows := by
  have hperm := sorted_perm (M := M) (M.members t' rows)
  have hunique := uniqueKeys_sorted h t'
  unfold merge
  split
  · rename_i first second others hsorted
    rw [hsorted] at hperm hunique
    rw [members_foldl_retire, members_absorb]
    by_cases ht : t = t'
    · subst ht
      rw [if_pos rfl, collapse_of_sorted hsorted]
      refine List.perm_singleton.1 ?_
      rw [← filter_modify_first _ hunique]
      exact ((hperm.symm.map _).filter _)
    · rw [if_neg ht]
      have hother : ∀ b ∈ M.members t rows, M.key b ∉ (first :: second :: others).map M.key := by
        intro b hb hkey
        obtain ⟨c, hc, hkey⟩ := List.mem_map.1 hkey
        have hc' := mem_members.1 (hperm.mem_iff.1 hc)
        have hb' := mem_members.1 hb
        have hsame := h.eq hc'.1 hb'.1 hkey
        exact ht (by rw [← hb'.2.2, ← hsame, hc'.2.2])
      have hmodify : modify M.key (M.key first) (M.absorb (first :: second :: others))
          (M.members t rows) = M.members t rows := by
        refine (List.map_congr_left fun b hb => if_neg fun hkey => ?_).trans (List.map_id _)
        exact hother b hb (hkey ▸ List.mem_map_of_mem List.mem_cons_self)
      rw [hmodify]
      refine List.filter_eq_self.2 fun b hb => decide_eq_true fun hkey => ?_
      exact hother b hb (List.mem_cons_of_mem _ hkey)
  · rename_i hshort
    split_ifs with ht
    · subst ht
      unfold collapse
      split
      · rename_i first second others hsorted
        exact absurd hsorted (hshort first second others)
      · rfl
    · rfl

theorem uniqueKeys_mergeAll (h : UniqueKeys M.key rows) (ts : List γ) :
    UniqueKeys M.key (M.mergeAll ts rows) := by
  induction ts generalizing rows with
  | nil => exact h
  | cons t ts ih => exact ih (uniqueKeys_merge h t)

theorem members_mergeAll (h : UniqueKeys M.key rows) (t : γ) (ts : List γ) :
    M.members t (M.mergeAll ts rows) =
      if t ∈ ts then M.collapse (M.members t rows) else M.members t rows := by
  induction ts generalizing rows with
  | nil => rfl
  | cons t' ts ih =>
    show M.members t (M.mergeAll ts (M.merge t' rows)) = _
    rw [ih (uniqueKeys_merge h t'), members_merge h]
    by_cases ht : t = t'
    · rw [if_pos ht, if_pos (List.mem_cons.2 (.inl ht)),
        collapse_of_length_le (length_collapse_le _), ite_self]
    · rw [if_neg ht]
      simp only [List.mem_cons, ht, false_or]

/-- When the groups of more than one row are merged, each group is collapsed. -/
theorem members_mergeAll_of_forall (h : UniqueKeys M.key rows) {ts : List γ}
    (hts : ∀ t, 1 < (M.members t rows).length → t ∈ ts) (t : γ) :
    M.members t (M.mergeAll ts rows) = M.collapse (M.members t rows) := by
  rw [members_mergeAll h]
  by_cases ht : t ∈ ts
  · rw [if_pos ht]
  · rw [if_neg ht, collapse_of_length_le (Nat.le_of_not_lt fun hlen => ht (hts t hlen))]

end Members

end Merge
end GroupMerge
