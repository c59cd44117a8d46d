import Mathlib.Data.List.Basic
import Mathlib.Data.List.Nodup
import Mathlib.Order.Lattice

/-!
# Tables: lists of rows with a key

A hash map or a database table as the list of its rows, in the order in which the rows came in.
Every row carries its key, which no two rows of a table share (`UniqueKeys`).

* `lookup`, `upsert`, `modify`, `erase`;
* what each does to the keys, so that `UniqueKeys` is kept;
* what each does to the rows, and to what a filter sees of them;
* tables whose rows are those of another, seen in part.
-/

namespace Table

variable {α κ : Type*} [DecidableEq κ] (key : α → κ)

/-- The row of a key. -/
def lookup (k : κ) (rows : List α) : Option α := rows.find? fun x => key x = k

/-- A row in the place of the one with its key, at the end if there is none. -/
def upsert (x : α) (rows : List α) : List α :=
  if key x ∈ rows.map key then rows.map fun y => if key y = key x then x else y else rows ++ [x]

/-- The row of a key changed. -/
def modify (k : κ) (f : α → α) (rows : List α) : List α :=
  rows.map fun y => if key y = k then f y else y

/-- The rows of all other keys. -/
def erase (k : κ) (rows : List α) : List α := rows.filter fun y => key y ≠ k

/-- No two rows share a key. -/
def UniqueKeys (rows : List α) : Prop := (rows.map key).Nodup

variable {key} {k : κ} {x y : α} {rows : List α}

/-! ### The keys -/

theorem keys_upsert (x : α) (rows : List α) : (upsert key x rows).map key =
    if key x ∈ rows.map key then rows.map key else rows.map key ++ [key x] := by
  unfold upsert
  split
  · rw [List.map_map]
    refine List.map_congr_left fun y _ => ?_
    by_cases h : key y = key x
    · simp [h]
    · simp [h]
  · simp

theorem keys_modify {f : α → α} (hf : ∀ y, key (f y) = key y) (k : κ) (rows : List α) :
    (modify key k f rows).map key = rows.map key := by
  unfold modify
  rw [List.map_map]
  refine List.map_congr_left fun y _ => ?_
  by_cases h : key y = k
  · simp [h, hf]
  · simp [h]

theorem keys_erase (k : κ) (rows : List α) :
    (erase key k rows).map key = (rows.map key).filter (· ≠ k) := by
  rw [erase, List.filter_map]
  rfl

theorem UniqueKeys.upsert (h : UniqueKeys key rows) : UniqueKeys key (upsert key x rows) := by
  unfold UniqueKeys
  rw [keys_upsert]
  split
  · exact h
  · rename_i hx
    rw [List.nodup_append]
    refine ⟨h, List.nodup_singleton _, fun a ha b hb => ?_⟩
    rw [List.mem_singleton.1 hb]
    rintro rfl
    exact hx ha

omit [DecidableEq κ] in
theorem UniqueKeys.map {f : α → α} (hf : ∀ y, key (f y) = key y) (h : UniqueKeys key rows) :
    UniqueKeys key (rows.map f) := by
  have hkeys : (rows.map f).map key = rows.map key := by
    rw [List.map_map]
    exact List.map_congr_left fun y _ => hf y
  unfold UniqueKeys
  rwa [hkeys]

theorem UniqueKeys.modify {f : α → α} (hf : ∀ y, key (f y) = key y) (h : UniqueKeys key rows) :
    UniqueKeys key (modify key k f rows) := by
  unfold UniqueKeys
  rw [keys_modify hf]
  exact h

theorem UniqueKeys.erase (h : UniqueKeys key rows) : UniqueKeys key (erase key k rows) := by
  unfold UniqueKeys
  rw [keys_erase]
  exact h.filter _

theorem length_upsert (x : α) (rows : List α) : (upsert key x rows).length =
    if key x ∈ rows.map key then rows.length else rows.length + 1 := by
  rw [← List.length_map (f := key), keys_upsert]
  split <;> simp

theorem UniqueKeys.length_erase (h : UniqueKeys key rows) (hk : k ∈ rows.map key) :
    (Table.erase key k rows).length + 1 = rows.length := by
  have hlength : (Table.erase key k rows).length = ((rows.map key).erase k).length := by
    rw [h.erase_eq_filter, ← List.length_map (f := key), keys_erase]
    congr 2
    funext y
    by_cases hy : y = k <;> simp [hy]
  rw [hlength, List.length_erase_of_mem hk, List.length_map]
  have : 0 < rows.length := by
    rw [← List.length_map (f := key)]
    exact List.length_pos_of_mem hk
  omega

omit [DecidableEq κ] in
theorem UniqueKeys.eq (h : UniqueKeys key rows) (hx : x ∈ rows) (hy : y ∈ rows)
    (hkey : key x = key y) : x = y :=
  List.inj_on_of_nodup_map h hx hy hkey

/-! ### The rows -/

theorem lookup_eq_some_iff (h : UniqueKeys key rows) :
    lookup key k rows = some x ↔ x ∈ rows ∧ key x = k := by
  constructor
  · intro hfind
    exact ⟨List.mem_of_find?_eq_some hfind, by simpa using List.find?_some hfind⟩
  · rintro ⟨hx, rfl⟩
    have hsome : (lookup key (key x) rows).isSome := by
      rw [lookup, List.find?_isSome]
      exact ⟨x, hx, by simp⟩
    obtain ⟨y, hy⟩ := Option.isSome_iff_exists.1 hsome
    have hkey : key y = key x := by simpa using List.find?_some hy
    rw [hy, h.eq (List.mem_of_find?_eq_some hy) hx hkey]

theorem lookup_eq_none_iff : lookup key k rows = none ↔ k ∉ rows.map key := by
  rw [lookup, List.find?_eq_none]
  simp

theorem mem_of_lookup (h : lookup key k rows = some x) : x ∈ rows ∧ key x = k :=
  ⟨List.mem_of_find?_eq_some h, by simpa using List.find?_some h⟩

/-- What a lookup finds in a part of a table. -/
theorem UniqueKeys.lookup_filter {p : α → Bool} (h : UniqueKeys key rows) :
    lookup key k (rows.filter p) = (lookup key k rows).filter p := by
  have hpart : UniqueKeys key (rows.filter p) := h.sublist (List.filter_sublist.map key)
  cases hrow : lookup key k rows with
  | none =>
    rw [lookup_eq_none_iff] at hrow
    refine lookup_eq_none_iff.2 fun hk => hrow ?_
    exact (List.filter_sublist.map key).subset hk
  | some x =>
    obtain ⟨hx, hkey⟩ := mem_of_lookup hrow
    cases hp : p x with
    | true =>
      rw [Option.filter_some, if_pos hp]
      exact (lookup_eq_some_iff hpart).2 ⟨List.mem_filter.2 ⟨hx, hp⟩, hkey⟩
    | false =>
      rw [Option.filter_some, if_neg (by simp [hp]), lookup_eq_none_iff]
      intro hk
      obtain ⟨y, hy, hyk⟩ := List.mem_map.1 hk
      obtain ⟨hyr, hyp⟩ := List.mem_filter.1 hy
      rw [h.eq hyr hx (hyk.trans hkey.symm), hp] at hyp
      cases hyp

theorem lookup_cons (k : κ) (x : α) (rows : List α) :
    lookup key k (x :: rows) = if key x = k then some x else lookup key k rows := by
  by_cases h : key x = k
  · simp [lookup, h]
  · simp [lookup, h]

theorem lookup_upsert (k : κ) (x : α) (rows : List α) :
    lookup key k (upsert key x rows) = if k = key x then some x else lookup key k rows := by
  unfold upsert
  split_ifs with hx hk hk
  · subst hk
    -- the first row with the key is the one that is replaced
    induction rows with
    | nil => simp at hx
    | cons y rows ih =>
      rw [List.map_cons, lookup_cons]
      by_cases hy : key y = key x
      · simp [hy]
      · have hx' : key x ∈ rows.map key := by
          rcases List.mem_cons.1 hx with h | h
          · exact absurd h.symm hy
          · exact h
        simpa [hy] using ih hx'
  · clear hx
    induction rows with
    | nil => rfl
    | cons y rows ih =>
      rw [List.map_cons, lookup_cons, lookup_cons, ih]
      by_cases hy : key y = key x
      · have hne : key x ≠ k := fun h => hk h.symm
        simp [hy, hne]
      · simp [hy]
  · subst hk
    have hnone : lookup key (key x) rows = none := lookup_eq_none_iff.2 hx
    rw [lookup] at hnone ⊢
    simp [hnone]
  · have hne : key x ≠ k := fun h => hk h.symm
    simp [lookup, hne]

theorem lookup_modify_eq {f : α → α} (hf : ∀ y, key (f y) = key y) (k k' : κ) (rows : List α) :
    lookup key k' (modify key k f rows) =
      if k' = k then (lookup key k' rows).map f else lookup key k' rows := by
  induction rows with
  | nil => split <;> rfl
  | cons y rows ih =>
    rw [modify] at ih ⊢
    rw [List.map_cons, lookup_cons, lookup_cons, ih]
    by_cases h : key y = k
    · by_cases hk : k' = k
      · simp [h, hf, hk]
      · simp [h, hf, hk, Ne.symm hk]
    · by_cases hk : k' = k
      · simp [h, hk]
      · simp [h, hk]

theorem lookup_modify {f : α → α} (hf : ∀ y, key (f y) = key y) (k : κ) (rows : List α) :
    lookup key k (modify key k f rows) = (lookup key k rows).map f :=
  (lookup_modify_eq hf k k rows).trans (if_pos rfl)

theorem lookup_erase (k : κ) (rows : List α) : lookup key k (erase key k rows) = none := by
  rw [lookup_eq_none_iff, keys_erase, List.mem_filter]
  simp

theorem lookup_modify_of_ne {f : α → α} {k' : κ} (hf : ∀ y, key (f y) = key y) (hk : k' ≠ k)
    (rows : List α) : lookup key k' (modify key k f rows) = lookup key k' rows :=
  (lookup_modify_eq hf k k' rows).trans (if_neg hk)

theorem lookup_erase_of_ne {k' : κ} (hk : k' ≠ k) (rows : List α) :
    lookup key k' (erase key k rows) = lookup key k' rows := by
  unfold erase
  induction rows with
  | nil => rfl
  | cons y rows ih =>
    rw [List.filter_cons, lookup_cons]
    by_cases h : key y = k
    · rw [if_neg (by simpa using h), ih, if_neg]
      rw [h]
      exact hk.symm
    · rw [if_pos (by simpa using h), lookup_cons, ih]

theorem erase_of_not_mem (h : k ∉ rows.map key) : erase key k rows = rows := by
  refine List.filter_eq_self.2 fun y hy => ?_
  have hne : key y ≠ k := by
    rintro rfl
    exact h (List.mem_map_of_mem hy)
  simp [hne]

theorem upsert_of_not_mem (h : key x ∉ rows.map key) : upsert key x rows = rows ++ [x] :=
  if_neg h

theorem map_upsert {β : Type*} {g : α → β} (hx : key x ∈ rows.map key)
    (hg : ∀ y ∈ rows, key y = key x → g x = g y) : (upsert key x rows).map g = rows.map g := by
  rw [upsert, if_pos hx, List.map_map]
  refine List.map_congr_left fun y hy => ?_
  by_cases h : key y = key x
  · simp [h, hg y hy h]
  · simp [h]

theorem mem_upsert : y ∈ upsert key x rows ↔ y = x ∨ y ∈ rows ∧ key y ≠ key x := by
  unfold upsert
  split
  · rename_i hx
    rw [List.mem_map] at hx
    obtain ⟨z, hz, hzx⟩ := hx
    rw [List.mem_map]
    constructor
    · rintro ⟨w, hw, rfl⟩
      by_cases hkey : key w = key x
      · simp [hkey]
      · simp [hkey, hw]
    · rintro (rfl | ⟨hy, hkey⟩)
      · exact ⟨z, hz, by simp [hzx]⟩
      · exact ⟨y, hy, by simp [hkey]⟩
  · rename_i hx
    rw [List.mem_append, List.mem_singleton, or_comm]
    refine or_congr_right' fun _ => ⟨fun hy => ⟨hy, ?_⟩, And.left⟩
    intro hkey
    exact hx (hkey ▸ List.mem_map_of_mem hy)

theorem mem_erase : y ∈ erase key k rows ↔ y ∈ rows ∧ key y ≠ k := by
  simp [erase]

theorem mem_modify {f : α → α} :
    y ∈ modify key k f rows ↔ (∃ z ∈ rows, key z = k ∧ f z = y) ∨ y ∈ rows ∧ key y ≠ k := by
  rw [modify, List.mem_map]
  constructor
  · rintro ⟨z, hz, rfl⟩
    by_cases hkey : key z = k
    · exact Or.inl ⟨z, hz, hkey, by simp [hkey]⟩
    · exact Or.inr (by simpa [hkey] using hz)
  · rintro (⟨z, hz, hkey, rfl⟩ | ⟨hy, hkey⟩)
    · exact ⟨z, hz, by simp [hkey]⟩
    · exact ⟨y, hy, by simp [hkey]⟩

/-- A map that the change does not touch. -/
theorem map_modify {β : Type*} {f : α → α} {g : α → β} (hg : ∀ y, g (f y) = g y) (k : κ)
    (rows : List α) : (modify key k f rows).map g = rows.map g := by
  rw [modify, List.map_map]
  refine List.map_congr_left fun y _ => ?_
  by_cases h : key y = k
  · simp [h, hg]
  · simp [h]

/-! ### A table seen as another -/

section

variable {β : Type*} {key' : β → κ} {g : α → β}

theorem lookup_map (hg : ∀ y, key' (g y) = key y) (k : κ) (rows : List α) :
    lookup key' k (rows.map g) = (lookup key k rows).map g := by
  unfold lookup
  rw [List.find?_map]
  refine congrArg (fun p => Option.map g (rows.find? p)) (funext fun y => ?_)
  simp [hg]

theorem upsert_map (hg : ∀ y, key' (g y) = key y) (x : α) (rows : List α) :
    upsert key' (g x) (rows.map g) = (upsert key x rows).map g := by
  have hkeys : (rows.map g).map key' = rows.map key := by
    rw [List.map_map]
    exact List.map_congr_left fun y _ => hg y
  unfold upsert
  rw [hkeys, hg]
  by_cases hx : key x ∈ rows.map key
  · rw [if_pos hx, if_pos hx, List.map_map, List.map_map]
    refine List.map_congr_left fun y _ => ?_
    by_cases h : key y = key x
    · simp [hg, h]
    · simp [hg, h]
  · rw [if_neg hx, if_neg hx, List.map_append, List.map_singleton]

theorem modify_map {f : α → α} {f' : β → β} (hg : ∀ y, key' (g y) = key y)
    (hf : ∀ y, g (f y) = f' (g y)) (k : κ) (rows : List α) :
    modify key' k f' (rows.map g) = (modify key k f rows).map g := by
  unfold modify
  rw [List.map_map, List.map_map]
  refine List.map_congr_left fun y _ => ?_
  by_cases h : key y = k
  · simp [hg, h, hf]
  · simp [hg, h]

theorem erase_map (hg : ∀ y, key' (g y) = key y) (k : κ) (rows : List α) :
    erase key' k (rows.map g) = (erase key k rows).map g := by
  unfold erase
  rw [List.filter_map]
  refine congrArg (List.map g) (List.filter_congr fun y _ => ?_)
  simp [hg]

end

/-! ### What a filter sees -/

/-- A change of rows that the filter drops, before and after it. -/
theorem filter_map_eq {f : α → α} {p : α → Bool}
    (h : ∀ y ∈ rows, f y = y ∨ p y = false ∧ p (f y) = false) :
    (rows.map f).filter p = rows.filter p := by
  induction rows with
  | nil => rfl
  | cons y rows ih =>
    have hrows := ih fun z hz => h z (List.mem_cons_of_mem _ hz)
    rw [List.map_cons, List.filter_cons, List.filter_cons, hrows]
    rcases h y List.mem_cons_self with heq | ⟨hold, hnew⟩
    · rw [heq]
    · simp [hold, hnew]

theorem filter_upsert {p : α → Bool} (hx : p x = false)
    (h : ∀ y ∈ rows, key y = key x → p y = false) :
    (upsert key x rows).filter p = rows.filter p := by
  unfold upsert
  split
  · refine filter_map_eq fun y hy => ?_
    by_cases hkey : key y = key x
    · simp [hkey, hx, h y hy hkey]
    · simp [hkey]
  · simp [List.filter_append, hx]

theorem filter_modify {f : α → α} {p : α → Bool}
    (h : ∀ y ∈ rows, key y = k → p y = false ∧ p (f y) = false) :
    (modify key k f rows).filter p = rows.filter p := by
  refine filter_map_eq fun y hy => ?_
  by_cases hkey : key y = k
  · simp [hkey, h y hy hkey]
  · simp [hkey]

theorem filter_erase {p : α → Bool} (h : ∀ y ∈ rows, key y = k → p y = false) :
    (erase key k rows).filter p = rows.filter p := by
  rw [erase, List.filter_filter]
  refine List.filter_congr fun y hy => ?_
  by_cases hkey : key y = k
  · simp [h y hy hkey]
  · simp [hkey]

end Table

/-!
## Tables whose rows have owners

An operation that takes a key and no more: it looks the row up, replies, and may change or delete
the row.  Some rows are the caller's own.

* `act`: the operation;
* `ActsWithin`: it replies as if the caller's own rows were all, and leaves the others as they are;
* `actsWithin_iff`: it does so if and only if the row is the caller's own or absent.
-/

namespace Table

variable {α κ β : Type*} [DecidableEq κ] (key : α → κ)

/-- What an operation does to the row that it has found. -/
inductive Change (α : Type*)
  | keep
  | update (f : α → α)
  | delete

/-- The rows after a change of the row with key `k`. -/
def Change.apply (k : κ) : Change α → List α → List α
  | .keep, rows => rows
  | .update f, rows => modify key k f rows
  | .delete, rows => erase key k rows

/-- An operation on the row with key `k`: the reply, and the rows after it. -/
def act (k : κ) (absent : β) (present : α → β × Change α) (rows : List α) : β × List α :=
  match lookup key k rows with
  | none => (absent, rows)
  | some x => ((present x).1, (present x).2.apply key k rows)

/-- The operation replies as if the rows of `own` were all, and leaves the others as they are. -/
def ActsWithin (own : α → Bool) (k : κ) (absent : β) (present : α → β × Change α)
    (rows : List α) : Prop :=
  (act key k absent present (rows.filter own)).1 = (act key k absent present rows).1 ∧
    (act key k absent present rows).2.filter (fun y => !own y) = rows.filter fun y => !own y

variable {key} {own : α → Bool} {k : κ} {absent : β} {present : α → β × Change α} {rows : List α}

theorem act_of_absent (h : lookup key k rows = none) :
    act key k absent present rows = (absent, rows) := by
  simp [act, h]

theorem act_of_present {x : α} (h : lookup key k rows = some x) :
    act key k absent present rows = ((present x).1, (present x).2.apply key k rows) := by
  simp [act, h]

theorem Change.filter_apply {c : Change α} (hown : ∀ y ∈ rows, key y = k → own y = true)
    (hkeep : ∀ f, c = .update f → ∀ y, own (f y) = own y) :
    (c.apply key k rows).filter (fun y => !own y) = rows.filter fun y => !own y := by
  cases c with
  | keep => rfl
  | update f => exact filter_modify fun y hy hk => by simp [hkeep f rfl, hown y hy hk]
  | delete => exact filter_erase fun y hy hk => by simp [hown y hy hk]

theorem actsWithin_iff (h : UniqueKeys key rows) (hne : ∀ x, (present x).1 ≠ absent)
    (hkeep : ∀ x f, (present x).2 = .update f → ∀ y, own (f y) = own y) :
    ActsWithin key own k absent present rows ↔ ∀ x ∈ rows, key x = k → own x = true := by
  unfold ActsWithin
  cases hrow : lookup key k rows with
  | none =>
    have hpart : lookup key k (rows.filter own) = none := by rw [h.lookup_filter, hrow]; rfl
    rw [act_of_absent hrow, act_of_absent hpart]
    refine iff_of_true ⟨rfl, rfl⟩ fun x hx hk => ?_
    exact absurd (hk ▸ List.mem_map_of_mem hx) (lookup_eq_none_iff.1 hrow)
  | some x =>
    obtain ⟨hx, hkey⟩ := mem_of_lookup hrow
    have honly : ∀ y ∈ rows, key y = k → y = x := fun y hy hk => h.eq hy hx (hk.trans hkey.symm)
    cases hown : own x with
    | true =>
      have hall : ∀ y ∈ rows, key y = k → own y = true := fun y hy hk => honly y hy hk ▸ hown
      have hpart : lookup key k (rows.filter own) = some x := by
        rw [h.lookup_filter, hrow, Option.filter_some, if_pos hown]
      rw [act_of_present hrow, act_of_present hpart]
      exact iff_of_true ⟨rfl, Change.filter_apply hall (hkeep x)⟩ hall
    | false =>
      have hpart : lookup key k (rows.filter own) = none := by
        rw [h.lookup_filter, hrow, Option.filter_some, if_neg (by simp [hown])]
      rw [act_of_present hrow, act_of_absent hpart]
      refine iff_of_false (fun hw => hne x hw.1.symm) fun hall => ?_
      rw [hall x hx hkey] at hown
      cases hown

theorem UniqueKeys.act (h : UniqueKeys key rows)
    (hkey : ∀ x f, (present x).2 = .update f → ∀ y, key (f y) = key y) :
    UniqueKeys key (act key k absent present rows).2 := by
  cases hrow : lookup key k rows with
  | none => rwa [act_of_absent hrow]
  | some x =>
    rw [act_of_present hrow]
    cases hc : (present x).2 with
    | keep => exact h
    | update f => exact h.modify (hkey x f hc)
    | delete => exact h.erase

end Table

/-!
## Maps in the order of their keys

A map as the list of its entries, sorted by key.

* `Sorted`: the keys rise;
* `insert`, `insertAll`: an entry, or one after the other, in the place of those with their keys;
* `mem_insert`, `mem_insertAll`: what is in the map then.
-/

namespace SortedMap

variable {κ β : Type*} [LinearOrder κ]

/-- The keys rise. -/
def Sorted (entries : List (κ × β)) : Prop := entries.Pairwise fun e e' => e.1 < e'.1

/-- An entry is put in, in the place of the one with its key. -/
def insert (new : κ × β) : List (κ × β) → List (κ × β)
  | [] => [new]
  | e :: entries =>
    if e.1 < new.1 then e :: insert new entries
    else new :: (e :: entries).filter fun e' => e'.1 ≠ new.1

/-- Entries are put in, one after the other. -/
def insertAll (entries news : List (κ × β)) : List (κ × β) :=
  news.foldl (fun entries new => insert new entries) entries

variable {entries news : List (κ × β)} {new e e' : κ × β}

theorem Sorted.nodup_keys (h : Sorted entries) : (entries.map Prod.fst).Nodup :=
  List.pairwise_map.2 (h.imp fun hlt => hlt.ne)

/-- The value of a key is determined. -/
theorem Sorted.eq (h : Sorted entries) (he : e ∈ entries) (he' : e' ∈ entries)
    (hkey : e.1 = e'.1) : e = e' :=
  List.inj_on_of_nodup_map h.nodup_keys he he' hkey

theorem mem_insert : e ∈ insert new entries ↔ e = new ∨ e ∈ entries ∧ e.1 ≠ new.1 := by
  induction entries with
  | nil => simp [insert]
  | cons d entries ih =>
    rw [insert]
    split_ifs with hlt
    · rw [List.mem_cons, ih, List.mem_cons]
      constructor
      · rintro (rfl | rfl | ⟨he, hne⟩)
        · exact .inr ⟨.inl rfl, hlt.ne⟩
        · exact .inl rfl
        · exact .inr ⟨.inr he, hne⟩
      · rintro (rfl | ⟨rfl | he, hne⟩)
        · exact .inr (.inl rfl)
        · exact .inl rfl
        · exact .inr (.inr ⟨he, hne⟩)
    · rw [List.mem_cons, List.mem_filter, decide_eq_true_iff]

theorem insertAll_append (entries news news' : List (κ × β)) :
    insertAll entries (news ++ news') = insertAll (insertAll entries news) news' :=
  List.foldl_append

/-- Entries of different keys are all put in. -/
theorem mem_insertAll (h : (news.map Prod.fst).Nodup) :
    e ∈ insertAll entries news ↔ e ∈ news ∨ e ∈ entries ∧ e.1 ∉ news.map Prod.fst := by
  induction news generalizing entries with
  | nil => simp [insertAll]
  | cons new news ih =>
    obtain ⟨hnew, hnews⟩ := List.nodup_cons.1 h
    rw [insertAll, List.foldl_cons, ← insertAll, ih hnews, mem_insert, List.map_cons, List.mem_cons,
      List.mem_cons, not_or]
    constructor
    · rintro (he | ⟨rfl | ⟨he, hne⟩, hkey⟩)
      · exact .inl (.inr he)
      · exact .inl (.inl rfl)
      · exact .inr ⟨he, hne, hkey⟩
    · rintro ((rfl | he) | ⟨he, hne, hkey⟩)
      · exact .inr ⟨.inl rfl, hnew⟩
      · exact .inl he
      · exact .inr ⟨.inr ⟨he, hne⟩, hkey⟩

end SortedMap
