import Mathlib.Data.List.Basic
import Mathlib.Data.List.Infix
import Mathlib.Data.List.Nodup

/-!
# TOML values, one over another

`deep_merge_toml` of `rusty-hand-kernel/src/config.rs`, by what is at every path of keys.

* `Toml`, `Proper`: a value, and one whose tables have distinct keys, as maps have;
* `shapeAt`: what is at a path of keys; `View`: the same of any values;
* `View.over`: a view over another;
* `shapeAt_deepMerge`: the deep merge is one over the other.
-/

namespace RustyHand
namespace Config

/-- `toml::Value`. -/
inductive Toml
  | string (s : String)
  | integer (n : Int)
  | float (repr : String)
  | boolean (b : Bool)
  | datetime (repr : String)
  | array (items : List Toml)
  | table (entries : List (String × Toml))

/-- An entry goes over those of a table: `merge` is for a key that is there already. -/
def upsert {α : Type} (key : String) (v : α) (merge : α → α) :
    List (String × α) → List (String × α)
  | [] => [(key, v)]
  | (k, b) :: rest => if k = key then (k, merge b) :: rest else (k, b) :: upsert key v merge rest

mutual

/-- `deep_merge_toml`. -/
def deepMerge (base : Toml) : Toml → Toml
  | .table overlay =>
    match base with
    | .table entries => .table (mergeEntries entries overlay)
    | _ => .table overlay
  | overlay => overlay

/-- The entries of an overlay, in order. -/
def mergeEntries (base : List (String × Toml)) : List (String × Toml) → List (String × Toml)
  | [] => base
  | (key, v) :: rest => mergeEntries (upsert key v (fun b => deepMerge b v) base) rest

end

mutual

/-- The keys of every table are distinct. -/
def Proper : Toml → Prop
  | .table entries => (entries.map Prod.fst).Nodup ∧ ProperEntries entries
  | _ => True

/-- The same of the values of a table. -/
def ProperEntries : List (String × Toml) → Prop
  | [] => True
  | (_, v) :: rest => Proper v ∧ ProperEntries rest

end

/-- A value as it is read from a text: its tables are maps. -/
def Document : Type := { v : Toml // Proper v }

/-! ### Views -/

/-- A table, or a value that is none. -/
inductive Shape
  | table
  | leaf (v : Toml)

/-- The shape of a value. -/
def shape : Toml → Shape
  | .table _ => .table
  | v => .leaf v

/-- What is at the paths of keys. -/
abbrev View : Type := List String → Option Shape

/-- What is at a path of keys in a value. -/
def shapeAt (v : Toml) : View
  | [] => some (shape v)
  | k :: path =>
    match v with
    | .table entries => (entries.lookup k).bind fun w => shapeAt w path
    | _ => none

/-- A value that is no table is on the way to the path. -/
def View.Blocks (view : View) (path : List String) : Prop :=
  ∃ front v, front <+: path ∧ front ≠ path ∧ view front = some (.leaf v)

open Classical in
/-- A view over another: what is under a value that is no table does not show. -/
noncomputable def View.over (overlay base : View) : View := fun path =>
  (overlay path).or (if overlay.Blocks path then none else base path)

/-- Nothing but a table without entries. -/
def View.empty : View
  | [] => some .table
  | _ :: _ => none

/-! ### Entries -/

theorem lookup_upsert {α : Type} (key : String) (v : α) (merge : α → α)
    (entries : List (String × α)) (k : String) :
    (upsert key v merge entries).lookup k =
      if k = key then some (((entries.lookup key).map merge).getD v) else entries.lookup k := by
  induction entries with
  | nil =>
    by_cases hk : k = key
    · simp [upsert, hk]
    · simp [upsert, List.lookup_cons, hk, beq_eq_false_iff_ne.2 hk]
  | cons e entries ih =>
    obtain ⟨k', b⟩ := e
    rw [upsert]
    by_cases hkey : k' = key
    · subst hkey
      rw [if_pos rfl]
      by_cases hk : k = k'
      · simp [hk]
      · simp [List.lookup_cons, hk, beq_eq_false_iff_ne.2 hk]
    · rw [if_neg hkey]
      by_cases hk : k = k'
      · subst hk
        rw [List.lookup_cons_self, if_neg hkey, List.lookup_cons_self]
      · have hbeq : (k == k') = false := beq_eq_false_iff_ne.2 hk
        have hbeq' : (key == k') = false := beq_eq_false_iff_ne.2 (Ne.symm hkey)
        simp only [List.lookup_cons, hbeq, hbeq', ih]

/-- The keys after an entry has gone over others. -/
theorem keys_upsert {α : Type} (key : String) (v : α) (merge : α → α)
    (entries : List (String × α)) :
    (upsert key v merge entries).map Prod.fst =
      if key ∈ entries.map Prod.fst then entries.map Prod.fst
      else entries.map Prod.fst ++ [key] := by
  induction entries with
  | nil => rfl
  | cons e entries ih =>
    obtain ⟨k', b⟩ := e
    rw [upsert]
    by_cases hkey : k' = key
    · subst hkey
      simp
    · rw [if_neg hkey, List.map_cons, ih]
      have hmem : key ∈ ((k', b) :: entries).map Prod.fst ↔ key ∈ entries.map Prod.fst := by
        simp [Ne.symm hkey]
      by_cases hin : key ∈ entries.map Prod.fst
      · rw [if_pos hin, if_pos (hmem.2 hin)]
        rfl
      · rw [if_neg hin, if_neg (mt hmem.1 hin)]
        rfl

theorem nodup_upsert {α : Type} {key : String} {v : α} {merge : α → α}
    {entries : List (String × α)} (h : (entries.map Prod.fst).Nodup) :
    ((upsert key v merge entries).map Prod.fst).Nodup := by
  rw [keys_upsert]
  split_ifs with hin
  · exact h
  · refine List.nodup_append.2 ⟨h, List.nodup_singleton _, ?_⟩
    rintro k hk k' hk' rfl
    obtain rfl := List.mem_singleton.1 hk'
    exact hin hk

/-- Every key of the overlay goes over the base once. -/
theorem lookup_mergeEntries (base : List (String × Toml)) {overlay : List (String × Toml)}
    (h : (overlay.map Prod.fst).Nodup) (k : String) :
    (mergeEntries base overlay).lookup k =
      match overlay.lookup k with
      | none => base.lookup k
      | some v => some (((base.lookup k).map fun b => deepMerge b v).getD v) := by
  induction overlay generalizing base with
  | nil => rfl
  | cons e overlay ih =>
    obtain ⟨key, v⟩ := e
    rw [List.map_cons, List.nodup_cons] at h
    rw [mergeEntries, ih _ h.2, lookup_upsert]
    by_cases hk : k = key
    · subst hk
      have hnone : overlay.lookup k = none := by
        rw [List.lookup_eq_none_iff]
        intro e he
        rw [bne_iff_ne]
        intro hk
        exact h.1 (List.mem_map.2 ⟨e, he, hk.symm⟩)
      rw [hnone, List.lookup_cons_self, if_pos rfl]
    · have hbeq : (k == key) = false := beq_eq_false_iff_ne.2 hk
      simp only [List.lookup_cons, hbeq, if_neg hk]

theorem proper_lookup {entries : List (String × Toml)} (h : ProperEntries entries) {k : String}
    {v : Toml} (hv : entries.lookup k = some v) : Proper v := by
  induction entries with
  | nil => exact nomatch hv
  | cons e entries ih =>
    obtain ⟨k', w⟩ := e
    obtain ⟨hw, hrest⟩ := h
    rw [List.lookup_cons] at hv
    split at hv
    · obtain rfl := Option.some.inj hv
      exact hw
    · exact ih hrest hv

/-! ### The deep merge -/

theorem shapeAt_cons (entries : List (String × Toml)) (k : String) (path : List String) :
    shapeAt (.table entries) (k :: path) =
      (entries.lookup k).bind fun w => shapeAt w path := rfl

/-- Under a value that is no table there is nothing else. -/
theorem blocks_of_leaf {view : View} {v : Toml} (h : view [] = some (.leaf v)) (k : String)
    (path : List String) : view.Blocks (k :: path) :=
  ⟨[], v, List.nil_prefix, List.cons_ne_nil _ _ ∘ Eq.symm, h⟩

theorem blocks_cons {entries : List (String × Toml)} {k : String} {path : List String} :
    (shapeAt (.table entries)).Blocks (k :: path) ↔
      ∃ w, entries.lookup k = some w ∧ (shapeAt w).Blocks path := by
  constructor
  · rintro ⟨front, v, hprefix, hne, hfront⟩
    cases front with
    | nil => exact nomatch Option.some.inj hfront
    | cons k' front =>
      obtain ⟨rfl, hfront'⟩ := List.cons_prefix_cons.1 hprefix
      obtain ⟨w, hw, hfront⟩ := Option.bind_eq_some_iff.1 hfront
      exact ⟨w, hw, front, v, hfront', fun h => hne (h ▸ rfl), hfront⟩
  · rintro ⟨w, hw, front, v, hprefix, hne, hfront⟩
    refine ⟨k :: front, v, List.cons_prefix_cons.2 ⟨rfl, hprefix⟩, ?_, ?_⟩
    · exact fun h => hne (List.cons.inj h).2
    · rw [shapeAt_cons, hw]
      exact hfront

/-- What `deep_merge_toml` makes of two values is one over the other. -/
theorem shapeAt_deepMerge {base overlay : Toml} (h : Proper overlay) :
    shapeAt (deepMerge base overlay) = (shapeAt overlay).over (shapeAt base) := by
  funext path
  induction path generalizing base overlay with
  | nil =>
    rw [View.over, shapeAt, shapeAt, Option.some_or]
    cases overlay <;> cases base <;> rfl
  | cons k path ih =>
    cases overlay with
    | table overlay =>
      obtain ⟨hnodup, hentries⟩ := h
      rw [View.over]
      cases base with
      | table entries =>
        rw [deepMerge, shapeAt_cons, shapeAt_cons, shapeAt_cons, lookup_mergeEntries entries hnodup]
        cases hv : overlay.lookup k with
        | none =>
          have hfree : ¬ (shapeAt (.table overlay)).Blocks (k :: path) := by
            rw [blocks_cons, hv]
            rintro ⟨w, hw, -⟩
            exact nomatch hw
          rw [if_neg hfree]
          rfl
        | some v =>
          have hblocks : (shapeAt (.table overlay)).Blocks (k :: path) ↔
              (shapeAt v).Blocks path := by
            rw [blocks_cons, hv]
            simp
          cases entries.lookup k with
          | none => simp
          | some b =>
            dsimp only [Option.map_some, Option.getD_some, Option.bind_some]
            rw [ih (proper_lookup hentries hv), View.over]
            by_cases hb : (shapeAt v).Blocks path
            · rw [if_pos hb, if_pos (hblocks.2 hb)]
            · rw [if_neg hb, if_neg (mt hblocks.1 hb)]
      | _ =>
        simp [deepMerge, shapeAt]
    | _ =>
      rw [View.over, if_pos (blocks_of_leaf rfl k path)]
      rfl

/-- What is not a table, or a table, over nothing. -/
theorem over_empty (v : Toml) : (shapeAt v).over View.empty = shapeAt v := by
  funext path
  cases path with
  | nil => rfl
  | cons k path =>
    have hnone : View.empty (k :: path) = none := rfl
    rw [View.over, hnone, ite_self, Option.or_none]

/-! ### Tables stay maps -/

theorem properEntries_upsert {key : String} {v : Toml} {merge : Toml → Toml} (hv : Proper v)
    (hmerge : ∀ b, Proper b → Proper (merge b)) {entries : List (String × Toml)}
    (h : ProperEntries entries) : ProperEntries (upsert key v merge entries) := by
  induction entries with
  | nil => exact ⟨hv, trivial⟩
  | cons e entries ih =>
    obtain ⟨hb, hrest⟩ := h
    rw [upsert]
    split_ifs
    · exact ⟨hmerge _ hb, hrest⟩
    · exact ⟨hb, ih hrest⟩

mutual

theorem proper_deepMerge {base : Toml} (hbase : Proper base) :
    ∀ {overlay : Toml}, Proper overlay → Proper (deepMerge base overlay)
  | .table overlay, h => by
    cases base with
    | table entries =>
      exact proper_mergeEntries hbase.1 hbase.2 h.2
    | _ => exact h
  | .string _, _ | .integer _, _ | .float _, _ | .boolean _, _ | .datetime _, _ | .array _, _ =>
    trivial

theorem proper_mergeEntries {base : List (String × Toml)} (hnodup : (base.map Prod.fst).Nodup)
    (hbase : ProperEntries base) :
    ∀ {overlay : List (String × Toml)}, ProperEntries overlay →
      Proper (.table (mergeEntries base overlay))
  | [], _ => ⟨hnodup, hbase⟩
  | (_, _) :: _, h => by
    rw [mergeEntries]
    exact proper_mergeEntries (nodup_upsert hnodup)
      (properEntries_upsert h.1 (fun _ hb => proper_deepMerge hb h.1) hbase) h.2

end

end Config
end RustyHand
