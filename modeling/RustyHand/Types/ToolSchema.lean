import Mathlib.Data.String.Basic
import RustyHand.Lib.Table
import RustyHand.Types.Json

/-!
# Tool schemas for providers

`normalize_schema_for_provider` of `rusty-hand-types/src/tool.rs`.  The entries of an object are in
the order of a `BTreeMap`, which is that of their keys.

* `tryFlattenAnyOf`: an `anyOf` as a type;
* `normalizeSchemaRecursive`, `normalizeSchemaForProvider`: the function;
* `Converted`, `tryFlattenAnyOf_eq_some`: what an `anyOf` is flattened to.
-/

/-!
## Tool definitions

`rusty-hand-types/src/tool.rs`.
-/

namespace RustyHand

/-- A tool as it is offered to the model. -/
structure ToolDefinition where
  name : String
  description : String
  inputSchema : Json

end RustyHand

namespace RustyHand
namespace ToolSchema

open SortedMap

/-- What the loop over the variants has seen: `types`, `has_null`, `non_null_type`. -/
structure Seen where
  types : List String := []
  hasNull : Bool := false
  nonNullType : Option String := none

/-- `obj.get("type")?.as_str()?`. -/
def typeOf (item : Json) : Option String := (item.get "type").bind Json.asStr

/-- One variant. -/
def see (seen : Seen) (item : Json) : Option Seen :=
  (typeOf item).map fun typeVal =>
    if typeVal = "null" then { seen with hasNull := true }
    else { seen with types := seen.types ++ [typeVal], nonNullType := some typeVal }

/-- `try_flatten_any_of`. -/
def tryFlattenAnyOf (anyOf : Json) : Option (List (String × Json)) := do
  let items ← anyOf.asArray
  if items.isEmpty then none
  else
    let seen ← items.foldlM see {}
    if seen.hasNull ∧ seen.types.length = 1 then
      let nonNullType ← seen.nonNullType
      some [("type", .string nonNullType), ("nullable", .bool true)]
    else if seen.types.length = items.length ∧ 1 < seen.types.length then
      some [("type", .array (seen.types.map .string))]
    else none

/-- What `anyOf` is converted to, if the key is this one. -/
def converted? (key : String) (value : Json) : Option (List (String × Json)) :=
  if key = "anyOf" then tryFlattenAnyOf value else none

mutual

/-- `normalize_schema_recursive`. -/
def normalizeSchemaRecursive : Json → Json
  | .object obj => .object (insertAll [] (inserts obj))
  | schema => schema

/-- What the loop over the keys puts into the result. -/
def inserts : List (String × Json) → List (String × Json)
  | [] => []
  | (key, value) :: obj =>
    (if key = "$schema" then []
      else match converted? key value with
        | some converted => converted
        | none =>
          if key = "properties" then
            match value with
            | .object props => [(key, .object (insertAll [] (newProps props)))]
            | value => [(key, value)]
          else if key = "items" then [(key, normalizeSchemaRecursive value)]
          else [(key, value)]) ++ inserts obj

/-- What the loop over the properties puts into their map. -/
def newProps : List (String × Json) → List (String × Json)
  | [] => []
  | (propName, propSchema) :: props =>
    (propName, normalizeSchemaRecursive propSchema) :: newProps props

end

/-- `normalize_schema_for_provider`. -/
def normalizeSchemaForProvider (schema : Json) (provider : String) : Json :=
  if provider = "anthropic" then schema else normalizeSchemaRecursive schema

variable {value : Json} {key : String} {converted obj : List (String × Json)} {seen seen' : Seen}
  {items : List Json} {e : String × Json}

/-! ### Flattening -/

theorem foldlM_see (h : items.foldlM see seen = some seen')
    (hlast : seen.nonNullType = seen.types.getLast?) :
    ∃ ts : List String, items.map typeOf = ts.map some ∧
      seen'.types = seen.types ++ ts.filter (· ≠ "null") ∧
      (seen'.hasNull = true ↔ seen.hasNull = true ∨ "null" ∈ ts) ∧
      seen'.nonNullType = seen'.types.getLast? := by
  induction items generalizing seen with
  | nil =>
    obtain rfl := Option.some.inj h
    exact ⟨[], rfl, (List.append_nil _).symm, by simp, hlast⟩
  | cons item items ih =>
    rw [List.foldlM_cons] at h
    obtain ⟨next, hnext, h⟩ := Option.bind_eq_some_iff.1 h
    obtain ⟨typeVal, htype, rfl⟩ := Option.map_eq_some_iff.1 hnext
    split_ifs at h with hnull
    · obtain ⟨ts, hts, htypes, hseen, hget⟩ := ih h hlast
      refine ⟨typeVal :: ts, by rw [List.map_cons, htype, hts, List.map_cons], ?_, ?_, hget⟩
      · simpa [hnull] using htypes
      · simp [hseen, hnull]
    · obtain ⟨ts, hts, htypes, hseen, hget⟩ := ih h (by simp)
      refine ⟨typeVal :: ts, by rw [List.map_cons, htype, hts, List.map_cons], ?_, ?_, hget⟩
      · simpa [hnull] using htypes
      · simp [hseen, Ne.symm hnull]

/-- An `anyOf` that is flattened: all variants have a type, and it is that of all but the nulls, or
the list of all types. -/
inductive Converted (branches : List Json) : List (String × Json) → Prop
  | nullable {ts : List String} {t : String} : branches.map typeOf = ts.map some → "null" ∈ ts →
      ts.filter (· ≠ "null") = [t] →
      Converted branches [("type", .string t), ("nullable", .bool true)]
  | union {ts : List String} : branches.map typeOf = ts.map some → "null" ∉ ts →
      Converted branches [("type", .array (ts.map .string))]

theorem tryFlattenAnyOf_eq_some (h : tryFlattenAnyOf value = some converted) :
    ∃ branches, value = .array branches ∧ Converted branches converted := by
  obtain ⟨branches, hvalue, h⟩ := Option.bind_eq_some_iff.1 h
  have harray : value = .array branches := by
    cases value <;> cases hvalue
    rfl
  refine ⟨branches, harray, ?_⟩
  split_ifs at h with hempty
  obtain ⟨seen, hseen, h⟩ := Option.bind_eq_some_iff.1 h
  obtain ⟨ts, hts, htypes, hnull, hlast⟩ := foldlM_see hseen rfl
  simp only [List.nil_append, Bool.false_eq_true, false_or] at htypes hnull
  split_ifs at h with hone hall
  · obtain ⟨t, ht⟩ := List.length_eq_one_iff.1 hone.2
    rw [hlast, ht] at h
    obtain rfl := Option.some.inj h
    exact .nullable hts (hnull.1 hone.1) (htypes.symm.trans ht)
  · obtain rfl := Option.some.inj h
    have hlength : ts.length = branches.length := by
      simpa using (congrArg List.length hts).symm
    have hkeep : ts.filter (· ≠ "null") = ts :=
      List.filter_sublist.eq_of_length (by rw [← htypes, hall.1, hlength])
    rw [htypes, hkeep]
    refine .union hts fun hmem => ?_
    rw [← hkeep] at hmem
    simpa using (List.mem_filter.1 hmem).2

theorem Converted.keys {branches : List Json} (h : Converted branches converted) :
    ∀ e ∈ converted, e.1 = "type" ∨ e.1 = "nullable" := by
  cases h <;> simp

theorem Converted.nodup_keys {branches : List Json} (h : Converted branches converted) :
    (converted.map Prod.fst).Nodup := by
  cases h <;> simp

/-! ### The result -/

/-- What is put in for a key that is kept. -/
def normalizeKeyword (key : String) (value : Json) : Json :=
  if key = "properties" then
    match value with
    | .object props =>
      .object (insertAll [] (props.map fun e => (e.1, normalizeSchemaRecursive e.2)))
    | value => value
  else if key = "items" then normalizeSchemaRecursive value
  else value

theorem newProps_eq_map (props : List (String × Json)) :
    newProps props = props.map fun e => (e.1, normalizeSchemaRecursive e.2) := by
  induction props with
  | nil => rfl
  | cons e props ih => rw [newProps, ih, List.map_cons]

theorem inserts_cons (key : String) (value : Json) (obj : List (String × Json)) :
    inserts ((key, value) :: obj) =
      (if key = "$schema" then []
        else (converted? key value).getD [(key, normalizeKeyword key value)]) ++ inserts obj := by
  cases value <;>
  · simp only [inserts, normalizeKeyword, newProps_eq_map]
    cases converted? key _ <;> split_ifs <;> rfl

theorem inserts_append (obj obj' : List (String × Json)) :
    inserts (obj ++ obj') = inserts obj ++ inserts obj' := by
  induction obj with
  | nil => rfl
  | cons e obj ih =>
    obtain ⟨key, value⟩ := e
    rw [List.cons_append, inserts_cons, inserts_cons, ih, List.append_assoc]

/-- The entries that are kept, with their new values. -/
def kept (obj : List (String × Json)) : List (String × Json) :=
  (obj.filter fun e => e.1 ≠ "$schema").map fun e => (e.1, normalizeKeyword e.1 e.2)

theorem inserts_eq_kept (h : ∀ e ∈ obj, converted? e.1 e.2 = none) : inserts obj = kept obj := by
  induction obj with
  | nil => rfl
  | cons e obj ih =>
    obtain ⟨key, value⟩ := e
    obtain ⟨he, hobj⟩ := List.forall_mem_cons.1 h
    rw [inserts_cons, he, ih hobj, kept, kept, List.filter_cons]
    by_cases hschema : key = "$schema"
    · simp [hschema]
    · simp [hschema]

theorem mem_kept : e ∈ kept obj ↔
    ∃ d ∈ obj, d.1 ≠ "$schema" ∧ (d.1, normalizeKeyword d.1 d.2) = e := by
  simp only [kept, List.mem_map, List.mem_filter, decide_eq_true_iff, and_assoc]

theorem key_mem_of_mem_kept (h : e ∈ kept obj) : ∃ d ∈ obj, d.1 = e.1 := by
  obtain ⟨d, hd, -, rfl⟩ := mem_kept.1 h
  exact ⟨d, hd, rfl⟩

theorem nodup_keys_kept (h : Sorted obj) : ((kept obj).map Prod.fst).Nodup := by
  rw [kept, List.map_map]
  exact Sorted.nodup_keys (h.filter _)

theorem converted?_of_ne (h : key ≠ "anyOf") : converted? key value = none := if_neg h

theorem converted?_anyOf : converted? "anyOf" value = tryFlattenAnyOf value := if_pos rfl

/-- `anyOf` is visited before the keys that it is converted to, so that these keep what the schema
has for them. -/
theorem mem_normalized_append {pre post : List (String × Json)}
    (h : Sorted (pre ++ ("anyOf", value) :: post))
    (hconverted : tryFlattenAnyOf value = some converted) :
    e ∈ insertAll [] (inserts (pre ++ ("anyOf", value) :: post)) ↔
      e ∈ kept pre ∨ e ∈ kept post ∨
        e ∈ converted ∧ ∀ d ∈ pre ++ ("anyOf", value) :: post, d.1 ≠ e.1 := by
  obtain ⟨branches, -, hbranches⟩ := tryFlattenAnyOf_eq_some hconverted
  obtain ⟨hpre, hrest, hbefore⟩ := List.pairwise_append.1 h
  obtain ⟨hafter, hpost⟩ := List.pairwise_cons.1 hrest
  replace hbefore : ∀ d ∈ pre, d.1 < "anyOf" := fun d hd => hbefore d hd _ List.mem_cons_self
  have hkeys : ∀ d ∈ converted, "anyOf" < d.1 := fun d hd => by
    rcases hbranches.keys d hd with hkey | hkey <;> rw [hkey] <;> decide
  have hinserts : inserts (pre ++ ("anyOf", value) :: post) =
      kept pre ++ (converted ++ kept post) := by
    rw [inserts_append, inserts_cons, if_neg (by decide), converted?_anyOf, hconverted,
      Option.getD_some, inserts_eq_kept fun d hd => converted?_of_ne (hbefore d hd).ne,
      inserts_eq_kept fun d hd => converted?_of_ne (hafter d hd).ne']
  have hpost_mem : ∀ d ∈ post, "anyOf" < d.1 := hafter
  rw [hinserts, insertAll_append, insertAll_append, mem_insertAll (nodup_keys_kept hpost),
    mem_insertAll hbranches.nodup_keys, mem_insertAll (nodup_keys_kept hpre)]
  simp only [List.mem_map, not_exists, not_and, List.not_mem_nil, false_and, or_false]
  constructor
  · rintro (he | ⟨he | ⟨he, -⟩, hother⟩)
    · exact .inr (.inl he)
    · refine .inr (.inr ⟨he, List.forall_mem_append.2 ⟨fun d hd => ?_, List.forall_mem_cons.2
        ⟨(hkeys e he).ne, fun d hd hkey => ?_⟩⟩⟩)
      · exact ((hbefore d hd).trans (hkeys e he)).ne
      · have hschema : d.1 ≠ "$schema" := fun hschema =>
          absurd (hpost_mem d hd) (by rw [hschema]; decide)
        exact hother _ (mem_kept.2 ⟨d, hd, hschema, rfl⟩) hkey
    · exact .inl he
  · rintro (he | he | ⟨he, hother⟩)
    · obtain ⟨d, hd, hkey⟩ := key_mem_of_mem_kept he
      have hlt : e.1 < "anyOf" := hkey ▸ hbefore d hd
      refine .inr ⟨.inr ⟨he, fun x hx => ((hlt.trans (hkeys x hx)).ne')⟩, fun x hx => ?_⟩
      obtain ⟨d', hd', hkey'⟩ := key_mem_of_mem_kept hx
      exact (hlt.trans (hkey' ▸ hpost_mem d' hd')).ne'
    · exact .inl he
    · refine .inr ⟨.inl he, fun x hx => ?_⟩
      obtain ⟨d, hd, hkey⟩ := key_mem_of_mem_kept hx
      rw [← hkey]
      exact hother d (List.mem_append_right _ (List.mem_cons_of_mem _ hd))

/-- No entry is converted, or it is `anyOf`. -/
theorem converted?_cases (obj : List (String × Json)) :
    (∀ d ∈ obj, converted? d.1 d.2 = none) ∨
      ∃ value converted, ("anyOf", value) ∈ obj ∧ tryFlattenAnyOf value = some converted := by
  by_cases hsome : ∃ value converted, ("anyOf", value) ∈ obj ∧
      tryFlattenAnyOf value = some converted
  · exact .inr hsome
  · refine .inl fun d hd => ?_
    obtain ⟨key, value⟩ := d
    by_cases hkey : key = "anyOf"
    · subst hkey
      refine Option.eq_none_iff_forall_ne_some.2 fun converted hconverted => ?_
      rw [converted?_anyOf] at hconverted
      exact hsome ⟨value, converted, hd, hconverted⟩
    · exact converted?_of_ne hkey

/-- The entries of a normalized schema: those that are kept, and those of a flattened `anyOf` for
which the schema has none of its own. -/
theorem mem_normalized (h : Sorted obj) : e ∈ insertAll [] (inserts obj) ↔
    (∃ d ∈ obj, d.1 ≠ "$schema" ∧ converted? d.1 d.2 = none ∧
      (d.1, normalizeKeyword d.1 d.2) = e) ∨
    ∃ value converted, ("anyOf", value) ∈ obj ∧ tryFlattenAnyOf value = some converted ∧
      e ∈ converted ∧ ∀ d ∈ obj, d.1 ≠ e.1 := by
  rcases converted?_cases obj with hnone | ⟨value, converted, hvalue, hconverted⟩
  · rw [inserts_eq_kept hnone, mem_insertAll (nodup_keys_kept h), mem_kept]
    constructor
    · rintro (⟨d, hd, hschema, he⟩ | ⟨he, -⟩)
      · exact .inl ⟨d, hd, hschema, hnone d hd, he⟩
      · exact absurd he List.not_mem_nil
    · rintro (⟨d, hd, hschema, -, he⟩ | ⟨value, converted, hvalue, hconverted, -⟩)
      · exact .inl ⟨d, hd, hschema, he⟩
      · have hsome := hnone _ hvalue
        rw [converted?_anyOf, hconverted] at hsome
        cases hsome
  · obtain ⟨pre, post, rfl⟩ := List.append_of_mem hvalue
    obtain ⟨-, hrest, hbefore⟩ := List.pairwise_append.1 h
    obtain ⟨hafter, -⟩ := List.pairwise_cons.1 hrest
    rw [mem_normalized_append h hconverted, mem_kept, mem_kept]
    constructor
    · rintro (⟨d, hd, hschema, he⟩ | ⟨d, hd, hschema, he⟩ | ⟨he, hother⟩)
      · exact .inl ⟨d, List.mem_append_left _ hd, hschema,
          converted?_of_ne (hbefore d hd _ List.mem_cons_self).ne, he⟩
      · exact .inl ⟨d, List.mem_append_right _ (List.mem_cons_of_mem _ hd), hschema,
          converted?_of_ne (hafter d hd).ne', he⟩
      · exact .inr ⟨value, converted, hvalue, hconverted, he, hother⟩
    · rintro (⟨d, hd, hschema, hnone, he⟩ | ⟨value', converted', hvalue', hconverted', he, hother⟩)
      · rcases List.mem_append.1 hd with hd | hd
        · exact .inl ⟨d, hd, hschema, he⟩
        · rcases List.mem_cons.1 hd with rfl | hd
          · rw [converted?_anyOf, hconverted] at hnone
            cases hnone
          · exact .inr (.inl ⟨d, hd, hschema, he⟩)
      · rw [(Prod.mk.inj (h.eq hvalue' hvalue rfl)).2, hconverted] at hconverted'
        obtain rfl := Option.some.inj hconverted'
        exact .inr (.inr ⟨he, hother⟩)

end ToolSchema
end RustyHand
