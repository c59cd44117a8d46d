import RustyHand.Types.ToolSchema

/-!
# What normalized tool schemas accept

The values that a schema accepts, for the keywords `type`, `enum`, `properties`, `required`, `items`
and `anyOf`, and `nullable`.  Whether a number counts as an integer is a parameter.

* `Accepts`: the meaning of a schema; `IsSchema`: schemas of these keywords;
* `Throughout`: a condition on each part of a schema with the value that it is applied to;
* `Loose`, `Spared`: what a part asks for when its `anyOf` is flattened, and what it does not;
* `accepts_normalized_iff`: a normalized schema means `Loose`;
* `normalized_accepts_iff`.
-/

namespace RustyHand
namespace ToolSchema

open SortedMap

/-! ### Schemas and their values -/

/-- The type of a value. -/
def kind : Json → String
  | .null => "null"
  | .bool _ => "boolean"
  | .number _ => "number"
  | .string _ => "string"
  | .array _ => "array"
  | .object _ => "object"

section Meaning

variable (isInteger : String → Prop)

/-- A value is of a type. -/
def HasType (t : String) (v : Json) : Prop :=
  t = kind v ∨ t = "integer" ∧ ∃ repr, v = .number repr ∧ isInteger repr

/-- `type`. -/
def HasTypes (types v : Json) : Prop :=
  (∃ t, types = .string t ∧ HasType isInteger t v) ∨
    ∃ ts t, types = .array ts ∧ .string t ∈ ts ∧ HasType isInteger t v

/-- `required`. -/
def HasKeys (keys v : Json) : Prop :=
  ∀ ks entries, keys = .array ks → v = .object entries →
    ∀ k, .string k ∈ ks → ∃ w, (k, w) ∈ entries

mutual

/-- A schema accepts a value; `nullable` admits null besides. -/
def Accepts : Json → Json → Prop
  | .object keywords, v => ("nullable", .bool true) ∈ keywords ∧ v = .null ∨ AcceptsAll keywords v
  | _, _ => True

/-- All keywords of a schema admit a value. -/
def AcceptsAll : List (String × Json) → Json → Prop
  | [], _ => True
  | (key, value) :: keywords, v =>
    (if key = "type" then HasTypes isInteger value v
      else if key = "enum" then ∃ vs, value = .array vs ∧ v ∈ vs
      else if key = "required" then HasKeys value v
      else if key = "properties" then
        match value with
        | .object props => AcceptsEach props v
        | _ => True
      else if key = "items" then ∀ ws, v = .array ws → ∀ w ∈ ws, Accepts value w
      else if key = "anyOf" then
        match value with
        | .array branches => AcceptsSome branches v
        | _ => True
      else True) ∧ AcceptsAll keywords v

/-- The properties of an object are accepted. -/
def AcceptsEach : List (String × Json) → Json → Prop
  | [], _ => True
  | (name, schema) :: props, v =>
    (∀ w, v.get name = some w → Accepts schema w) ∧ AcceptsEach props v

/-- One of the variants accepts a value. -/
def AcceptsSome : List Json → Json → Prop
  | [], _ => False
  | schema :: branches, v => Accepts schema v ∨ AcceptsSome branches v

end

end Meaning

/-- The keywords of a schema. -/
def keywordNames : List String :=
  ["$schema", "anyOf", "enum", "items", "properties", "required", "type"]

/-- A schema that is built from these keywords. -/
inductive IsSchema : Json → Prop
  | object {keywords : List (String × Json)} (sorted : Sorted keywords)
      (keys : ∀ e ∈ keywords, e.1 ∈ keywordNames)
      (props : ∀ ps, ("properties", .object ps) ∈ keywords → Sorted ps)
      (property : ∀ ps e, ("properties", .object ps) ∈ keywords → e ∈ ps → IsSchema e.2)
      (items : ∀ schema, ("items", schema) ∈ keywords → IsSchema schema)
      (branch : ∀ branches schema, ("anyOf", .array branches) ∈ keywords → schema ∈ branches →
        IsSchema schema) :
      IsSchema (.object keywords)

variable {isInteger : String → Prop} {keywords : List (String × Json)} {schema v : Json}

/-! ### Keywords -/

theorem acceptsSome_iff {branches : List Json} :
    AcceptsSome isInteger branches v ↔ ∃ b ∈ branches, Accepts isInteger b v := by
  induction branches with
  | nil => simp [AcceptsSome]
  | cons b branches ih => rw [AcceptsSome, ih, List.exists_mem_cons_iff]

theorem acceptsEach_iff {props : List (String × Json)} :
    AcceptsEach isInteger props v ↔
      ∀ e ∈ props, ∀ w, v.get e.1 = some w → Accepts isInteger e.2 w := by
  induction props with
  | nil => simp [AcceptsEach]
  | cons e props ih => rw [AcceptsEach, ih, List.forall_mem_cons]

/-- What a schema asks for but by its properties and items. -/
structure Strict (isInteger : String → Prop) (keywords : List (String × Json)) (v : Json) :
    Prop where
  types : ∀ value, ("type", value) ∈ keywords → HasTypes isInteger value v
  enum : ∀ value, ("enum", value) ∈ keywords → ∃ vs, value = .array vs ∧ v ∈ vs
  required : ∀ value, ("required", value) ∈ keywords → HasKeys value v
  anyOf : ∀ branches, ("anyOf", .array branches) ∈ keywords →
    ∃ b ∈ branches, Accepts isInteger b v

/-- The properties and items of a value, with their schemas, are related. -/
structure Nested (keywords : List (String × Json)) (v : Json) (rel : Json → Json → Prop) :
    Prop where
  property : ∀ ps e w, ("properties", .object ps) ∈ keywords → e ∈ ps → v.get e.1 = some w →
    rel e.2 w
  items : ∀ schema ws w, ("items", schema) ∈ keywords → v = .array ws → w ∈ ws → rel schema w

/-- One keyword. -/
def KeywordHolds (isInteger : String → Prop) (key : String) (value v : Json) : Prop :=
  if key = "type" then HasTypes isInteger value v
  else if key = "enum" then ∃ vs, value = .array vs ∧ v ∈ vs
  else if key = "required" then HasKeys value v
  else if key = "properties" then
    ∀ ps, value = .object ps → ∀ e ∈ ps, ∀ w, v.get e.1 = some w → Accepts isInteger e.2 w
  else if key = "items" then ∀ ws, v = .array ws → ∀ w ∈ ws, Accepts isInteger value w
  else if key = "anyOf" then
    ∀ branches, value = .array branches → ∃ b ∈ branches, Accepts isInteger b v
  else True

theorem acceptsAll_iff_keywordHolds :
    AcceptsAll isInteger keywords v ↔ ∀ e ∈ keywords, KeywordHolds isInteger e.1 e.2 v := by
  induction keywords with
  | nil => simp [AcceptsAll]
  | cons e keywords ih =>
    obtain ⟨key, value⟩ := e
    rw [List.forall_mem_cons, ← ih]
    cases value <;> simp [AcceptsAll, KeywordHolds, acceptsEach_iff, acceptsSome_iff]

theorem acceptsAll_iff : AcceptsAll isInteger keywords v ↔
    Strict isInteger keywords v ∧ Nested keywords v (Accepts isInteger) := by
  rw [acceptsAll_iff_keywordHolds]
  constructor
  · intro h
    refine ⟨⟨fun value hmem => ?_, fun value hmem => ?_, fun value hmem => ?_, fun bs hmem => ?_⟩,
      fun ps e w hmem he hw => ?_, fun schema ws w hmem hv hw => ?_⟩
    · simpa [KeywordHolds] using h _ hmem
    · simpa [KeywordHolds] using h _ hmem
    · simpa [KeywordHolds] using h _ hmem
    · simpa [KeywordHolds] using h _ hmem
    · have hps := h _ hmem
      simp only [KeywordHolds, String.reduceEq, if_false, if_true] at hps
      exact hps ps rfl e he w hw
    · have hitems := h _ hmem
      simp only [KeywordHolds, String.reduceEq, if_false, if_true] at hitems
      exact hitems ws hv w hw
  · rintro ⟨h, hnested⟩ ⟨key, value⟩ hmem
    rw [KeywordHolds]
    split_ifs with htype henum hrequired hprops hitems hanyOf
    · exact h.types _ (htype ▸ hmem)
    · exact h.enum _ (henum ▸ hmem)
    · exact h.required _ (hrequired ▸ hmem)
    · rintro ps rfl e he w hw
      exact hnested.property ps e w (hprops ▸ hmem) he hw
    · exact fun ws hv w hw => hnested.items value ws w (hitems ▸ hmem) hv hw
    · rintro branches rfl
      exact h.anyOf branches (hanyOf ▸ hmem)

/-! ### The parts of a schema -/

/-- A condition on each part of a schema with the value that it is applied to. -/
inductive Throughout (here : List (String × Json) → Json → Prop) : Json → Json → Prop
  | object {keywords : List (String × Json)} {v : Json} (holds : here keywords v)
      (property : ∀ ps e w, ("properties", .object ps) ∈ keywords → e ∈ ps → v.get e.1 = some w →
        Throughout here e.2 w)
      (items : ∀ schema ws w, ("items", schema) ∈ keywords → v = .array ws → w ∈ ws →
        Throughout here schema w) :
      Throughout here (.object keywords) v

theorem throughout_object_iff {here : List (String × Json) → Json → Prop} :
    Throughout here (.object keywords) v ↔
      here keywords v ∧ Nested keywords v (Throughout here) := by
  constructor
  · rintro ⟨h, hproperty, hitems⟩
    exact ⟨h, hproperty, hitems⟩
  · rintro ⟨h, hproperty, hitems⟩
    exact .object h hproperty hitems

theorem Nested.imp {rel rel' : Json → Json → Prop} (h : Nested keywords v rel)
    (hproperty : ∀ ps e w, ("properties", .object ps) ∈ keywords → e ∈ ps → rel e.2 w → rel' e.2 w)
    (hitems : ∀ schema w, ("items", schema) ∈ keywords → rel schema w → rel' schema w) :
    Nested keywords v rel' :=
  ⟨fun ps e w hps he hw => hproperty ps e w hps he (h.property ps e w hps he hw),
    fun schema ws w hs hv hw => hitems schema w hs (h.items schema ws w hs hv hw)⟩

/-- The relation may be another one that agrees on the schemas of the parts. -/
theorem nested_congr {rel rel' : Json → Json → Prop}
    (hproperty : ∀ ps e w, ("properties", .object ps) ∈ keywords → e ∈ ps →
      (rel e.2 w ↔ rel' e.2 w))
    (hitems : ∀ schema w, ("items", schema) ∈ keywords → (rel schema w ↔ rel' schema w)) :
    Nested keywords v rel ↔ Nested keywords v rel' := by
  constructor
  · exact fun h => h.imp (fun ps e w hps he => (hproperty ps e w hps he).1) fun schema w hs =>
      (hitems schema w hs).1
  · exact fun h => h.imp (fun ps e w hps he => (hproperty ps e w hps he).2) fun schema w hs =>
      (hitems schema w hs).2

theorem nested_and {rel rel' : Json → Json → Prop} :
    (Nested keywords v fun schema w => rel schema w ∧ rel' schema w) ↔
      Nested keywords v rel ∧ Nested keywords v rel' := by
  constructor
  · exact fun h => ⟨h.imp (fun _ _ _ _ _ => And.left) fun _ _ _ => And.left,
      h.imp (fun _ _ _ _ _ => And.right) fun _ _ _ => And.right⟩
  · rintro ⟨h, h'⟩
    exact ⟨fun ps e w hps he hw => ⟨h.property ps e w hps he hw, h'.property ps e w hps he hw⟩,
      fun schema ws w hs hv hw => ⟨h.items schema ws w hs hv hw, h'.items schema ws w hs hv hw⟩⟩

theorem nested_null {rel : Json → Json → Prop} : Nested keywords .null rel :=
  ⟨fun _ _ _ _ _ hw => (by cases hw), fun _ _ _ _ hv => (by cases hv)⟩

/-- A schema of the keywords means that all its parts are met. -/
theorem accepts_iff (h : IsSchema schema) :
    Accepts isInteger schema v ↔ Throughout (Strict isInteger) schema v := by
  induction h generalizing v with
  | object sorted keys props property items branch ihproperty ihitems ihbranch =>
    have hnullable : ∀ value, ("nullable", value) ∉ _ := fun value hmem =>
      absurd (keys _ hmem) (by simp [keywordNames])
    rw [Accepts, acceptsAll_iff, throughout_object_iff, or_iff_right fun hnull =>
      hnullable _ hnull.1]
    refine and_congr_right fun _ => nested_congr (fun ps e w hps he => ?_) fun schema w hs => ?_
    · exact ihproperty ps e hps he
    · exact ihitems schema hs

/-! ### Flattened parts -/

/-- The part has an `anyOf` that is flattened. -/
def Flattens (keywords converted : List (String × Json)) : Prop :=
  ∃ value, ("anyOf", value) ∈ keywords ∧ tryFlattenAnyOf value = some converted

/-- What a part asks for when its `anyOf` is flattened: the types of the variants in the place of
the variants, if it has no `type` of its own, and nothing of null if one of them is of this type. -/
def Loose (isInteger : String → Prop) (keywords : List (String × Json)) (v : Json) : Prop :=
  (∃ converted, Flattens keywords converted ∧ ("nullable", .bool true) ∈ converted) ∧ v = .null ∨
    Strict isInteger (keywords.filter fun e => e.1 ≠ "anyOf") v ∧
    (∀ branches, ("anyOf", .array branches) ∈ keywords → tryFlattenAnyOf (.array branches) = none →
      ∃ b ∈ branches, Accepts isInteger b v) ∧
    ∀ converted types, Flattens keywords converted → ("type", types) ∈ converted →
      (∀ e ∈ keywords, e.1 ≠ "type") → HasTypes isInteger types v

/-- What a part whose `anyOf` is flattened does not ask for: that a variant accepts the value, and
that null is admitted by the other keywords. -/
def Spared (isInteger : String → Prop) (keywords : List (String × Json)) (v : Json) : Prop :=
  ∀ branches converted, ("anyOf", .array branches) ∈ keywords →
    tryFlattenAnyOf (.array branches) = some converted →
      (∃ b ∈ branches, Accepts isInteger b v) ∧ (v = .null → Strict isInteger keywords .null)

theorem hasType_of_accepts {t : String} (hschema : IsSchema schema) (htype : typeOf schema = some t)
    (h : Accepts isInteger schema v) : HasType isInteger t v := by
  cases (accepts_iff hschema).1 h with
  | @object keywords _ h _ _ =>
    obtain ⟨value, hvalue, hstr⟩ := Option.bind_eq_some_iff.1 htype
    have hmem : ("type", value) ∈ keywords := by
      obtain ⟨pre, post, rfl, -⟩ := List.lookup_eq_some_iff.1 hvalue
      simp
    cases value <;> cases hstr
    rcases h.types _ hmem with ⟨t', ht, htyped⟩ | ⟨ts, t', hts, -⟩
    · cases ht
      exact htyped
    · cases hts

theorem hasType_null_iff : HasType isInteger "null" v ↔ v = .null := by
  cases v <;> simp [HasType, kind]

/-- A value that a variant accepts is of a type that the `anyOf` is flattened to. -/
theorem hasTypes_of_branch {branches : List Json} {converted : List (String × Json)}
    {types b : Json} (hconverted : Converted branches converted)
    (htypes : ("type", types) ∈ converted)
    (hb : b ∈ branches) (hschema : IsSchema b) (h : Accepts isInteger b v) :
    HasTypes isInteger types v ∨ ("nullable", .bool true) ∈ converted ∧ v = .null := by
  have htype : ∀ ts : List String, branches.map typeOf = ts.map some →
      ∃ t ∈ ts, HasType isInteger t v := by
    intro ts hts
    have hmem : typeOf b ∈ ts.map some := hts ▸ List.mem_map_of_mem hb
    obtain ⟨t, ht, hsome⟩ := List.mem_map.1 hmem
    exact ⟨t, ht, hasType_of_accepts hschema hsome.symm h⟩
  cases hconverted with
  | @nullable ts t hts hnull hone =>
    obtain ⟨t', ht', htyped⟩ := htype ts hts
    by_cases hnull' : t' = "null"
    · rw [hnull', hasType_null_iff] at htyped
      exact .inr ⟨by simp, htyped⟩
    · have hmem : t' ∈ ts.filter (· ≠ "null") := List.mem_filter.2 ⟨ht', by simpa using hnull'⟩
      rw [hone, List.mem_singleton] at hmem
      subst hmem
      obtain rfl : types = .string t' := by simpa using htypes
      exact .inl (.inl ⟨t', rfl, htyped⟩)
  | @union ts hts hnull =>
    obtain ⟨t', ht', htyped⟩ := htype ts hts
    obtain rfl : types = .array (ts.map .string) := by simpa using htypes
    exact .inl (.inr ⟨_, t', rfl, List.mem_map_of_mem ht', htyped⟩)

theorem strict_filter_iff : Strict isInteger (keywords.filter fun e => e.1 ≠ "anyOf") v ↔
    (∀ value, ("type", value) ∈ keywords → HasTypes isInteger value v) ∧
      (∀ value, ("enum", value) ∈ keywords → ∃ vs, value = .array vs ∧ v ∈ vs) ∧
      ∀ value, ("required", value) ∈ keywords → HasKeys value v := by
  constructor
  · rintro ⟨htypes, henum, hrequired, -⟩
    simp only [List.mem_filter] at htypes henum hrequired
    exact ⟨fun value h => htypes value ⟨h, by simp⟩, fun value h => henum value ⟨h, by simp⟩,
      fun value h => hrequired value ⟨h, by simp⟩⟩
  · rintro ⟨htypes, henum, hrequired⟩
    refine ⟨?_, ?_, ?_, ?_⟩ <;> simp only [List.mem_filter]
    · exact fun value h => htypes value h.1
    · exact fun value h => henum value h.1
    · exact fun value h => hrequired value h.1
    · exact fun value h => by simp at h

/-- A part asks for what it still asks for, and for what it is spared. -/
theorem strict_iff (h : IsSchema (.object keywords)) :
    Strict isInteger keywords v ↔ Loose isInteger keywords v ∧ Spared isInteger keywords v := by
  cases h with
  | object sorted keys props property items branch =>
    constructor
    · intro h
      refine ⟨?_, fun branches converted hmem _ => ⟨h.anyOf branches hmem, fun hv => hv ▸ h⟩⟩
      by_cases hnull : (∃ converted, Flattens keywords converted ∧
          ("nullable", .bool true) ∈ converted) ∧ v = .null
      · exact .inl hnull
      · refine .inr ⟨strict_filter_iff.2 ⟨h.types, h.enum, h.required⟩, fun branches hmem _ =>
          h.anyOf branches hmem, ?_⟩
        rintro converted types ⟨value, hvalue, hflat⟩ htypes -
        obtain ⟨branches, rfl, hconverted⟩ := tryFlattenAnyOf_eq_some hflat
        obtain ⟨b, hb, haccepts⟩ := h.anyOf branches hvalue
        refine (hasTypes_of_branch hconverted htypes hb (branch branches b hvalue hb)
          haccepts).resolve_right fun hn => hnull ⟨⟨converted, ⟨_, hvalue, hflat⟩, hn.1⟩, hn.2⟩
    · rintro ⟨⟨⟨converted, ⟨value, hvalue, hflat⟩, -⟩, rfl⟩ | ⟨hstrict, hanyOf, -⟩, hspared⟩
      · obtain ⟨branches, rfl, -⟩ := tryFlattenAnyOf_eq_some hflat
        exact (hspared branches converted hvalue hflat).2 rfl
      · obtain ⟨htypes, henum, hrequired⟩ := strict_filter_iff.1 hstrict
        refine ⟨htypes, henum, hrequired, fun branches hmem => ?_⟩
        cases hflat : tryFlattenAnyOf (.array branches) with
        | none => exact hanyOf branches hmem hflat
        | some converted => exact (hspared branches converted hmem hflat).1

theorem throughout_strict_iff (h : IsSchema schema) : Throughout (Strict isInteger) schema v ↔
    Throughout (Loose isInteger) schema v ∧ Throughout (Spared isInteger) schema v := by
  induction h generalizing v with
  | @object keywords sorted keys props property items branch ihproperty ihitems ihbranch =>
    rw [throughout_object_iff, throughout_object_iff, throughout_object_iff, and_and_and_comm,
      ← nested_and, strict_iff (.object sorted keys props property items branch)]
    refine and_congr_right fun _ => nested_congr (fun ps e w hps he => ?_) fun schema w hs => ?_
    · exact ihproperty ps e hps he
    · exact ihitems schema hs

/-! ### Normalized schemas -/

section Normalized

variable {key : String} {x : Json}

/-- The entries of a normalized schema. -/
abbrev normalized (keywords : List (String × Json)) : List (String × Json) :=
  insertAll [] (inserts keywords)

theorem converted_key {converted : List (String × Json)} (h : Flattens keywords converted)
    (hmem : (key, x) ∈ converted) : key = "type" ∨ key = "nullable" := by
  obtain ⟨value, -, hflat⟩ := h
  obtain ⟨branches, -, hconverted⟩ := tryFlattenAnyOf_eq_some hflat
  exact hconverted.keys _ hmem

/-- An entry of the schema's own, or of a flattened `anyOf`. -/
theorem mem_normalized_iff (h : Sorted keywords) : (key, x) ∈ normalized keywords ↔
    (∃ value, (key, value) ∈ keywords ∧ key ≠ "$schema" ∧ converted? key value = none ∧
      normalizeKeyword key value = x) ∨
    ∃ converted, Flattens keywords converted ∧ (key, x) ∈ converted ∧
      ∀ d ∈ keywords, d.1 ≠ key := by
  rw [normalized, mem_normalized h]
  refine or_congr ⟨?_, ?_⟩ ⟨?_, ?_⟩
  · rintro ⟨⟨k, value⟩, hd, hschema, hnone, he⟩
    obtain ⟨rfl, rfl⟩ := Prod.mk.inj he
    exact ⟨value, hd, hschema, hnone, rfl⟩
  · rintro ⟨value, hd, hschema, hnone, rfl⟩
    exact ⟨_, hd, hschema, hnone, rfl⟩
  · rintro ⟨value, converted, hvalue, hflat, hrest⟩
    exact ⟨converted, ⟨value, hvalue, hflat⟩, hrest⟩
  · rintro ⟨converted, ⟨value, hvalue, hflat⟩, hrest⟩
    exact ⟨value, converted, hvalue, hflat, hrest⟩

/-- Most keywords are kept. -/
theorem mem_normalized_of_ne (h : Sorted keywords) (hschema : key ≠ "$schema")
    (hanyOf : key ≠ "anyOf") (htype : key ≠ "type") (hnullable : key ≠ "nullable") :
    (key, x) ∈ normalized keywords ↔
      ∃ value, (key, value) ∈ keywords ∧ normalizeKeyword key value = x := by
  rw [mem_normalized_iff h, or_iff_left]
  · simp only [hschema, converted?_of_ne hanyOf, ne_eq, not_false_eq_true, true_and]
  · rintro ⟨converted, hflat, hmem, -⟩
    exact (converted_key hflat hmem).elim htype hnullable

theorem type_mem_normalized (h : Sorted keywords) : ("type", x) ∈ normalized keywords ↔
    ("type", x) ∈ keywords ∨ ∃ converted, Flattens keywords converted ∧ ("type", x) ∈ converted ∧
      ∀ d ∈ keywords, d.1 ≠ "type" := by
  rw [mem_normalized_iff h]
  simp [converted?, normalizeKeyword]

theorem anyOf_mem_normalized (h : Sorted keywords) : ("anyOf", x) ∈ normalized keywords ↔
    ("anyOf", x) ∈ keywords ∧ tryFlattenAnyOf x = none := by
  rw [mem_normalized_iff h, or_iff_left]
  · simp only [converted?_anyOf, normalizeKeyword, String.reduceEq, if_false, ne_eq,
      not_false_eq_true, true_and]
    constructor
    · rintro ⟨value, hvalue, hnone, rfl⟩
      exact ⟨hvalue, hnone⟩
    · exact fun h => ⟨x, h.1, h.2, rfl⟩
  · rintro ⟨converted, hflat, hmem, -⟩
    exact (converted_key hflat hmem).elim (by decide) (by decide)

theorem nullable_mem_normalized (h : Sorted keywords) (hown : ∀ d ∈ keywords, d.1 ≠ "nullable") :
    ("nullable", x) ∈ normalized keywords ↔
      ∃ converted, Flattens keywords converted ∧ ("nullable", x) ∈ converted := by
  rw [mem_normalized_iff h, or_iff_right]
  · exact exists_congr fun converted => and_congr_right fun _ => and_iff_left hown
  · rintro ⟨value, hvalue, -⟩
    exact hown _ hvalue rfl

/-- What a normalized part asks for. -/
theorem strict_normalized_iff (h : Sorted keywords) : Strict isInteger (normalized keywords) v ↔
    Strict isInteger (keywords.filter fun e => e.1 ≠ "anyOf") v ∧
    (∀ branches, ("anyOf", .array branches) ∈ keywords → tryFlattenAnyOf (.array branches) = none →
      ∃ b ∈ branches, Accepts isInteger b v) ∧
    ∀ converted types, Flattens keywords converted → ("type", types) ∈ converted →
      (∀ e ∈ keywords, e.1 ≠ "type") → HasTypes isInteger types v := by
  have hkept : ∀ key value, key = "enum" ∨ key = "required" →
      ((key, value) ∈ normalized keywords ↔ (key, value) ∈ keywords) := by
    rintro key value (rfl | rfl) <;>
    · rw [mem_normalized_of_ne h (by decide) (by decide) (by decide) (by decide)]
      simp [normalizeKeyword]
  rw [strict_filter_iff]
  constructor
  · rintro ⟨htypes, henum, hrequired, hanyOf⟩
    refine ⟨⟨fun value hmem => htypes value ((type_mem_normalized h).2 (.inl hmem)),
      fun value hmem => henum value ((hkept _ _ (.inl rfl)).2 hmem),
      fun value hmem => hrequired value ((hkept _ _ (.inr rfl)).2 hmem)⟩,
      fun branches hmem hnone => hanyOf branches ((anyOf_mem_normalized h).2 ⟨hmem, hnone⟩),
      fun converted types hflat hmem hown => ?_⟩
    exact htypes types ((type_mem_normalized h).2 (.inr ⟨converted, hflat, hmem, hown⟩))
  · rintro ⟨⟨htypes, henum, hrequired⟩, hanyOf, hconverted⟩
    refine ⟨fun value hmem => ?_, fun value hmem => henum value ((hkept _ _ (.inl rfl)).1 hmem),
      fun value hmem => hrequired value ((hkept _ _ (.inr rfl)).1 hmem), fun branches hmem => ?_⟩
    · rcases (type_mem_normalized h).1 hmem with hmem | ⟨converted, hflat, hmem, hown⟩
      · exact htypes value hmem
      · exact hconverted converted value hflat hmem hown
    · obtain ⟨hmem, hnone⟩ := (anyOf_mem_normalized h).1 hmem
      exact hanyOf branches hmem hnone

/-- The properties and items of a normalized part are those of the part, normalized. -/
theorem nested_normalized_iff (h : Sorted keywords)
    (hprops : ∀ ps, ("properties", .object ps) ∈ keywords → Sorted ps) {rel : Json → Json → Prop} :
    Nested (normalized keywords) v rel ↔
      Nested keywords v fun schema w => rel (normalizeSchemaRecursive schema) w := by
  have hitems : ∀ x, ("items", x) ∈ normalized keywords ↔
      ∃ schema, ("items", schema) ∈ keywords ∧ normalizeSchemaRecursive schema = x := fun x => by
    rw [mem_normalized_of_ne h (by decide) (by decide) (by decide) (by decide)]
    simp [normalizeKeyword]
  have hnew : ∀ (ps : List (String × Json)) e, Sorted ps →
      (e ∈ insertAll [] (ps.map fun e => (e.1, normalizeSchemaRecursive e.2)) ↔
        ∃ d ∈ ps, (d.1, normalizeSchemaRecursive d.2) = e) := by
    intro ps e hps
    have hnodup : ((ps.map fun e => (e.1, normalizeSchemaRecursive e.2)).map Prod.fst).Nodup := by
      rw [List.map_map]
      exact hps.nodup_keys
    rw [mem_insertAll hnodup]
    simp
  constructor
  · rintro ⟨hproperty, hitem⟩
    refine ⟨fun ps e w hps he hw => ?_, fun schema ws w hs hv hw =>
      hitem _ ws w ((hitems _).2 ⟨schema, hs, rfl⟩) hv hw⟩
    refine hproperty _ (e.1, normalizeSchemaRecursive e.2) w ((mem_normalized_of_ne h (by decide)
      (by decide) (by decide) (by decide)).2 ⟨_, hps, rfl⟩) ((hnew ps _ (hprops ps hps)).2
        ⟨e, he, rfl⟩) hw
  · rintro ⟨hproperty, hitem⟩
    refine ⟨fun ps' e w hps' he hw => ?_, fun x ws w hx hv hw => ?_⟩
    · obtain ⟨value, hvalue, hps⟩ := (mem_normalized_of_ne h (by decide) (by decide) (by decide)
        (by decide)).1 hps'
      cases value with
      | object ps =>
        obtain rfl := Json.object.inj hps
        obtain ⟨d, hd, rfl⟩ := (hnew ps e (hprops ps hvalue)).1 he
        exact hproperty ps d w hvalue hd hw
      | _ => cases hps
    · obtain ⟨schema, hs, rfl⟩ := (hitems x).1 hx
      exact hitem schema ws w hs hv hw

end Normalized

theorem accepts_normalized_iff (h : IsSchema schema) :
    Accepts isInteger (normalizeSchemaRecursive schema) v ↔
      Throughout (Loose isInteger) schema v := by
  induction h generalizing v with
  | @object keywords sorted keys props property items branch ihproperty ihitems ihbranch =>
    have hown : ∀ d ∈ keywords, d.1 ≠ "nullable" := fun d hd hkey =>
      absurd (keys d hd) (by rw [hkey]; decide)
    have hnested : Nested (normalized keywords) v (Accepts isInteger) ↔
        Nested keywords v (Throughout (Loose isInteger)) :=
      (nested_normalized_iff sorted props).trans
        (nested_congr (fun ps e w hps he => ihproperty ps e hps he) fun s w hs => ihitems s hs)
    rw [normalizeSchemaRecursive, Accepts, acceptsAll_iff, nullable_mem_normalized sorted hown,
      hnested, strict_normalized_iff sorted, throughout_object_iff, Loose, or_and_right]
    refine or_congr_left ⟨fun hnull => ⟨hnull, ?_⟩, And.left⟩
    rw [hnull.2]
    exact nested_null

theorem accepts_normalized (h : IsSchema schema) (hv : Accepts isInteger schema v) :
    Accepts isInteger (normalizeSchemaRecursive schema) v :=
  (accepts_normalized_iff h).2 ((throughout_strict_iff h).1 ((accepts_iff h).1 hv)).1

/-- If nothing is dropped that a value would need, every provider gets a schema of the same
meaning. -/
theorem normalized_accepts_of_spared (h : IsSchema schema)
    (hspared : ∀ v, Throughout (Loose isInteger) schema v → Throughout (Spared isInteger) schema v)
    (provider : String) (v : Json) :
    Accepts isInteger (normalizeSchemaForProvider schema provider) v ↔
      Accepts isInteger schema v := by
  unfold normalizeSchemaForProvider
  split_ifs with hprovider
  · rfl
  · refine ⟨fun hv => ?_, accepts_normalized h⟩
    have hloose := (accepts_normalized_iff h).1 hv
    exact (accepts_iff h).2 ((throughout_strict_iff h).2 ⟨hloose, hspared v hloose⟩)

/-! ### All schemas -/

/-- The schema that every provider gets accepts the same values just if all values that meet what is
left of the schema where an `anyOf` is flattened meet the rest of it too. -/
theorem normalized_accepts_iff (h : IsSchema schema) :
    (∀ provider v, Accepts isInteger (normalizeSchemaForProvider schema provider) v ↔
      Accepts isInteger schema v) ↔
    ∀ v, Throughout (Loose isInteger) schema v → Throughout (Spared isInteger) schema v := by
  refine ⟨fun hsame v hloose => ?_, normalized_accepts_of_spared h⟩
  have hv := (hsame "" v).1 ((accepts_normalized_iff h).2 hloose)
  exact ((throughout_strict_iff h).1 ((accepts_iff h).1 hv)).2

/-- A string or null. -/
def optionalString : Json :=
  .object [("anyOf", .array [.object [("type", .string "string")],
    .object [("type", .string "null")]])]

/-- The string `a` or null. -/
def optionalLetter : Json :=
  .object [("anyOf", .array [.object [("enum", .array [.string "a"]), ("type", .string "string")],
    .object [("type", .string "null")]])]

theorem isSchema_of_keys (sorted : Sorted keywords)
    (h : ∀ e ∈ keywords, e.1 = "enum" ∨ e.1 = "type") : IsSchema (.object keywords) := by
  have hne : ∀ key value, key ≠ "enum" → key ≠ "type" → (key, value) ∉ keywords :=
    fun key value henum htype hmem => (h _ hmem).elim henum htype
  refine .object sorted (fun e he => ?_) (fun ps hmem => ?_) (fun ps e hmem _ => ?_)
    (fun s hmem => ?_) fun branches s hmem _ => ?_
  · rcases h e he with hkey | hkey <;> rw [hkey] <;> decide
  all_goals exact absurd hmem (hne _ _ (by decide) (by decide))

theorem isSchema_of_anyOf {branches : List Json} (h : ∀ b ∈ branches, IsSchema b) :
    IsSchema (.object [("anyOf", .array branches)]) := by
  refine .object (List.pairwise_singleton _ _) ?_ ?_ ?_ ?_ ?_ <;> simp [keywordNames]
  rintro _ schema rfl hmem
  exact h schema hmem

theorem isSchema_optionalString : IsSchema optionalString := by
  refine isSchema_of_anyOf (List.forall_mem_cons.2 ⟨?_, List.forall_mem_singleton.2 ?_⟩)
  · exact isSchema_of_keys (List.pairwise_singleton _ _) (by simp)
  · exact isSchema_of_keys (List.pairwise_singleton _ _) (by simp)

/-- A string or null. -/
theorem normalized_accepts_iff_optionalString :
    (∀ provider v, Accepts (fun _ => True) (normalizeSchemaForProvider optionalString provider) v ↔
      Accepts (fun _ => True) optionalString v) ↔
    ∀ v, Throughout (Loose fun _ => True) optionalString v →
      Throughout (Spared fun _ => True) optionalString v :=
  normalized_accepts_iff isSchema_optionalString

theorem isSchema_optionalLetter : IsSchema optionalLetter := by
  refine isSchema_of_anyOf (List.forall_mem_cons.2 ⟨?_, List.forall_mem_singleton.2 ?_⟩)
  · exact isSchema_of_keys (List.pairwise_pair.2 (by decide)) (by simp)
  · exact isSchema_of_keys (List.pairwise_singleton _ _) (by simp)

/-- What a variant asks for besides its type is dropped. -/
theorem normalized_drops_enum :
    ¬ ∀ (isInteger : String → Prop) (schema : Json), IsSchema schema → ∀ provider v,
      Accepts isInteger (normalizeSchemaForProvider schema provider) v ↔
        Accepts isInteger schema v := by
  intro h
  have hsame := h (fun _ => True) optionalLetter isSchema_optionalLetter "deepseek" (.string "b")
  have hnormal : normalizeSchemaForProvider optionalLetter "deepseek" =
      .object [("nullable", .bool true), ("type", .string "string")] := by rfl
  rw [hnormal] at hsame
  have haccepts : Accepts (fun _ => True)
      (.object [("nullable", .bool true), ("type", .string "string")]) (.string "b") := by
    simp [Accepts, AcceptsAll, HasTypes, HasType, kind]
  have hrejects : ¬ Accepts (fun _ => True) optionalLetter (.string "b") := by
    simp [optionalLetter, Accepts, AcceptsAll, AcceptsSome, HasTypes, HasType, kind]
  exact hrejects (hsame.1 haccepts)

end ToolSchema
end RustyHand
