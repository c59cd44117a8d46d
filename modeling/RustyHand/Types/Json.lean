import Mathlib.Algebra.Ring.Nat
import Mathlib.Data.Int.Order.Basic
import Mathlib.Data.List.Basic

/-!
# JSON values

The part of `serde_json` that the runtime's messages and tool definitions carry: the value type
(`serde_json::Value`) and the compact printer (`serde_json::to_string`), whose length enters the
token estimates.  A number is kept as the text it prints as, and an object as its entries in the
order they print.
-/

namespace RustyHand

/-- `serde_json::Value`. -/
inductive Json
  | null
  | bool (b : Bool)
  | number (repr : String)
  | string (s : String)
  | array (items : List Json)
  | object (entries : List (String × Json))

namespace Json

/-- `Value::get`, for a key. -/
def get (key : String) : Json → Option Json
  | object entries => entries.lookup key
  | _ => none

/-- `Value::as_str`. -/
def asStr : Json → Option String
  | string s => some s
  | _ => none

/-- `value[key]`: null for what has no such key. -/
def index (v : Json) (key : String) : Json := (v.get key).getD null

/-- `Value::as_array`. -/
def asArray : Json → Option (List Json)
  | array items => some items
  | _ => none

/-- `Value::as_bool`. -/
def asBool : Json → Option Bool
  | bool b => some b
  | _ => none

/-- The number that decimal digits write. -/
def decimal (digits : List Char) : Option ℕ :=
  if digits ≠ [] ∧ digits.all Char.isDigit then
    some (digits.foldl (fun n c => 10 * n + (c.toNat - 48)) 0)
  else none

/-- `Value::as_u64`. -/
def asU64 : Json → Option ℕ
  | number repr => (decimal repr.toList).filter (· < 2 ^ 64)
  | _ => none

/-- `Value::as_i64`. -/
def asI64 : Json → Option ℤ
  | number repr =>
    match repr.toList with
    | '-' :: digits => ((decimal digits).filter (· ≤ 2 ^ 63)).map fun n => -(n : ℤ)
    | digits => ((decimal digits).filter (· < 2 ^ 63)).map Int.ofNat
  | _ => none

/-- A hexadecimal digit. -/
def hexDigit (n : ℕ) : Char := if n < 10 then Char.ofNat (48 + n) else Char.ofNat (87 + n)

/-- The escape `serde_json` writes for one character of a string. -/
def escapeChar (c : Char) : List Char :=
  if c = '"' then ['\\', '"']
  else if c = '\\' then ['\\', '\\']
  else if c.toNat = 8 then ['\\', 'b']
  else if c.toNat = 9 then ['\\', 't']
  else if c.toNat = 10 then ['\\', 'n']
  else if c.toNat = 12 then ['\\', 'f']
  else if c.toNat = 13 then ['\\', 'r']
  else if c.toNat < 32 then
    ['\\', 'u', '0', '0', hexDigit (c.toNat / 16), hexDigit (c.toNat % 16)]
  else [c]

/-- A string literal. -/
def printString (s : String) : List Char := '"' :: (s.toList.flatMap escapeChar ++ ['"'])

mutual

/-- The compact form of a value (`serde_json::to_string`). -/
def print : Json → List Char
  | null => ['n', 'u', 'l', 'l']
  | bool true => ['t', 'r', 'u', 'e']
  | bool false => ['f', 'a', 'l', 's', 'e']
  | number repr => repr.toList
  | string s => printString s
  | array items => '[' :: (printItems items ++ [']'])
  | object entries => '{' :: (printEntries entries ++ ['}'])

/-- Array elements, separated by commas. -/
def printItems : List Json → List Char
  | [] => []
  | [v] => print v
  | v :: w :: vs => print v ++ ',' :: printItems (w :: vs)

/-- Object entries, separated by commas. -/
def printEntries : List (String × Json) → List Char
  | [] => []
  | [(k, v)] => printString k ++ ':' :: print v
  | (k, v) :: e :: es => printString k ++ ':' :: (print v ++ ',' :: printEntries (e :: es))

end

/-- `serde_json::to_string`. -/
def toString (v : Json) : String := String.ofList v.print

example : (object [("a", array [number "1", null]), ("b", string "x\n")]).toString
    = "\x7b\"a\":[1,null],\"b\":\"x\\n\"\x7d" := by decide

/-! ### Equality -/

mutual

/-- Are the values the same? -/
def same : Json → Json → Bool
  | null, null => true
  | bool a, bool b => a = b
  | number a, number b => a = b
  | string a, string b => a = b
  | array as, array bs => sameItems as bs
  | object as, object bs => sameEntries as bs
  | _, _ => false

/-- Are the elements the same? -/
def sameItems : List Json → List Json → Bool
  | [], [] => true
  | a :: as, b :: bs => same a b && sameItems as bs
  | _, _ => false

/-- Are the entries the same? -/
def sameEntries : List (String × Json) → List (String × Json) → Bool
  | [], [] => true
  | (k, a) :: as, (l, b) :: bs => k = l && same a b && sameEntries as bs
  | _, _ => false

end

mutual

theorem same_iff : (a b : Json) → (same a b = true ↔ a = b)
  | null, b => by cases b <;> simp [same]
  | bool _, b => by cases b <;> simp [same]
  | number _, b => by cases b <;> simp [same]
  | string _, b => by cases b <;> simp [same]
  | array as, b => by cases b <;> simp [same, sameItems_iff as]
  | object as, b => by cases b <;> simp [same, sameEntries_iff as]

theorem sameItems_iff : (as bs : List Json) → (sameItems as bs = true ↔ as = bs)
  | [], bs => by cases bs <;> simp [sameItems]
  | a :: as, bs => by cases bs <;> simp [sameItems, same_iff a, sameItems_iff as]

theorem sameEntries_iff : (as bs : List (String × Json)) → (sameEntries as bs = true ↔ as = bs)
  | [], bs => by cases bs <;> simp [sameEntries]
  | (k, a) :: as, bs => by
    cases bs <;> simp [sameEntries, same_iff a, sameEntries_iff as, Prod.ext_iff, and_assoc]

end

instance : DecidableEq Json := fun a b => decidable_of_iff _ (same_iff a b)

end Json

end RustyHand
