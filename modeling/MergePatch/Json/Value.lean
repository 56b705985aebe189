import MergePatch.Number.Shortest
import MergePatch.Data.Keyed
/-!
# JSON values

A JSON number is an unsigned 64-bit integer, a negative 64-bit integer or a binary64 value; which
one is fixed by how the number was written or built, and two numbers of different kinds are never
equal. Two binary64 numbers are equal when their values are, so `0.0` equals `-0.0`.

An object read from text or built by `Keyed.insert` keeps its members in strictly increasing key
order, so a key occurs at most once and printing it lists the members in that order. A model
writes its members in an order of its own (see `MergePatch.Model`); `Json.normalize` sorts them.
-/

namespace MergePatch

/-- A JSON number, in one of three kinds. -/
inductive Number where
  /-- A non-negative integer below `2 ^ 64`. -/
  | nat (n : UInt64)
  /-- A negative integer not below `-2 ^ 63`. -/
  | neg (n : Int64)
  /-- A binary64 value. -/
  | float (x : Binary64)
deriving DecidableEq, Inhabited, Repr

namespace Number

/-- The integer kind that holds `i`: `nat` from zero up, `neg` below. -/
def ofInt (i : Int) : Number :=
  if i < 0 then .neg (Int64.ofInt i) else .nat (UInt64.ofNat i.toNat)

/-- Equality of numbers: same kind and same value. -/
def sameValue : Number → Number → Bool
  | .nat a, .nat b => a == b
  | .neg a, .neg b => a == b
  | .float a, .float b => a.sameValue b
  | _, _ => false

/-- The text of a number: integers in decimal, binary64 values in the JSON float style. -/
def render : Number → String
  | .nat n => toString n.toNat
  | .neg n => toString n.toInt
  | .float x => FloatStyle.json.render x

end Number

/-- A JSON value. -/
inductive Json where
  /-- `null`. -/
  | null
  /-- `true` or `false`. -/
  | bool (b : Bool)
  /-- A number. -/
  | number (n : Number)
  /-- A string. -/
  | string (s : String)
  /-- An array. -/
  | array (items : List Json)
  /-- An object, as a list of members. -/
  | object (fields : List (String × Json))
deriving Inhabited, Repr

/-- The members of an object, in strictly increasing key order. -/
abbrev Fields := Keyed Json

namespace Json

/-- The number of nodes, counting each member and element. -/
def size : Json → Nat
  | .array items => 1 + sizeList items
  | .object fields => 1 + sizeFields fields
  | _ => 1
where
  /-- The sizes of the elements, summed. -/
  sizeList : List Json → Nat
    | [] => 0
    | x :: xs => size x + sizeList xs
  /-- The sizes of the member values, summed. -/
  sizeFields : List (String × Json) → Nat
    | [] => 0
    | (_, x) :: xs => size x + sizeFields xs

mutual

/-- Equality of JSON values: numbers by `Number.sameValue`, objects member by member. -/
def beq : Json → Json → Bool
  | .null, .null => true
  | .bool a, .bool b => a == b
  | .number a, .number b => a.sameValue b
  | .string a, .string b => a == b
  | .array xs, .array ys => beqList xs ys
  | .object xs, .object ys => beqFields xs ys
  | _, _ => false

/-- Element-wise equality of two arrays. -/
def beqList : List Json → List Json → Bool
  | [], [] => true
  | x :: xs, y :: ys => beq x y && beqList xs ys
  | _, _ => false

/-- Member-wise equality of two objects. -/
def beqFields : List (String × Json) → List (String × Json) → Bool
  | [], [] => true
  | (k, x) :: xs, (l, y) :: ys => k == l && beq x y && beqFields xs ys
  | _, _ => false

end

instance : BEq Json := ⟨beq⟩

/-- An integer value of the kind that holds it. -/
def int (i : Int) : Json := .number (Number.ofInt i)

/-- The value of the member `k`, if this is an object that has one. -/
def get? (j : Json) (k : String) : Option Json :=
  match j with
  | .object fs => Keyed.get? fs k
  | _ => none

/-- The string held, if this is a string. -/
def str? : Json → Option String
  | .string s => some s
  | _ => none

/-- The integer held by an integer number. -/
def intValue? : Json → Option Int
  | .number (.nat n) => some n.toNat
  | .number (.neg n) => some n.toInt
  | _ => none

/-- The string member `k` of an object. -/
def textAt (j : Json) (k : String) : Option String := (j.get? k).bind Json.str?

/-- Whether this is an object. -/
def isObject : Json → Bool
  | .object _ => true
  | _ => false

/-- The kind of value, in words: `null`, `boolean`, `number`, `string`, `array`, `object`. -/
def kindName : Json → String
  | .null => "null"
  | .bool _ => "boolean"
  | .number _ => "number"
  | .string _ => "string"
  | .array _ => "array"
  | .object _ => "object"

/-- `v` wrapped as `some`, or `null` for `none`. -/
def ofOption {α : Type} (f : α → Json) : Option α → Json
  | some a => f a
  | none => .null

/-- An object from member pairs; a later pair with the same key wins. -/
def obj (ps : List (String × Json)) : Json := .object (Keyed.ofList ps)

mutual

/-- The same value with every object's members in increasing key order (a later member wins
over an earlier one with the same key). -/
def normalize : Json → Json
  | .array items => .array (normalizeList items)
  | .object fields => .object (Keyed.ofList (normalizeFields fields))
  | j => j

/-- Each element normalized. -/
def normalizeList : List Json → List Json
  | [] => []
  | x :: xs => normalize x :: normalizeList xs

/-- Each member value normalized, in the same order. -/
def normalizeFields : List (String × Json) → List (String × Json)
  | [] => []
  | (k, x) :: xs => (k, normalize x) :: normalizeFields xs

end

end Json

end MergePatch
