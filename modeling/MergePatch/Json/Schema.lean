import MergePatch.Json.Fault
/-!
# Schemas: what a reader accepts

A `Schema` describes the JSON a reader accepts and the value it gives back. Its leaves are any
value, a string (possibly checked and converted), and integers of a given range; its
combinators are an optional value (`null` or the inner one), a sequence, a map with string keys
(a repeated key keeps its last value), a record with named fields, a refinement that checks a
value once read, and a union tagged by a string member. A schema refers to named schemas through
`ref`, so recursive shapes such as a chain of partners are finite terms.

A record reads from an object, member by member; a member that names no field is skipped, a
field given twice is refused, and when the object ends each absent field is refused, read as
`null` or given its default, as the field says. A record also reads from an array, its elements
being the fields in order: a missing element is refused unless its field has a default. The
fields of `rest` are read after the object ends from the members that named no field, in the
order they came; such a record reads from objects only.

`Schema.ofValue` reads a value already in memory. Its mismatches carry no position; the text
reader of `MergePatch.Json.Read` follows the same rules on text.
-/

namespace MergePatch

/-- The integer ranges a reader accepts, named as in messages. -/
inductive IntRange where
  | i32
  | i64
  | u16
deriving DecidableEq, Repr

namespace IntRange

/-- The name of the range in messages. -/
def name : IntRange → String
  | i32 => "i32"
  | i64 => "i64"
  | u16 => "u16"

/-- The least and greatest value of the range. -/
def bounds : IntRange → Int × Int
  | i32 => (-Int.pow 2 31, Int.pow 2 31 - 1)
  | i64 => (-Int.pow 2 63, Int.pow 2 63 - 1)
  | u16 => (0, 65535)

/-- Accepts an integer within the range; refuses one outside it, and any float. -/
def accept (r : IntRange) : Number → Except Mismatch Json
  | .nat n =>
    if (n.toNat : Int) ≤ r.bounds.2 then .ok (.number (.nat n))
    else .error (.invalidValue (.unsigned n.toNat) r.name)
  | .neg n =>
    if r.bounds.1 ≤ n.toInt then .ok (.number (.neg n))
    else .error (.invalidValue (.signed n.toInt) r.name)
  | .float x => .error (.invalidType (.float x) r.name)

end IntRange

/-- What stands for a field that an object leaves out. -/
inductive Absent where
  /-- The field must be given. -/
  | required
  /-- An optional field: `null` when left out of an object; an array must still give it. -/
  | null
  /-- A field with a default, used when an object or an array leaves it out. -/
  | value (v : Json)

/-- The JSON a reader accepts, with named schemas of type `ν`. -/
inductive Schema (ν : Type) where
  /-- Any value, as it is. -/
  | any
  /-- A string, checked and converted by `check`; `expecting` names it in messages. -/
  | text (expecting : String) (check : String → Except String Json)
  /-- An integer in the range. -/
  | int (range : IntRange)
  /-- `null`, or a value of the inner schema. -/
  | option (inner : Schema ν)
  /-- An array of values of the inner schema. -/
  | seq (inner : Schema ν)
  /-- An object whose member values follow the inner schema. -/
  | dict (inner : Schema ν)
  /-- A record: named fields read from an object or an array, then `rest` read from the
  members that named no field. -/
  | record (name : String) (fields : List (String × Absent × Schema ν))
      (rest : List (String × Absent × Schema ν))
  /-- A value of the inner schema, then checked and converted by `check`. -/
  | refine (inner : Schema ν) (check : Json → Except String Json)
  /-- A value whose string member `tag` picks the schema it is read by again. -/
  | tagged (tag : String) (pick : String → ν)
  /-- The named schema. -/
  | ref (name : ν)

namespace Schema

variable {ν : Type}

/-- A plain string. -/
def string : Schema ν := .text "a string" fun s => .ok (.string s)

/-- What a record is called in messages. -/
def recordName (name : String) : String := "struct " ++ name

/-- What a record read from an array is called in messages. -/
def recordLength (name : String) (n : Nat) : String :=
  "struct " ++ name ++ " with " ++ toString n ++ " elements"

/-- The value that stands for an absent field, or the mismatch. -/
def absentValue (name : String) : Absent → Except Mismatch Json
  | .required => .error (.missingField name)
  | .null => .ok .null
  | .value v => .ok v

/-- The value that stands for a missing array element at index `i`, or the mismatch. -/
def shortValue (expecting : String) (i : Nat) : Absent → Except Mismatch Json
  | .value v => .ok v
  | _ => .error (.invalidLength i expecting)

/-- Fills the fields that are still absent, in order. -/
def fillAbsent (fields : List (String × Absent × Schema ν)) (got : Fields) :
    Except Mismatch Fields :=
  fields.foldlM (fun acc (f, a, _) =>
    match Keyed.get? got f with
    | some _ => .ok acc
    | none => do
      let v ← absentValue f a
      .ok (Keyed.insert acc f v)) got

mutual

/-- Reads a value in memory by a schema; `fuel` bounds the nesting. -/
def ofValue (env : ν → Schema ν) : Nat → Schema ν → Json → Except Mismatch Json
  | 0, _, _ => .error (.custom "nesting too deep")
  | fuel + 1, s, j =>
    match s, j with
    | .any, j => .ok j
    | .text _ check, .string str =>
      match check str with
      | .ok v => .ok v
      | .error m => .error (.custom m)
    | .text e _, j => .error (.invalidType (.ofJson j) e)
    | .int r, .number n => r.accept n
    | .int r, j => .error (.invalidType (.ofJson j) r.name)
    | .option _, .null => .ok .null
    | .option inner, j => ofValue env fuel inner j
    | .seq inner, .array items => .array <$> ofValues env fuel inner items
    | .seq _, j => .error (.invalidType (.ofJson j) "a sequence")
    | .dict inner, .object fs => .object <$> ofMembers env fuel inner fs
    | .dict _, j => .error (.invalidType (.ofJson j) "a map")
    | .record name fields [], .array items => do
      let got ← recordOfArray env fuel (recordLength name fields.length) fields 0 items
      if items.length > fields.length then
        .error (.invalidLength items.length "fewer elements in array")
      else .ok (.object got)
    | .record _ fields rest, .object fs => do
      let (got, others) ← recordOfObject env fuel fields fs [] []
      let got ← fillAbsent fields got
      let (inner, _) ← recordOfObject env fuel rest others.reverse [] []
      let inner ← fillAbsent rest inner
      .ok (.object (inner.foldl (fun acc (k, v) => Keyed.insert acc k v) got))
    | .record name _ _, j => .error (.invalidType (.ofJson j) (recordName name))
    | .refine inner check, j => do
      let v ← ofValue env fuel inner j
      match check v with
      | .ok w => .ok w
      | .error m => .error (.custom m)
    | .tagged tag pick, j =>
      match j.get? tag with
      | some (.string k) =>
        match ofValue env fuel (env (pick k)) j with
        | .ok (.object fs) => .ok (.object (Keyed.insert fs tag (.string k)))
        | .ok v => .ok v
        | .error m => .error (.custom m.message)
      | _ => .error (.missingField tag)
    | .ref n, j => ofValue env fuel (env n) j

/-- Reads the elements of an array. -/
def ofValues (env : ν → Schema ν) (fuel : Nat) (inner : Schema ν) :
    List Json → Except Mismatch (List Json)
  | [] => .ok []
  | x :: xs => do
    let v ← ofValue env fuel inner x
    let vs ← ofValues env fuel inner xs
    .ok (v :: vs)

/-- Reads the member values of an object. -/
def ofMembers (env : ν → Schema ν) (fuel : Nat) (inner : Schema ν) :
    List (String × Json) → Except Mismatch (List (String × Json))
  | [] => .ok []
  | (k, x) :: xs => do
    let v ← ofValue env fuel inner x
    let vs ← ofMembers env fuel inner xs
    .ok ((k, v) :: vs)

/-- Reads record fields from array elements in order, from field index `i`. -/
def recordOfArray (env : ν → Schema ν) (fuel : Nat) (expecting : String) :
    List (String × Absent × Schema ν) → Nat → List Json → Except Mismatch Fields
  | [], _, _ => .ok []
  | (f, a, s) :: fs, i, items => do
    match items with
    | x :: xs =>
      let v ← ofValue env fuel s x
      let rest ← recordOfArray env fuel expecting fs (i + 1) xs
      .ok (Keyed.insert rest f v)
    | [] =>
      let v ← shortValue expecting i a
      let rest ← recordOfArray env fuel expecting fs (i + 1) []
      .ok (Keyed.insert rest f v)

/-- Reads record fields from object members in order; members that name no field are kept
in `others`, last first. -/
def recordOfObject (env : ν → Schema ν) (fuel : Nat) (fields : List (String × Absent × Schema ν)) :
    List (String × Json) → Fields → List (String × Json) →
      Except Mismatch (Fields × List (String × Json))
  | [], got, others => .ok (got, others)
  | (k, x) :: xs, got, others =>
    match fields.find? (·.1 == k) with
    | some (_, _, s) =>
      if (Keyed.get? got k).isSome then .error (.duplicateField k) else do
      let v ← ofValue env fuel s x
      recordOfObject env fuel fields xs (Keyed.insert got k v) others
    | none => recordOfObject env fuel fields xs got ((k, x) :: others)

end

/-- Reads a value in memory by a schema, with fuel enough for its nesting. -/
def read (env : ν → Schema ν) (s : Schema ν) (j : Json) : Except Mismatch Json :=
  ofValue env (8 * j.size + 16) s j

end Schema

end MergePatch
