import MergePatch.Number.Shortest
import MergePatch.Text.Quoted
import MergePatch.Yaml.Syntax
/-!
# What a YAML scalar stands for

A plain scalar with no tag is resolved by its text: the empty text, `~` and `null` in three
spellings are the unit value; `true` and `false` in three spellings are booleans; then integers
(decimal, `0x`, `0o` and `0b`, with an optional `+` and, for negatives, `-`), tried as 64-bit
unsigned, 64-bit signed, then 128 bits; then floats (`.inf`, `-.inf`, `.nan` and finite decimals);
anything else is text. Digits with a leading zero (`012`) are text, not numbers. Quoted and
block scalars are text.

The core tags `!!bool`, `!!int`, `!!float` and `!!null` demand their kind and refuse other text;
a local tag (`!name`) resolves a plain scalar as if untagged; every other tag gives text.
-/

namespace MergePatch

namespace Yaml

/-- The value a scalar stands for. -/
inductive Scalar where
  | unit
  | bool (b : Bool)
  /-- Below `2 ^ 64`. -/
  | unsigned (n : Nat)
  /-- From `-2 ^ 63`, below zero (or a written `-0`). -/
  | signed (i : Int)
  /-- Below `2 ^ 128`, beyond 64 bits. -/
  | wideUnsigned (n : Nat)
  /-- From `-2 ^ 127`, beyond 64 bits. -/
  | wideSigned (i : Int)
  | float (x : Binary64)
  | text (s : String)
deriving Repr, Inhabited

/-- The full name of a core tag: `tag:yaml.org,2002:` and the short name. -/
def coreTag (name : String) : String := "tag:yaml.org,2002:" ++ name

namespace Resolve

/-- The spellings of the unit value. -/
def isNull (s : String) : Bool := s == "null" || s == "Null" || s == "NULL" || s == "~"

/-- The spellings of the booleans. -/
def readBool (s : String) : Option Bool :=
  if s == "true" || s == "True" || s == "TRUE" then some true
  else if s == "false" || s == "False" || s == "FALSE" then some false
  else none

/-- The value of a digit in bases up to 36, or 36 for a character that is no digit. -/
def digitValue (c : Char) : Nat :=
  if '0' ≤ c ∧ c ≤ '9' then c.toNat - 48
  else if 'a' ≤ c ∧ c ≤ 'z' then c.toNat - 87
  else if 'A' ≤ c ∧ c ≤ 'Z' then c.toNat - 55
  else 36

/-- Digits in a base, most significant first; `none` when there are none or one is out of the
base. -/
def readDigits (radix : Nat) (cs : List Char) : Option Nat :=
  if cs.isEmpty then none
  else cs.foldl (fun acc c => acc.bind fun v =>
    if digitValue c < radix then some (v * radix + digitValue c) else none) (some 0)

/-- An integer in a base within `[lo, hi]`: an optional `+`, or `-` when the range holds
negatives, then digits; a lone sign is refused. -/
def readInteger (cs : List Char) (radix : Nat) (lo hi : Int) : Option Int :=
  let v : Option Int := match cs with
    | ['+'] => none
    | ['-'] => none
    | '+' :: ds => (readDigits radix ds).map Int.ofNat
    | '-' :: ds => if lo < 0 then (readDigits radix ds).map fun n => -(n : Int) else none
    | ds => (readDigits radix ds).map Int.ofNat
  v.bind fun i => if lo ≤ i ∧ i ≤ hi then some i else none

/-- A sign character. -/
def isSign (c : Option Char) : Bool := c == some '+' || c == some '-'

/-- Digits after a leading zero, with an optional sign before: text by the YAML 1.2 rules. -/
def digitsButNotNumber (s : String) : Bool :=
  let cs := match s.toList with
    | '-' :: r => r
    | '+' :: r => r
    | cs => cs
  cs.length > 1 && cs.head? == some '0' && (cs.drop 1).all Char.isDigit

/-- The base prefixes: `0x`, `0o`, `0b`. -/
def prefixes : List (List Char × Nat) := [(['0', 'x'], 16), (['0', 'o'], 8), (['0', 'b'], 2)]

/-- A non-negative integer below `2 ^ bits`. -/
def readUnsigned (s : String) (bits : Nat) : Option Nat := Id.run do
  let hi : Int := Int.pow 2 bits - 1
  let cs := s.toList
  let u := match cs with
    | '+' :: r => r
    | _ => cs
  for (p, radix) in prefixes do
    if u.take 2 == p then
      let rest := u.drop 2
      if isSign rest.head? then return none
      match readInteger rest radix 0 hi with
      | some i => return some i.toNat
      | none => pure ()
  if isSign u.head? then return none
  if digitsButNotNumber s then return none
  return (readInteger u 10 0 hi).map Int.toNat

/-- A signed integer of `bits` bits, as written with a `-` (or as a plain decimal). -/
def readNegative (s : String) (bits : Nat) : Option Int := Id.run do
  let lo : Int := -Int.pow 2 (bits - 1)
  let hi : Int := Int.pow 2 (bits - 1) - 1
  let cs := s.toList
  for (p, radix) in prefixes do
    if cs.take 3 == '-' :: p then
      match readInteger ('-' :: cs.drop 3) radix lo hi with
      | some i => return some i
      | none => pure ()
  if digitsButNotNumber s then return none
  return readInteger cs 10 lo hi

/-- An integer of the widest kind that holds it. -/
def readInt (s : String) : Option Scalar :=
  match readUnsigned s 64 with
  | some n => some (.unsigned n)
  | none =>
    match readNegative s 64 with
    | some i => some (.signed i)
    | none =>
      match readUnsigned s 128 with
      | some n => some (.wideUnsigned n)
      | none => (readNegative s 128).map .wideSigned

/-- The leading digits of a list and the rest. -/
def spanDigits (cs : List Char) : List Char × List Char :=
  (cs.takeWhile Char.isDigit, cs.dropWhile Char.isDigit)

/-- The value of decimal digits. -/
def decimalValue (ds : List Char) : Nat := ds.foldl (fun v c => 10 * v + (c.toNat - 48)) 0

/-- A decimal float: an optional sign, digits with an optional point (at least one digit in
all), an optional exponent `e` or `E` with an optional sign and digits. The value is rounded
once; magnitudes far beyond the range are settled as infinity or zero before any power is
formed. -/
def readDecimal (cs : List Char) : Option Binary64 :=
  let (neg, cs) := match cs with
    | '-' :: r => (true, r)
    | '+' :: r => (false, r)
    | _ => (false, cs)
  let (whole, cs) := spanDigits cs
  let (frac, cs) := match cs with
    | '.' :: r => spanDigits r
    | _ => ([], cs)
  let exp? : Option Int := match cs with
    | [] => some 0
    | e :: r =>
      if e == 'e' || e == 'E' then
        let (eneg, r) := match r with
          | '-' :: t => (true, t)
          | '+' :: t => (false, t)
          | _ => (false, r)
        let (ds, rest) := spanDigits r
        if ds.isEmpty || !rest.isEmpty then none
        else
          let v : Int := decimalValue ds
          some (if eneg then -v else v)
      else none
  if whole.isEmpty && frac.isEmpty then none
  else exp?.map fun (e : Int) =>
    let m := decimalValue (whole ++ frac)
    let k : Int := e - frac.length
    if m = 0 then Binary64.zero neg
    else
      let d : Int := (toString m).length
      if k + d > 310 then Binary64.infinity neg
      else if k + d < -330 then Binary64.zero neg
      else Binary64.ofDecimal neg m k

/-- A float: `.inf`, `-.inf`, `.nan` in three spellings each, or a finite decimal. -/
def readFloat (s : String) : Option Binary64 :=
  let cs := s.toList
  let u? : Option (List Char) := match cs with
    | '+' :: r => if isSign r.head? then none else some r
    | _ => some cs
  match u? with
  | none => none
  | some u =>
    let us := String.ofList u
    if us == ".inf" || us == ".Inf" || us == ".INF" then some (Binary64.infinity false)
    else if s == "-.inf" || s == "-.Inf" || s == "-.INF" then some (Binary64.infinity true)
    else if s == ".nan" || s == ".NaN" || s == ".NAN" then some Binary64.nan
    else match readDecimal u with
      | some x => if x.isFinite then some x else none
      | none => none

/-- What an untagged plain scalar stands for. -/
def untagged (s : String) : Scalar :=
  if s.isEmpty || isNull s then .unit
  else match readBool s with
    | some b => .bool b
    | none =>
      match readInt s with
      | some r => r
      | none =>
        if digitsButNotNumber s then .text s
        else match readFloat s with
          | some x => .float x
          | none => .text s

/-- The refusal of a scalar's text by a core tag. -/
def refused (s expected : String) : String :=
  "invalid value: string " ++ Text.quoted s ++ ", expected " ++ expected

end Resolve

open Resolve in
/-- What a scalar stands for, given its tag and style, or the refusal of its tag. -/
def resolve (tag : Option String) (s : String) (style : ScalarStyle) : Except String Scalar :=
  match tag with
  | some t =>
    if t == coreTag "bool" then
      match readBool s with
      | some b => .ok (.bool b)
      | none => .error (refused s "a boolean")
    else if t == coreTag "int" then
      match readInt s with
      | some r => .ok r
      | none => .error (refused s "an integer")
    else if t == coreTag "float" then
      match readFloat s with
      | some x => .ok (.float x)
      | none => .error (refused s "a float")
    else if t == coreTag "null" then
      if isNull s then .ok .unit else .error (refused s "null")
    else if t.startsWith "!" && style == .plain then .ok (untagged s)
    else .ok (.text s)
  | none => if style == .plain then .ok (untagged s) else .ok (.text s)

/-- A float as messages write it: positional with a point, or `inf`, `-inf`, `NaN`. -/
def floatWords (x : Binary64) : String :=
  if x.isNaN then "NaN"
  else if !x.isFinite then (if x.negative then "-inf" else "inf")
  else FloatStyle.positional.render x

namespace Scalar

/-- What was found, in the words of a type error: ``integer `5` ``, `unit value`, … -/
def describe : Scalar → String
  | unit => "unit value"
  | bool b => "boolean `" ++ (if b then "true" else "false") ++ "`"
  | unsigned n => "integer `" ++ toString n ++ "`"
  | signed i => "integer `" ++ toString i ++ "`"
  | wideUnsigned n => "integer `" ++ toString n ++ "` as u128"
  | wideSigned i => "integer `" ++ toString i ++ "` as i128"
  | float x => "floating point `" ++ floatWords x ++ "`"
  | text s => "string " ++ Text.quoted s

/-- Whether a scalar is text. -/
def isText : Scalar → Bool
  | text _ => true
  | _ => false

end Scalar

end Yaml

end MergePatch
