import MergePatch.Json.Value
import MergePatch.Text.Quoted
/-!
# Why a JSON text or value was refused

A `Fault` is a fault of the text itself: it stops reading at a byte, and its message names that
byte's line and column. A `Mismatch` is a well-formed value of the wrong shape: the wrong kind,
an integer out of range, a missing or repeated field, or a refusal in words. A mismatch found
while reading text gets the position the reader has reached when the enclosing value is closed;
one found in a value already in memory has none.

`ReadError.message` is the one place where these become words: the fault or mismatch, then
` at line L column C` when there is a position.
-/

namespace MergePatch

/-- A fault of JSON text. -/
inductive Fault where
  | eofInList
  | eofInObject
  | eofInString
  | eofInValue
  | expectedColon
  | expectedListCommaOrEnd
  | expectedObjectCommaOrEnd
  | expectedIdent
  | expectedValue
  | invalidEscape
  | invalidNumber
  | numberOutOfRange
  | invalidCodePoint
  | controlCharacter
  | keyMustBeString
  | loneLeadingSurrogate
  | trailingComma
  | trailingCharacters
  | unexpectedEndOfHexEscape
  | recursionLimit
deriving DecidableEq, Repr

namespace Fault

/-- What the reader says about the fault. -/
def message : Fault → String
  | eofInList => "EOF while parsing a list"
  | eofInObject => "EOF while parsing an object"
  | eofInString => "EOF while parsing a string"
  | eofInValue => "EOF while parsing a value"
  | expectedColon => "expected `:`"
  | expectedListCommaOrEnd => "expected `,` or `]`"
  | expectedObjectCommaOrEnd => "expected `,` or `\x7d`"
  | expectedIdent => "expected ident"
  | expectedValue => "expected value"
  | invalidEscape => "invalid escape"
  | invalidNumber => "invalid number"
  | numberOutOfRange => "number out of range"
  | invalidCodePoint => "invalid unicode code point"
  | controlCharacter => "control character (\\u0000-\\u001F) found while parsing a string"
  | keyMustBeString => "key must be a string"
  | loneLeadingSurrogate => "lone leading surrogate in hex escape"
  | trailingComma => "trailing comma"
  | trailingCharacters => "trailing characters"
  | unexpectedEndOfHexEscape => "unexpected end of hex escape"
  | recursionLimit => "recursion limit exceeded"

end Fault

/-- What a reader found where it expected something else. -/
inductive Unexpected where
  | bool (b : Bool)
  | unsigned (n : Nat)
  | signed (i : Int)
  | float (x : Binary64)
  | str (s : String)
  | null
  | seq
  | map
deriving Repr

namespace Unexpected

/-- The words for what was found: ``integer `5` ``, `string "x"`, `sequence`, … -/
def describe : Unexpected → String
  | bool b => "boolean `" ++ (if b then "true" else "false") ++ "`"
  | unsigned n => "integer `" ++ toString n ++ "`"
  | signed i => "integer `" ++ toString i ++ "`"
  | float x => "floating point `" ++ FloatStyle.json.render x ++ "`"
  | str s => "string " ++ Text.quoted s
  | null => "null"
  | seq => "sequence"
  | map => "map"

/-- What a number is, as found. -/
def ofNumber : Number → Unexpected
  | .nat n => unsigned n.toNat
  | .neg n => signed n.toInt
  | .float x => float x

/-- What a value is, as found. -/
def ofJson : Json → Unexpected
  | .null => null
  | .bool b => bool b
  | .number n => ofNumber n
  | .string s => str s
  | .array _ => seq
  | .object _ => map

end Unexpected

/-- A value of the wrong shape. -/
inductive Mismatch where
  /-- The wrong kind of value. -/
  | invalidType (found : Unexpected) (expected : String)
  /-- The right kind with a refused value. -/
  | invalidValue (found : Unexpected) (expected : String)
  /-- A sequence of the wrong length. -/
  | invalidLength (n : Nat) (expected : String)
  /-- A required field is absent. -/
  | missingField (name : String)
  /-- A field is given twice. -/
  | duplicateField (name : String)
  /-- A refusal in words. -/
  | custom (text : String)
deriving Repr

namespace Mismatch

/-- The words of a mismatch. -/
def message : Mismatch → String
  | invalidType u e => "invalid type: " ++ u.describe ++ ", expected " ++ e
  | invalidValue u e => "invalid value: " ++ u.describe ++ ", expected " ++ e
  | invalidLength n e => "invalid length " ++ toString n ++ ", expected " ++ e
  | missingField f => "missing field `" ++ f ++ "`"
  | duplicateField f => "duplicate field `" ++ f ++ "`"
  | custom t => t

end Mismatch

/-- A line (from 1) and a column (bytes since the line began). -/
structure Position where
  line : Nat
  column : Nat
deriving DecidableEq, Repr

namespace Position

/-- The position after the first `i` bytes of `input`. -/
def after (input : ByteArray) (i : Nat) : Position :=
  (input.toList.take i).foldl
    (fun p b => if b = 10 then ⟨p.line + 1, 0⟩ else ⟨p.line, p.column + 1⟩) ⟨1, 0⟩

end Position

/-- Why reading failed. -/
inductive ReadError where
  /-- A fault of the text, at a position. -/
  | fault (f : Fault) (pos : Position)
  /-- A value of the wrong shape, at a position when read from text. -/
  | mismatch (m : Mismatch) (pos : Option Position)
deriving Repr

namespace ReadError

/-- The error's words, followed by its position if it has one. -/
def message : ReadError → String
  | fault f p => f.message ++ " at line " ++ toString p.line ++ " column " ++ toString p.column
  | mismatch m none => m.message
  | mismatch m (some p) =>
    m.message ++ " at line " ++ toString p.line ++ " column " ++ toString p.column

/-- Gives a mismatch without a position the position `p`; others stay. -/
def placeAt (p : Position) : ReadError → ReadError
  | mismatch m none => mismatch m (some p)
  | e => e

end ReadError

end MergePatch
