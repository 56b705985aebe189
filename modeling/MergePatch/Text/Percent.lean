/-!
# Percent-encoding

`Text.percentEncode escapes s` writes the UTF-8 bytes of `s`, each byte that is a control
character, not ASCII, or chosen by `escapes` as `%` and two upper-case hex digits, and every
other byte as its ASCII character. The escape sets of a path segment and of a query value are
`pathSegmentEscapes` and `queryValueEscapes`.

`Text.percentDecode` undoes it on bytes: `%` and two hex digits of either case stand for their
byte, and every other byte, a `%` not followed by two hex digits included, stands for itself.
-/

namespace MergePatch

namespace Text

/-- An upper-case hex digit. -/
def upperHex (n : Nat) : Char := if n < 10 then Char.ofNat (48 + n) else Char.ofNat (55 + n)

/-- Bytes escaped in one path segment: space, `"`, `#`, `%`, `/`, `<`, `>`, `?`, the grave
accent and the braces. -/
def pathSegmentEscapes (b : Nat) : Bool :=
  [32, 34, 35, 37, 47, 60, 62, 63, 96, 123, 125].contains b

/-- Bytes escaped in a query value: those of a path segment, `&`, `=` and `+`. -/
def queryValueEscapes (b : Nat) : Bool :=
  pathSegmentEscapes b || [38, 61, 43].contains b

/-- One byte, escaped when it is a control character, not ASCII, or chosen by `escapes`. -/
def percentByte (escapes : Nat → Bool) (b : Nat) : List Char :=
  if b < 0x20 ∨ b ≥ 0x7F ∨ escapes b then ['%', upperHex (b / 16), upperHex (b % 16)]
  else [Char.ofNat b]

/-- The percent-encoded form of a string. -/
def percentEncode (escapes : Nat → Bool) (s : String) : String :=
  String.ofList ((s.toUTF8.data.toList.map UInt8.toNat).flatMap (percentByte escapes))

/-- The value of a hex digit byte of either case. -/
def hexByteValue? (b : Nat) : Option Nat :=
  if 48 ≤ b ∧ b ≤ 57 then some (b - 48)
  else if 65 ≤ b ∧ b ≤ 70 then some (b - 55)
  else if 97 ≤ b ∧ b ≤ 102 then some (b - 87)
  else none

/-- Bytes with each `%` and two hex digits replaced by the byte they name. -/
def percentDecodeBytes : List Nat → List Nat
  | [] => []
  | 37 :: h :: l :: rest =>
    match hexByteValue? h, hexByteValue? l with
    | some a, some b => (16 * a + b) :: percentDecodeBytes rest
    | _, _ => 37 :: percentDecodeBytes (h :: l :: rest)
  | b :: rest => b :: percentDecodeBytes rest

/-- The bytes a percent-encoded string stands for. -/
def percentDecode (s : String) : ByteArray :=
  ⟨((percentDecodeBytes (s.toUTF8.data.toList.map UInt8.toNat)).map Nat.toUInt8).toArray⟩

end Text

end MergePatch
