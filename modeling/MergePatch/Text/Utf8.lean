/-!
# Lenient UTF-8 decoding

`Text.decodeLossy` reads bytes as UTF-8 and puts U+FFFD for each maximal part that does not
begin a well-formed sequence: a byte that cannot lead, or a lead byte with the continuation
bytes that still fit it. Each well-formed sequence stands for its character, so valid UTF-8
decodes to its own text.

A lead byte allows a range for its first continuation byte (`leadShape`), which rules out
overlong forms, surrogates and code points above U+10FFFF; later continuation bytes are
`0x80` to `0xBF`.
-/

namespace MergePatch

namespace Text

/-- For a lead byte: how many continuation bytes follow, and the range of the first one. -/
def leadShape (b : Nat) : Option (Nat × Nat × Nat) :=
  if 0xC2 ≤ b ∧ b ≤ 0xDF then some (1, 0x80, 0xBF)
  else if b = 0xE0 then some (2, 0xA0, 0xBF)
  else if 0xE1 ≤ b ∧ b ≤ 0xEC then some (2, 0x80, 0xBF)
  else if b = 0xED then some (2, 0x80, 0x9F)
  else if 0xEE ≤ b ∧ b ≤ 0xEF then some (2, 0x80, 0xBF)
  else if b = 0xF0 then some (3, 0x90, 0xBF)
  else if 0xF1 ≤ b ∧ b ≤ 0xF3 then some (3, 0x80, 0xBF)
  else if b = 0xF4 then some (3, 0x80, 0x8F)
  else none

/-- How many of the next `n` bytes continue the sequence, the first in `[lo, hi]`. -/
def fitting : Nat → Nat → Nat → List Nat → Nat
  | 0, _, _, _ => 0
  | _ + 1, _, _, [] => 0
  | k + 1, lo, hi, c :: cs => if lo ≤ c ∧ c ≤ hi then fitting k 0x80 0xBF cs + 1 else 0

/-- The code point of a lead byte and its continuation bytes. -/
def codePoint (lead : Nat) (n : Nat) (conts : List Nat) : Nat :=
  let first := if n = 1 then lead % 0x20 else if n = 2 then lead % 0x10 else lead % 0x08
  conts.foldl (fun acc c => acc * 64 + c % 64) first

/-- The characters of bytes, U+FFFD for each maximal ill-formed part. -/
def lossyChars : List Nat → List Char
  | [] => []
  | b :: rest =>
    if b < 0x80 then Char.ofNat b :: lossyChars rest
    else match leadShape b with
      | none => '�' :: lossyChars rest
      | some (n, lo, hi) =>
        let k := fitting n lo hi rest
        if k = n then Char.ofNat (codePoint b n (rest.take n)) :: lossyChars (rest.drop n)
        else '�' :: lossyChars (rest.drop k)
termination_by bs => bs.length
decreasing_by
  all_goals simp only [List.length_drop, List.length_cons]
  all_goals omega

/-- Bytes read as UTF-8, each maximal ill-formed part replaced by U+FFFD. -/
def decodeLossy (bytes : ByteArray) : String :=
  String.ofList (lossyChars (bytes.data.toList.map UInt8.toNat))

end Text

end MergePatch
