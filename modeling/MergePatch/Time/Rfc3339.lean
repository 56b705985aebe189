import MergePatch.Time.Pattern
/-!
# RFC 3339 timestamps

`Timestamp.rfc3339` writes a moment in UTC as `1994-11-06T08:49:37Z`: a year outside 0 to 9999
carries a sign, a leap second shows as second 60, and the fraction of a second is left out when
zero, else written with 3, 6 or 9 digits, the fewest that hold it.

`Timestamp.readRfc3339` reads a date, a time and a zone, and is lenient: blanks may stand around
the separators, the date and time may be joined by `T`, `t` or a space, and the zone is `Z`, `z`,
`UTC` in any case, or a signed offset of hours and minutes whose parts colons or blanks may
separate; the two-digit groups of the offset are taken as two bytes, so that a lone
two-byte character there is an invalid character rather than a short text. The moment is the
local time less the offset; a local time whose moment falls outside the calendar matches no
moment.
-/

namespace MergePatch

namespace Timestamp

/-- Digits of the fraction of a second: none when zero, else 3, 6 or 9. -/
def fractionText (nano : Nat) : String :=
  if nano = 0 then ""
  else if nano % 1000000 = 0 then "." ++ padded 3 (nano / 1000000)
  else if nano % 1000 = 0 then "." ++ padded 6 (nano / 1000)
  else "." ++ padded 9 nano

/-- The moment in RFC 3339 form, in UTC. -/
def rfc3339 (t : Timestamp) : String :=
  let d := t.date
  yearText d.year ++ "-" ++ padded 2 d.month ++ "-" ++ padded 2 d.day ++ "T" ++
    padded 2 t.hour ++ ":" ++ padded 2 t.minute ++ ":" ++ padded 2 t.second ++
    fractionText t.fraction ++ "Z"

/-- The pattern of the date part. -/
def datePattern : List Piece :=
  [.number .year 4, .blank, .literal "-", .number .month 2, .blank, .literal "-", .number .day 2]

/-- The pattern of the time part, up to the zone. -/
def timePattern : List Piece :=
  [.number .hour 2, .blank, .literal ":", .number .minute 2, .blank, .literal ":",
    .number .second 2, .fraction, .blank]

/-- The first two bytes of the text, as digit values when both are ASCII digits; under two bytes
the text is too short. -/
def leadingDigits (cs : List Char) : Except TimeError (Option (Nat × Nat)) :=
  if Piece.byteLength cs < 2 then .error .tooShort
  else match cs with
    | a :: b :: _ => .ok (if a.isDigit && b.isDigit then some (a.toNat - 48, b.toNat - 48) else none)
    | _ => .ok none

/-- A zone offset in seconds east of UTC: `Z`, or a sign, two hour digits, separators of colons
or blanks, and two minute digits below 60. -/
def zoneOffset (cs : List Char) : Except TimeError (Int × List Char) :=
  match cs with
  | 'Z' :: rest | 'z' :: rest => .ok (0, rest)
  | c :: rest =>
    let sign : Option Int :=
      if c = '+' then some 1 else if c = '-' ∨ c = '−' then some (-1) else none
    match sign with
    | none => .error .invalid
    | some sign => do
      let some (h1, h2) ← leadingDigits rest | .error .invalid
      let rest := (rest.drop 2).dropWhile (fun c => c = ':' || Text.isWhiteSpace c)
      let some (m1, m2) ← leadingDigits rest | .error .invalid
      if m1 > 5 then .error .outOfRange
      else .ok (sign * (((h1 * 10 + h2) * 3600 + (m1 * 10 + m2) * 60 : Nat) : Int), rest.drop 2)
  | [] => .error .tooShort

/-- Reads an RFC 3339 timestamp, leniently, or says why the text is not one. -/
def readRfc3339 (s : String) : Except TimeError Timestamp := do
  let (r, rest) ← Piece.read datePattern {} s.toList
  let rest ← match rest with
    | c :: more => if c = 'T' ∨ c = 't' ∨ c = ' ' then .ok more else .error .invalid
    | [] => .error .tooShort
  let (r, rest) ← Piece.read timePattern r rest
  let rest := rest.dropWhile Text.isWhiteSpace
  let (offset, rest) ← match rest with
    | a :: b :: c :: more =>
      if a.toLower = 'u' ∧ b.toLower = 't' ∧ c.toLower = 'c' then .ok (0, more)
      else zoneOffset rest
    | _ => zoneOffset rest
  if !(rest.dropWhile Text.isWhiteSpace).isEmpty then .error .tooLong else
  if offset.natAbs ≥ 86400 then .error .outOfRange else
  Reading.resolve { r with offset := some offset }

end Timestamp

end MergePatch
