import MergePatch.Time.Pattern
/-!
# HTTP dates

The HTTP date form is `Sun, 06 Nov 1994 08:49:37 GMT`: a weekday name, the day, a month name, the
year, the time and the literal `GMT`. `Timestamp.httpDate` writes it; a year outside 0 to 9999
carries a sign, and a leap second shows as second 60. `Timestamp.ofHttpDate?` reads it by the
pattern `httpPattern`, after trimming white space: the weekday must be the date's own, the zone
must be `GMT` as written, and nothing may follow. A second of 60 reads as a leap second.
-/

namespace MergePatch

namespace Timestamp

/-- The pattern of an HTTP date. -/
def httpPattern : List Piece :=
  [.weekdayName, .literal ",", .blank, .number .day 2, .blank, .monthName, .blank,
    .number .year 4, .blank, .number .hour 2, .literal ":", .number .minute 2, .literal ":",
    .number .second 2, .blank, .literal "GMT"]

/-- The moment as an HTTP date. -/
def httpDate (t : Timestamp) : String :=
  let d := t.date
  (Date.weekdayNames.getD d.weekday "") ++ ", " ++ padded 2 d.day ++ " " ++
    (Date.monthNames.getD (d.month - 1) "") ++ " " ++ yearText d.year ++ " " ++
    padded 2 t.hour ++ ":" ++ padded 2 t.minute ++ ":" ++ padded 2 t.second ++ " GMT"

/-- Reads an HTTP date, or says why the text is not one. -/
def readHttpDate (s : String) : Except TimeError Timestamp := do
  let (r, rest) ← Piece.read httpPattern {} (Text.trim s).toList
  if !rest.isEmpty then .error .tooLong else r.resolve

/-- The moment an HTTP date names, if the text is one. -/
def ofHttpDate? (s : String) : Option Timestamp :=
  match readHttpDate s with
  | .ok t => some t
  | .error _ => none

end Timestamp

end MergePatch
