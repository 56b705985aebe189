/-!
# Civil time

A `Timestamp` is a moment in UTC: whole seconds since 1970-01-01T00:00:00 and the nanoseconds
after them. Nanoseconds from `10^9` up mark a leap second: the moment is then in the sixtieth
second of its minute, and its whole seconds are those of the fifty-ninth.

Dates are proleptic Gregorian, years from `-262143` to `262142`. `daysOfDate` counts the days
from 1970-01-01 by whole eras of 400 years (146097 days), and `dateOfDays` inverts it; the
weekday of day 0 is Thursday.
-/

namespace MergePatch

/-- A proleptic Gregorian date. -/
structure Date where
  year : Int
  month : Nat
  day : Nat
deriving DecidableEq, Repr

namespace Date

/-- The least year a date may have. -/
def minYear : Int := -262143

/-- The greatest year a date may have. -/
def maxYear : Int := 262142

/-- Whether a year has 29 February. -/
def isLeap (y : Int) : Bool := (y % 4 == 0 && y % 100 != 0) || y % 400 == 0

/-- The number of days in a month of a year. -/
def monthLength (y : Int) (m : Nat) : Nat :=
  if m = 2 then (if isLeap y then 29 else 28)
  else if m = 4 ∨ m = 6 ∨ m = 9 ∨ m = 11 then 30
  else 31

/-- Whether the date exists and lies in the supported years. -/
def isValid (d : Date) : Bool :=
  minYear ≤ d.year && d.year ≤ maxYear && 1 ≤ d.month && d.month ≤ 12 &&
    1 ≤ d.day && d.day ≤ monthLength d.year d.month

/-- Days from 1970-01-01 to the date. -/
def toDays (d : Date) : Int :=
  let y : Int := if d.month ≤ 2 then d.year - 1 else d.year
  let era := Int.fdiv y 400
  let yoe := y - era * 400
  let mp : Int := if d.month > 2 then (d.month : Int) - 3 else (d.month : Int) + 9
  let doy := (153 * mp + 2) / 5 + (d.day : Int) - 1
  let doe := yoe * 365 + yoe / 4 - yoe / 100 + doy
  era * 146097 + doe - 719468

/-- The date `z` days after 1970-01-01. -/
def ofDays (z : Int) : Date :=
  let z := z + 719468
  let era := Int.fdiv z 146097
  let doe := z - era * 146097
  let yoe := (doe - doe / 1460 + doe / 36524 - doe / 146096) / 365
  let doy := doe - (365 * yoe + yoe / 4 - yoe / 100)
  let mp := (5 * doy + 2) / 153
  let day := doy - (153 * mp + 2) / 5 + 1
  let month := if mp < 10 then mp + 3 else mp - 9
  let year := yoe + era * 400 + (if month ≤ 2 then 1 else 0)
  ⟨year, month.toNat, day.toNat⟩

/-- The weekday, `0` for Sunday to `6` for Saturday. -/
def weekday (d : Date) : Nat := (Int.emod (d.toDays + 4) 7).toNat

/-- Three-letter names of the weekdays, from Sunday. -/
def weekdayNames : List String := ["Sun", "Mon", "Tue", "Wed", "Thu", "Fri", "Sat"]

/-- Three-letter names of the months, from January. -/
def monthNames : List String :=
  ["Jan", "Feb", "Mar", "Apr", "May", "Jun", "Jul", "Aug", "Sep", "Oct", "Nov", "Dec"]

end Date

/-- A moment in UTC, to the nanosecond; nanoseconds from `10^9` mark a leap second. -/
structure Timestamp where
  secs : Int
  nanos : Nat := 0
deriving DecidableEq, Repr

namespace Timestamp

/-- The moment `secs` seconds and `nanos` nanoseconds after the epoch, if its date is in range
and the nanoseconds are below `10^9`. -/
def ofSeconds? (secs : Int) (nanos : Nat := 0) : Option Timestamp :=
  if nanos ≥ 1000000000 then none
  else if (Date.ofDays (Int.fdiv secs 86400)).isValid then some ⟨secs, nanos⟩ else none

/-- The date of the moment. -/
def date (t : Timestamp) : Date := Date.ofDays (Int.fdiv t.secs 86400)

/-- Seconds since midnight. -/
def secondOfDay (t : Timestamp) : Nat := (Int.emod t.secs 86400).toNat

/-- The hour. -/
def hour (t : Timestamp) : Nat := t.secondOfDay / 3600

/-- The minute. -/
def minute (t : Timestamp) : Nat := t.secondOfDay % 3600 / 60

/-- The second as shown: `60` during a leap second. -/
def second (t : Timestamp) : Nat := t.secondOfDay % 60 + t.nanos / 1000000000

/-- The nanoseconds within the shown second. -/
def fraction (t : Timestamp) : Nat := t.nanos % 1000000000

/-- The moment of a date and a time of day, the second below 60 and the nanoseconds below
`2 * 10^9`. -/
def ofParts (d : Date) (hour minute second : Nat) (nanos : Nat) : Timestamp :=
  ⟨d.toDays * 86400 + (hour * 3600 + minute * 60 + second : Nat), nanos⟩

/-- The moment with the fraction of its second dropped. -/
def truncSecs (t : Timestamp) : Timestamp := ⟨t.secs, t.nanos - t.nanos % 1000000000⟩

end Timestamp

/-- `n` in decimal, padded with zeros to `width` digits. -/
def padded (width : Nat) (n : Nat) : String :=
  let s := toString n
  String.ofList (List.replicate (width - s.length) '0') ++ s

/-- A year: four digits from 0 to 9999, else a sign and at least four digits. -/
def yearText (y : Int) : String :=
  if 0 ≤ y ∧ y ≤ 9999 then padded 4 y.toNat
  else (if y < 0 then "-" else "+") ++ padded 4 y.natAbs

end MergePatch
