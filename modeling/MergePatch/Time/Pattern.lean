import MergePatch.Time.Civil
import MergePatch.Text.Blank
/-!
# Reading dates by a pattern

A `Piece` is one step of a date pattern: a number of a field, a literal, any white space, a
weekday or month name, or a fraction of a second. `Piece.read` reads the pieces in order from the
text; `Reading.resolve` then checks that the fields make one moment.

Numbers skip white space before them and take one digit up to the field's width; the year may
instead carry a sign, which lifts the limit on digits. A number outside its field's range is
refused as out of range. Names take the first three letters in any case. A literal must match
exactly. A fraction is optional: after a point it takes digits, the first nine counting.

`TimeError` says why text is not a moment; its words are those of `TimeError.message`.
-/

namespace MergePatch

/-- Why text is not a moment. -/
inductive TimeError where
  | outOfRange
  | impossible
  | notEnough
  | invalid
  | tooShort
  | tooLong
deriving DecidableEq, Repr

namespace TimeError

/-- The words of the error. -/
def message : TimeError → String
  | outOfRange => "input is out of range"
  | impossible => "no possible date and time matching input"
  | notEnough => "input is not enough for unique date and time"
  | invalid => "input contains invalid characters"
  | tooShort => "premature end of input"
  | tooLong => "trailing input"

end TimeError

/-- The numbered fields of a date and time. -/
inductive DateField where
  | year
  | month
  | day
  | hour
  | minute
  | second
deriving DecidableEq, Repr

/-- One step of a date pattern. -/
inductive Piece where
  /-- A number of a field, of at most `width` digits unless signed. -/
  | number (f : DateField) (width : Nat)
  /-- Exactly this text. -/
  | literal (s : String)
  /-- Any white space, possibly none. -/
  | blank
  /-- A weekday's three-letter name. -/
  | weekdayName
  /-- A month's three-letter name. -/
  | monthName
  /-- An optional fraction of a second. -/
  | fraction
deriving Repr

/-- The fields read so far. -/
structure Reading where
  year : Option Int := none
  month : Option Nat := none
  day : Option Nat := none
  weekday : Option Nat := none
  hour : Option Nat := none
  minute : Option Nat := none
  second : Option Nat := none
  nanosecond : Option Nat := none
  offset : Option Int := none
deriving Repr

namespace Reading

/-- Sets a numbered field, refusing a value out of its range. -/
def setField (r : Reading) (f : DateField) (v : Int) : Except TimeError Reading :=
  let inRange (lo hi : Int) : Bool := lo ≤ v && v ≤ hi
  match f with
  | .year => if inRange (-Int.pow 2 31) (Int.pow 2 31 - 1) then .ok { r with year := some v } else .error .outOfRange
  | .month => if inRange 1 12 then .ok { r with month := some v.toNat } else .error .outOfRange
  | .day => if inRange 1 31 then .ok { r with day := some v.toNat } else .error .outOfRange
  | .hour => if inRange 0 23 then .ok { r with hour := some v.toNat } else .error .outOfRange
  | .minute => if inRange 0 59 then .ok { r with minute := some v.toNat } else .error .outOfRange
  | .second => if inRange 0 60 then .ok { r with second := some v.toNat } else .error .outOfRange

/-- The date read, checked against the weekday if one was read. -/
def toDate (r : Reading) : Except TimeError Date :=
  match r.year, r.month, r.day with
  | some y, some m, some d =>
    let date : Date := ⟨y, m, d⟩
    if !date.isValid then .error .outOfRange
    else match r.weekday with
      | some w => if date.weekday = w then .ok date else .error .impossible
      | none => .ok date
  | _, _, _ => .error .notEnough

/-- The moment read, as local time shifted by the offset read (zero if none); a shift past the
ends of the calendar matches no moment. -/
def resolve (r : Reading) : Except TimeError Timestamp := do
  let date ← r.toDate
  match r.hour, r.minute with
  | some h, some mi =>
    let s := r.second.getD 0
    let nano := r.nanosecond.getD 0
    let (s, nano) := if s = 60 then (59, nano + 1000000000) else (s, nano)
    let t := Timestamp.ofParts date h mi s nano
    let u : Timestamp := { t with secs := t.secs - r.offset.getD 0 }
    if u.date.isValid then pure u else .error .impossible
  | _, _ => .error .notEnough

end Reading

namespace Piece

/-- The length of text in UTF-8 bytes. -/
def byteLength (cs : List Char) : Nat := cs.foldl (fun n c => n + c.utf8Size) 0

/-- Digits from the front, at least `lo` and at most `hi`: their value and the rest. -/
def digits (cs : List Char) (lo hi : Nat) : Except TimeError (Int × List Char) :=
  if byteLength cs < lo then .error .tooShort else
  let ds := (cs.take hi).takeWhile Char.isDigit
  if ds.length < lo then .error .invalid
  else
    let v : Nat := ds.foldl (fun n c => 10 * n + (c.toNat - 48)) 0
    if v ≥ Nat.pow 2 63 then .error .outOfRange else .ok ((v : Int), cs.drop ds.length)

/-- The index of a three-letter name in a list, its letters in any case. -/
def name (names : List String) (cs : List Char) : Except TimeError (Nat × List Char) :=
  if byteLength cs < 3 then .error .tooShort else
  let key := (cs.take 3).map Char.toLower
  match names.findIdx? (fun n => n.toList.map Char.toLower == key) with
  | some i => .ok (i, cs.drop 3)
  | none => .error .invalid

/-- Reads one piece. -/
def readOne (p : Piece) (r : Reading) (cs : List Char) : Except TimeError (Reading × List Char) :=
  match p with
  | .number f width => do
    let cs := cs.dropWhile Text.isWhiteSpace
    let (v, rest) ← match f, cs with
      | .year, '-' :: more => do
        let (v, rest) ← digits more 1 (byteLength more)
        pure (-v, rest)
      | .year, '+' :: more => digits more 1 (byteLength more)
      | _, _ => digits cs 1 width
    let r ← r.setField f v
    pure (r, rest)
  | .literal s =>
    if byteLength cs < s.utf8ByteSize then .error .tooShort
    else if s.toList.isPrefixOf cs then .ok (r, cs.drop s.length)
    else .error .invalid
  | .blank => .ok (r, cs.dropWhile Text.isWhiteSpace)
  | .weekdayName => do
    let (i, rest) ← name Date.weekdayNames cs
    pure ({ r with weekday := some i }, rest)
  | .monthName => do
    let (i, rest) ← name Date.monthNames cs
    pure ({ r with month := some (i + 1) }, rest)
  | .fraction =>
    match cs with
    | '.' :: more => do
      let (v, _) ← digits more 1 9
      let taken := ((more.take 9).takeWhile Char.isDigit).length
      let nano := v.toNat * Nat.pow 10 (9 - taken)
      pure ({ r with nanosecond := some nano }, (more.drop taken).dropWhile Char.isDigit)
    | _ => .ok (r, cs)

/-- Reads the pieces in order: the fields read and the text left. -/
def read (ps : List Piece) (r : Reading) (cs : List Char) : Except TimeError (Reading × List Char) :=
  match ps with
  | [] => .ok (r, cs)
  | p :: rest => do
    let (r, cs) ← p.readOne r cs
    read rest r cs

end Piece

end MergePatch
