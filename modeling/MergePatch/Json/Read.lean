import MergePatch.Json.Cursor
import MergePatch.Json.Schema
/-!
# Reading JSON text by a schema

`readText env s input` reads the bytes `input` as one JSON value accepted by `s`, with nothing
after it but blanks. It reads from left to right and stops at the first fault or mismatch, so
of two problems the earlier one in the text is reported.

Positions follow these rules. A fault is placed at the byte that shows it, or just after the
bytes it consumed. A mismatch of a scalar is placed just after the scalar; one of an array or
object given where something else was expected is placed before its bracket. A mismatch found
while reading an array or object (a missing, repeated or refused field) is placed after the
container has been closed from the point where reading stopped: blanks are skipped and a
closing bracket found there is taken.

Arrays and objects may nest 127 deep where their values are read; members that name no field
of a record are skipped with the grammar checked but no limit on nesting and no number computed.
-/

namespace MergePatch

namespace ReadM

open Text

variable {ν : Type}

/-- The fault at the byte under the cursor, as a value. -/
def faultAhead (f : Fault) : ReadM ReadError :=
  fun c => .ok (.fault f (Position.after c.input (min (c.pos + 1) c.input.size))) c

/-- Runs `act`, giving its error as a value and keeping the cursor where it stopped. -/
def attempt {α : Type} (act : ReadM α) : ReadM (Except ReadError α) :=
  tryCatch (Except.ok <$> act) fun e => pure (.error e)

/-- One more container opens: refused when 127 are open already. -/
def enter : ReadM Unit := do
  let c ← get
  if c.depth ≤ 1 then failAhead .recursionLimit
  else set { c with depth := c.depth - 1 }

/-- A container closes. -/
def leave : ReadM Unit := modify fun c => { c with depth := c.depth + 1 }

/-- Closes an array: the fault found there, if any. -/
def closeList : ReadM (Option ReadError) := do
  match ← skipBlank with
  | some 93 => bump; pure none
  | some 44 =>
    bump
    match ← skipBlank with
    | some 93 => some <$> faultAhead .trailingComma
    | _ => some <$> faultAhead .trailingCharacters
  | some _ => some <$> faultAhead .trailingCharacters
  | none => some <$> faultAhead .eofInList

/-- Closes an object: the fault found there, if any. -/
def closeObject : ReadM (Option ReadError) := do
  match ← skipBlank with
  | some 125 => bump; pure none
  | some 44 => some <$> faultAhead .trailingComma
  | some _ => some <$> faultAhead .trailingCharacters
  | none => some <$> faultAhead .eofInObject

/-- Reads a container's contents by `body` and closes it by `close`; an error of the contents
wins over one of the closing, which is still read. -/
def within {α : Type} (body : ReadM α) (close : ReadM (Option ReadError)) : ReadM α := do
  enter
  bump
  let r ← attempt body
  leave
  let closing ← close
  match r, closing with
  | .ok v, none => pure v
  | .ok _, some e => throw e
  | .error e, _ => throw e

/-- Whether another element follows in an array; `first` before the first one. -/
def hasNext (first : Bool) : ReadM Bool := do
  match ← skipBlank with
  | none => failAhead .eofInList
  | some 93 => pure false
  | some 44 =>
    if first then pure true else
    bump
    match ← skipBlank with
    | some 93 => failAhead .trailingComma
    | none => failAhead .eofInValue
    | some _ => pure true
  | some _ => if first then pure true else failAhead .expectedListCommaOrEnd

/-- The next key of an object, or `none` at its end; `first` before the first member. -/
def nextKey (first : Bool) : ReadM (Option String) := do
  let p ← do
    match ← skipBlank with
    | some 125 => pure none
    | some 44 =>
      if first then pure (some (some 44)) else
      bump
      some <$> skipBlank
    | some b => if first then pure (some (some b)) else failAhead .expectedObjectCommaOrEnd
    | none => failAhead .eofInObject
  match p with
  | none => pure none
  | some (some 34) => bump; some <$> string
  | some (some 125) => failAhead .trailingComma
  | some (some _) => failAhead .keyMustBeString
  | some none => failAhead .eofInValue

/-- The colon after a key. -/
def colon : ReadM Unit := do
  match ← skipBlank with
  | some 58 => bump
  | some _ => failAhead .expectedColon
  | none => failAhead .eofInObject

/-- Reads the value under the cursor to refuse it: what was found, as a mismatch. -/
def refuseFound {α : Type} (expecting : String) : ReadM α := do
  match (← peek).getD 0 with
  | 110 => bump; literal [117, 108, 108]; refuse (.invalidType .null expecting)
  | 116 => bump; literal [114, 117, 101]; refuse (.invalidType (.bool true) expecting)
  | 102 => bump; literal [97, 108, 115, 101]; refuse (.invalidType (.bool false) expecting)
  | 45 => bump; let n ← number false; refuse (.invalidType (.ofNumber n) expecting)
  | 34 => bump; let s ← string; refuse (.invalidType (.str s) expecting)
  | 91 => refuse (.invalidType .seq expecting)
  | 123 => refuse (.invalidType .map expecting)
  | b =>
    if isDigit b then do
      let n ← number true
      refuse (.invalidType (.ofNumber n) expecting)
    else failAhead .expectedValue

/-- The bytes left, a bound on the steps of a loop over them. -/
def remaining : ReadM Nat := fun c => .ok (c.input.size - c.pos + 1) c

mutual

/-- Any value; `fuel` bounds the nesting. -/
def any : Nat → ReadM Json
  | 0 => failAhead .recursionLimit
  | fuel + 1 => placed do
    match ← skipBlank with
    | none => failAhead .eofInValue
    | some b =>
      if b == 110 then bump; literal [117, 108, 108]; pure .null
      else if b == 116 then bump; literal [114, 117, 101]; pure (.bool true)
      else if b == 102 then bump; literal [97, 108, 115, 101]; pure (.bool false)
      else if b == 45 then bump; .number <$> number false
      else if isDigit b then .number <$> number true
      else if b == 34 then bump; .string <$> string
      else if b == 91 then do
        let n ← remaining
        .array <$> within (anyElements fuel true [] n) closeList
      else if b == 123 then do
        let n ← remaining
        .object <$> within (anyMembers fuel true [] n) closeObject
      else failAhead .expectedValue

/-- The elements of an array, read as any values, onto `acc` (last first). -/
def anyElements (fuel : Nat) (first : Bool) (acc : List Json) : Nat → ReadM (List Json)
  | 0 => pure acc.reverse
  | steps + 1 => do
    if ← hasNext first then
      let v ← any fuel
      anyElements fuel false (v :: acc) steps
    else pure acc.reverse

/-- The members of an object, read as any values; a repeated key keeps its last value. -/
def anyMembers (fuel : Nat) (first : Bool) (acc : Fields) : Nat → ReadM Fields
  | 0 => pure acc
  | steps + 1 => do
    match ← nextKey first with
    | none => pure acc
    | some k =>
      colon
      let v ← any fuel
      anyMembers fuel false (Keyed.insert acc k v) steps

end

mutual

/-- Checks a value's grammar and moves past it; `fuel` bounds the nesting. -/
def skipValue : Nat → ReadM Unit
  | 0 => failAhead .recursionLimit
  | fuel + 1 => do
    match ← skipBlank with
    | none => failAhead .eofInValue
    | some b =>
      if b == 110 then bump; literal [117, 108, 108]
      else if b == 116 then bump; literal [114, 117, 101]
      else if b == 102 then bump; literal [97, 108, 115, 101]
      else if b == 45 then bump; skipNumber
      else if isDigit b then skipNumber
      else if b == 34 then bump; skipString
      else if b == 91 then do
        bump
        let n ← remaining
        skipElements fuel true n
      else if b == 123 then do
        bump
        let n ← remaining
        skipMembers fuel true n
      else failAhead .expectedValue

/-- Checks the rest of an array and moves past its closing bracket. -/
def skipElements (fuel : Nat) (first : Bool) : Nat → ReadM Unit
  | 0 => failAhead .eofInList
  | steps + 1 => do
    match ← skipBlank with
    | some 93 => bump
    | some 44 =>
      if first then skipValue fuel; skipElements fuel false steps
      else bump; skipValue fuel; skipElements fuel false steps
    | some _ =>
      if first then skipValue fuel; skipElements fuel false steps
      else failAhead .expectedListCommaOrEnd
    | none => failAhead .eofInList

/-- Checks the rest of an object and moves past its closing brace. -/
def skipMembers (fuel : Nat) (first : Bool) : Nat → ReadM Unit
  | 0 => failAhead .eofInObject
  | steps + 1 => do
    match ← skipBlank with
    | some 125 => bump
    | some 44 =>
      if first then skipMember fuel; skipMembers fuel false steps
      else bump; skipMember fuel; skipMembers fuel false steps
    | some _ =>
      if first then skipMember fuel; skipMembers fuel false steps
      else failAhead .expectedObjectCommaOrEnd
    | none => failAhead .eofInObject

/-- Checks one member: a string key, a colon and a value. -/
def skipMember (fuel : Nat) : ReadM Unit := do
  match ← skipBlank with
  | some 34 => bump; skipString
  | some _ => failAhead .keyMustBeString
  | none => failAhead .eofInValue
  colon
  skipValue fuel

end

/-- A mismatch of a schema read from a value in memory, as a reading error. -/
def ofMismatch {α : Type} : Except Mismatch α → ReadM α
  | .ok v => pure v
  | .error m => refuse m

mutual

/-- Reads a value by a schema; `fuel` bounds the nesting. -/
def bySchema (env : ν → Schema ν) : Nat → Schema ν → ReadM Json
  | 0, _ => failAhead .recursionLimit
  | fuel + 1, s =>
    match s with
    | .any => any fuel
    | .text e check => placed do
      match ← skipBlank with
      | none => failAhead .eofInValue
      | some 34 =>
        bump
        let str ← string
        match check str with
        | .ok v => pure v
        | .error m => refuse (.custom m)
      | some _ => refuseFound e
    | .int r => placed do
      match ← skipBlank with
      | none => failAhead .eofInValue
      | some 45 => bump; let n ← number false; ofMismatch (r.accept n)
      | some b =>
        if isDigit b then do
          let n ← number true
          ofMismatch (r.accept n)
        else refuseFound r.name
    | .option inner => do
      match ← skipBlank with
      | some 110 => bump; literal [117, 108, 108]; pure .null
      | _ => bySchema env fuel inner
    | .seq inner => placed do
      match ← skipBlank with
      | none => failAhead .eofInValue
      | some 91 => do
        let n ← remaining
        .array <$> within (seqElements env fuel inner true [] n) closeList
      | some _ => refuseFound "a sequence"
    | .dict inner => placed do
      match ← skipBlank with
      | none => failAhead .eofInValue
      | some 123 => do
        let n ← remaining
        .object <$> within (dictMembers env fuel inner true [] n) closeObject
      | some _ => refuseFound "a map"
    | .record name fields rest => placed do
      match ← skipBlank with
      | none => failAhead .eofInValue
      | some 91 =>
        if rest.isEmpty then
          .object <$> within
            (recordElements env fuel (Schema.recordLength name fields.length) fields 0 true)
            closeList
        else refuseFound (Schema.recordName name)
      | some 123 => do
        let n ← remaining
        .object <$> within (recordMembers env fuel fields rest true [] [] n) closeObject
      | some _ => refuseFound (Schema.recordName name)
    | .refine inner check => do
      let v ← bySchema env fuel inner
      match check v with
      | .ok w => pure w
      | .error m => refuse (.custom m)
    | .tagged _ _ => do
      let v ← any fuel
      ofMismatch (Schema.ofValue env (8 * v.size + 16) s v)
    | .ref n => bySchema env fuel (env n)
termination_by n _ => (n, 0)

/-- The elements of an array, each read by `inner`. -/
def seqElements (env : ν → Schema ν) (fuel : Nat) (inner : Schema ν) (first : Bool)
    (acc : List Json) : Nat → ReadM (List Json)
  | 0 => pure acc.reverse
  | steps + 1 => do
    if ← hasNext first then
      let v ← bySchema env fuel inner
      seqElements env fuel inner false (v :: acc) steps
    else pure acc.reverse
termination_by steps => (fuel, steps + 1)

/-- The members of an object, each value read by `inner`; a repeated key keeps its last value. -/
def dictMembers (env : ν → Schema ν) (fuel : Nat) (inner : Schema ν) (first : Bool)
    (acc : Fields) : Nat → ReadM Fields
  | 0 => pure acc
  | steps + 1 => do
    match ← nextKey first with
    | none => pure acc
    | some k =>
      colon
      let v ← bySchema env fuel inner
      dictMembers env fuel inner false (Keyed.insert acc k v) steps
termination_by steps => (fuel, steps + 1)

/-- Record fields read from array elements in order, from field index `i`. -/
def recordElements (env : ν → Schema ν) (fuel : Nat) (expecting : String) :
    List (String × Absent × Schema ν) → Nat → Bool → ReadM Fields
  | [], _, _ => pure []
  | (f, a, s) :: fs, i, first => do
    let v ← do
      if ← hasNext first then bySchema env fuel s
      else ofMismatch (Schema.shortValue expecting i a)
    let more ← recordElements env fuel expecting fs (i + 1) false
    pure (Keyed.insert more f v)
termination_by fs _ _ => (fuel, fs.length + 1)

/-- Record fields read from object members; members that name no field are skipped, or kept
in `others` (last first) when the record has `rest` fields. -/
def recordMembers (env : ν → Schema ν) (fuel : Nat) (fields rest : List (String × Absent × Schema ν))
    (first : Bool) (got : Fields) (others : List (String × Json)) : Nat → ReadM Fields
  | 0 => pure got
  | steps + 1 => do
    match ← nextKey first with
    | none =>
      let got ← ofMismatch (Schema.fillAbsent fields got)
      if rest.isEmpty then pure got else
      let (inner, _) ← ofMismatch
        (Schema.recordOfObject env (8 * others.length + 16) rest others.reverse [] [])
      let inner ← ofMismatch (Schema.fillAbsent rest inner)
      pure (inner.foldl (fun acc (k, v) => Keyed.insert acc k v) got)
    | some k =>
      match fields.find? (·.1 == k) with
      | some (_, _, s) =>
        if (Keyed.get? got k).isSome then refuse (.duplicateField k) else
        colon
        let v ← bySchema env fuel s
        recordMembers env fuel fields rest false (Keyed.insert got k v) others steps
      | none =>
        colon
        if rest.isEmpty then
          skipValue (8 * steps + 16)
          recordMembers env fuel fields rest false got others steps
        else
          let v ← any fuel
          recordMembers env fuel fields rest false got ((k, v) :: others) steps
termination_by steps => (fuel, steps + 1)

end

end ReadM

namespace Schema

variable {ν : Type}

/-- Reads the bytes `input` as one value accepted by `s`, followed only by blanks. -/
def readText (env : ν → Schema ν) (s : Schema ν) (input : ByteArray) : Except ReadError Json :=
  let act : ReadM Json := do
    let v ← ReadM.bySchema env (8 * input.size + 16) s
    match ← ReadM.skipBlank with
    | some _ => ReadM.failAhead .trailingCharacters
    | none => pure v
  match act.run (Cursor.start input) with
  | .ok v _ => .ok v
  | .error e _ => .error e

end Schema

namespace Json

/-- Reads JSON text as any value. -/
def parse (input : ByteArray) : Except ReadError Json :=
  Schema.readText (ν := Empty) (fun e => nomatch e) .any input

end Json

end MergePatch
