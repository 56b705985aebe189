import MergePatch.Json.Fault
/-!
# Reading JSON text: the cursor, numbers and strings

A `Cursor` is a position in the bytes of a JSON text, with the number of containers that may
still open inside one another. Reading runs in `ReadM`, a state of the cursor with errors that
keep the cursor where the error arose, since the position of a mismatch is taken after the
enclosing container is closed from there.

Numbers follow the JSON grammar with one leading zero at most. An integer that fits in 64 bits
stays an integer (a negative one down to `-2 ^ 63`, and `-0` is the float `-0.0`). Any other
number keeps its first nineteen or twenty significant digits as a 64-bit significand, counts the
rest into the decimal exponent, converts the significand to binary64 and then multiplies or
divides once by the binary64 value nearest to the power of ten; exponents beyond 308 divide by
`1e308` first. A product that overflows is refused as out of range, a quotient that underflows
becomes zero.

Strings take the escapes `\" \\ \/ \b \f \n \r \t` and `\uXXXX`, where a leading surrogate
must be followed by an escaped trailing one; raw control characters are refused, and the
bytes must be UTF-8. `skipString` checks the same grammar, takes `\uXXXX` as four hex digits
whatever they encode and does not look at the bytes between.
-/

namespace MergePatch

/-- A position in the bytes of a JSON text. -/
structure Cursor where
  input : ByteArray
  pos : Nat
  /-- How many more containers may open inside one another. -/
  depth : Nat

/-- Reading JSON text: a cursor state whose errors keep the cursor. -/
abbrev ReadM := EStateM ReadError Cursor

namespace Cursor

/-- The cursor at the start of `input`, allowing 127 nested containers. -/
def start (input : ByteArray) : Cursor := ⟨input, 0, 128⟩

end Cursor

namespace Text

/-- A decimal digit. -/
def isDigit (b : UInt8) : Bool := 48 ≤ b && b ≤ 57

/-- A blank between JSON tokens: space, line feed, tab, carriage return. -/
def isBlank (b : UInt8) : Bool := b == 32 || b == 10 || b == 9 || b == 13

/-- The first index from `i` whose byte fails `p`, or the end. -/
def skipWhile (p : UInt8 → Bool) (s : ByteArray) (i : Nat) : Nat :=
  if h : i < s.size then
    if p s[i] then skipWhile p s (i + 1) else i
  else i
termination_by s.size - i

/-- Reads digits from `i` onto `acc` while the result stays within `limit`; gives the value,
the index after the digits taken, and whether a digit was left because it would exceed the
limit. -/
def scanDigits (s : ByteArray) (i acc limit : Nat) : Nat × Nat × Bool :=
  if h : i < s.size then
    let b := s[i]
    if isDigit b then
      let v := acc * 10 + (b - 48).toNat
      if v > limit then (acc, i, true) else scanDigits s (i + 1) v limit
    else (acc, i, false)
  else (acc, i, false)
termination_by s.size - i

/-- The value of a hex digit byte. -/
def hexValue? (b : UInt8) : Option Nat :=
  if 48 ≤ b ∧ b ≤ 57 then some (b - 48).toNat
  else if 97 ≤ b ∧ b ≤ 102 then some ((b - 97).toNat + 10)
  else if 65 ≤ b ∧ b ≤ 70 then some ((b - 65).toNat + 10)
  else none

/-- The first index from `i` that holds a quote, a backslash or a control character. -/
def plainEnd (s : ByteArray) (i : Nat) : Nat :=
  skipWhile (fun b => b != 34 && b != 92 && b ≥ 32) s i

end Text

namespace ReadM

open Text

/-- The byte under the cursor. -/
def peek : ReadM (Option UInt8) := fun c => .ok c.input[c.pos]? c

/-- Moves past one byte. -/
def bump : ReadM Unit := modify fun c => { c with pos := c.pos + 1 }

/-- The byte under the cursor, moving past it. -/
def next : ReadM (Option UInt8) := do
  let b ← peek
  if b.isSome then bump
  pure b

/-- The position reached. -/
def here : ReadM Position := fun c => .ok (Position.after c.input c.pos) c

/-- Stops with a fault at the position reached. -/
def fail {α : Type} (f : Fault) : ReadM α :=
  fun c => .error (.fault f (Position.after c.input c.pos)) c

/-- Stops with a fault at the byte under the cursor (the position one byte on). -/
def failAhead {α : Type} (f : Fault) : ReadM α :=
  fun c => .error (.fault f (Position.after c.input (min (c.pos + 1) c.input.size))) c

/-- Stops with a mismatch, to be placed by the enclosing reader. -/
def refuse {α : Type} (m : Mismatch) : ReadM α := throw (.mismatch m none)

/-- Runs `act`, placing a mismatch without a position where the cursor is when it fails. -/
def placed {α : Type} (act : ReadM α) : ReadM α :=
  tryCatch act fun e => do
    let p ← here
    throw (e.placeAt p)

/-- Skips blanks and gives the next byte, not moving past it. -/
def skipBlank : ReadM (Option UInt8) := do
  modify fun c => { c with pos := skipWhile isBlank c.input c.pos }
  peek

/-- Reads the rest of a literal such as the `ull` of `null`. -/
def literal (rest : List UInt8) : ReadM Unit :=
  match rest with
  | [] => pure ()
  | b :: bs => do
    match ← next with
    | none => fail .eofInValue
    | some x => if x == b then literal bs else fail .expectedIdent

/-! ## Numbers -/

/-- The largest 64-bit unsigned integer. -/
def u64Max : Nat := Nat.pow 2 64 - 1

/-- The largest 32-bit signed integer. -/
def i32Max : Nat := Nat.pow 2 31 - 1

/-- Clamps to the 32-bit signed range. -/
def clamp32 (i : Int) : Int := max (-Int.pow 2 31) (min (Int.pow 2 31 - 1) i)

/-- The binary64 value of `sig * 10 ^ exp`, computed as one conversion of the significand and
one multiplication or division by a power of ten (dividing by `1e308` first while the exponent
is below `-308`); `none` when a product overflows. -/
def scaleByTen (f : Binary64) (exp : Int) : Option Binary64 :=
  if exp.natAbs ≤ 308 then
    if 0 ≤ exp then
      let g := f.mul (Binary64.pow10 exp.toNat)
      if g.isFinite then some g else none
    else some (f.div (Binary64.pow10 (-exp).toNat))
  else if f.isZero then some f
  else if 0 ≤ exp then none
  else scaleByTen (f.div (Binary64.pow10 308)) (exp + 308)
termination_by exp.natAbs

/-- The float of a significand and a decimal exponent, or a fault when it is out of range. -/
def fromParts (positive : Bool) (sig : Nat) (exp : Int) : ReadM Binary64 :=
  match scaleByTen (Binary64.ofNat sig) exp with
  | some f => pure (if positive then f else f.neg)
  | none => fail .numberOutOfRange

/-- The exponent part, after `e` or `E`; `start` is the decimal exponent so far. -/
def exponentPart (positive : Bool) (sig : Nat) (start : Int) : ReadM Binary64 := do
  bump
  let up ← do
    match ← peek with
    | some 43 => bump; pure true
    | some 45 => bump; pure false
    | _ => pure true
  match ← next with
  | none => fail .eofInValue
  | some b =>
    if !isDigit b then fail .invalidNumber else
    let c ← get
    let (e, j, overflow) := scanDigits c.input c.pos (b - 48).toNat i32Max
    if overflow then
      -- the digit that overflows is taken, then the rest are skipped
      set { c with pos := j + 1 }
      if sig != 0 && up then fail .numberOutOfRange else
      modify fun c => { c with pos := skipWhile isDigit c.input c.pos }
      pure (if positive then Binary64.zero false else Binary64.zero true)
    else
      set { c with pos := j }
      let total := clamp32 (if up then start + e else start - e)
      fromParts positive sig total

/-- An exponent part if one follows, else the float of what was read. -/
def afterDigits (positive : Bool) (sig : Nat) (exp : Int) : ReadM Binary64 := do
  match ← peek with
  | some 101 | some 69 => exponentPart positive sig exp
  | _ => fromParts positive sig exp

/-- The fraction part, at the point; `start` is the decimal exponent so far. -/
def fractionPart (positive : Bool) (sig : Nat) (start : Int) : ReadM Binary64 := do
  bump
  let c ← get
  let (sig', j, overflow) := scanDigits c.input c.pos sig u64Max
  set { c with pos := j }
  let taken := j - c.pos
  if overflow then
    -- digits beyond a 64-bit significand are dropped
    modify fun c => { c with pos := skipWhile isDigit c.input c.pos }
    afterDigits positive sig' (start - taken)
  else if taken = 0 then
    match ← peek with
    | some _ => failAhead .invalidNumber
    | none => failAhead .eofInValue
  else afterDigits positive sig' (start - taken)

/-- An integer too long for 64 bits: the digits after the significand raise the exponent. -/
def longInteger (positive : Bool) (sig : Nat) : ReadM Binary64 := do
  let c ← get
  let j := skipWhile isDigit c.input c.pos
  set { c with pos := j }
  let exp : Int := j - c.pos
  match ← peek with
  | some 46 => fractionPart positive sig exp
  | some 101 | some 69 => exponentPart positive sig exp
  | _ => fromParts positive sig exp

/-- What follows the integer digits: a fraction, an exponent, or the end of an integer. -/
def numberTail (positive : Bool) (sig : Nat) : ReadM Number := do
  match ← peek with
  | some 46 => .float <$> fractionPart positive sig 0
  | some 101 | some 69 => .float <$> exponentPart positive sig 0
  | _ =>
    if positive then pure (.nat (UInt64.ofNat sig))
    else if 1 ≤ sig ∧ sig ≤ Nat.pow 2 63 then pure (.neg (Int64.ofInt (-(sig : Int))))
    else pure (.float (Binary64.ofNat sig).neg)

/-- A number after its sign (the `-` is already taken when `positive` is false). -/
def number (positive : Bool) : ReadM Number := do
  match ← next with
  | none => fail .eofInValue
  | some b =>
    if b == 48 then
      match ← peek with
      | some d => if isDigit d then failAhead .invalidNumber else numberTail positive 0
      | none => numberTail positive 0
    else if isDigit b then
      let c ← get
      let (sig, j, overflow) := scanDigits c.input c.pos (b - 48).toNat u64Max
      set { c with pos := j }
      if overflow then .float <$> longInteger positive sig else numberTail positive sig
    else fail .invalidNumber

/-- Checks a number after its sign without computing it. -/
def skipNumber : ReadM Unit := do
  let b := (← next).getD 0
  if b == 48 then
    if let some d ← peek then
      if isDigit d then failAhead .invalidNumber
  else if isDigit b then
    modify fun c => { c with pos := skipWhile isDigit c.input c.pos }
  else fail .invalidNumber
  if (← peek) == some 46 then
    bump
    let c ← get
    let j := skipWhile isDigit c.input c.pos
    set { c with pos := j }
    if j = c.pos then failAhead .invalidNumber
  match ← peek with
  | some 101 | some 69 =>
    bump
    match ← peek with
    | some 43 | some 45 => bump
    | _ => pure ()
    let b := (← next).getD 0
    if !isDigit b then fail .invalidNumber
    modify fun c => { c with pos := skipWhile isDigit c.input c.pos }
  | _ => pure ()

/-! ## Strings -/

/-- Four hex digits of a `\u` escape. -/
def hexEscape : ReadM Nat := do
  let c ← get
  if c.pos + 4 ≤ c.input.size then
    set { c with pos := c.pos + 4 }
    let ds := (c.input.extract c.pos (c.pos + 4)).toList.map hexValue?
    match ds with
    | [some a, some b, some d, some e] => pure (((a * 16 + b) * 16 + d) * 16 + e)
    | _ => fail .invalidEscape
  else
    set { c with pos := c.input.size }
    fail .eofInString

/-- The UTF-8 bytes of a code point. -/
def utf8 (n : Nat) : ByteArray := (String.singleton (Char.ofNat n)).toUTF8

/-- The byte under the cursor inside a string; the end of the text is a fault. -/
def peekInString : ReadM UInt8 := do
  match ← peek with
  | some b => pure b
  | none => fail .eofInString

/-- A `\u` escape, its `u` already taken: a code point, or a surrogate pair. -/
def unicodeEscape (acc : ByteArray) : ReadM ByteArray := do
  let n ← hexEscape
  if 0xDC00 ≤ n ∧ n ≤ 0xDFFF then fail .loneLeadingSurrogate
  else if n < 0xD800 ∨ 0xDBFF < n then pure (acc ++ utf8 n)
  else
    if (← peekInString) == 92 then bump else
      bump
      fail .unexpectedEndOfHexEscape
    if (← peekInString) == 117 then bump else
      bump
      fail .unexpectedEndOfHexEscape
    let m ← hexEscape
    if m < 0xDC00 ∨ 0xDFFF < m then fail .loneLeadingSurrogate
    else pure (acc ++ utf8 ((n - 0xD800) * 1024 + (m - 0xDC00) + 0x10000))

/-- An escape after its backslash, appended to `acc`. -/
def escape (acc : ByteArray) : ReadM ByteArray := do
  match ← next with
  | none => fail .eofInString
  | some b =>
    if b == 34 then pure (acc.push 34)
    else if b == 92 then pure (acc.push 92)
    else if b == 47 then pure (acc.push 47)
    else if b == 98 then pure (acc.push 8)
    else if b == 102 then pure (acc.push 12)
    else if b == 110 then pure (acc.push 10)
    else if b == 114 then pure (acc.push 13)
    else if b == 116 then pure (acc.push 9)
    else if b == 117 then unicodeEscape acc
    else fail .invalidEscape

/-- The rest of a string after its opening quote; `fuel` bounds the escapes read. -/
def stringRest (acc : ByteArray) : Nat → ReadM String
  | 0 => fail .eofInString
  | fuel + 1 => do
    let c ← get
    let j := plainEnd c.input c.pos
    let acc := acc ++ c.input.extract c.pos j
    set { c with pos := j }
    match c.input[j]? with
    | none => fail .eofInString
    | some b =>
      bump
      if b == 34 then
        match String.fromUTF8? acc with
        | some s => pure s
        | none => fail .invalidCodePoint
      else if b == 92 then
        let acc ← escape acc
        stringRest acc fuel
      else fail .controlCharacter

/-- A string after its opening quote. -/
def string : ReadM String := do
  let c ← get
  stringRest ByteArray.empty (c.input.size + 1)

/-- Checks an escape after its backslash. -/
def skipEscape : ReadM Unit := do
  match ← next with
  | none => fail .eofInString
  | some b =>
    if b == 117 then discard hexEscape
    else if [34, 92, 47, 98, 102, 110, 114, 116].contains b then pure ()
    else fail .invalidEscape

/-- Checks the rest of a string after its opening quote; `fuel` bounds the escapes. -/
def skipStringRest : Nat → ReadM Unit
  | 0 => fail .eofInString
  | fuel + 1 => do
    let c ← get
    let j := plainEnd c.input c.pos
    set { c with pos := j }
    match c.input[j]? with
    | none => fail .eofInString
    | some b =>
      if b == 34 then bump
      else if b == 92 then
        bump
        skipEscape
        skipStringRest fuel
      else fail .controlCharacter

/-- Checks a string after its opening quote. -/
def skipString : ReadM Unit := do
  let c ← get
  skipStringRest (c.input.size + 1)

end ReadM

end MergePatch
