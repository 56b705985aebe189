import MergePatch.Yaml.Scalar
import MergePatch.Json.Value
/-!
# Writing YAML

`Yaml.emit` writes a `Node` as a YAML document in block style: mappings as `key: value` lines,
sequences as `- item` lines (at the column of their key when they are a mapping's value), two
spaces per level, and empty collections as `[]` and `{}`. Lines are never folded.

A text asks for a style (`Node.ofText`): a text with a line feed asks for a literal block
(`|`, with an indentation hint when it starts with a blank or a break and a chomping hint
`-` or `+` for its ending), a text that would read back as something else (`true`, `12`, `~`,
`012`, the empty text) asks for single quotes, and any other text for the plain style. The
emitter then falls back by what the text holds: indicators or blanks at its ends rule out the
plain style, a break next to a space or a character outside the printable set rules out single
quotes and literal blocks, and what is left is written in double quotes with escapes. A key that
spans lines or is longer than 128 bytes is written after `?`.
-/

namespace MergePatch

namespace Yaml

/-- How a scalar is written. -/
inductive Style where
  /-- Whatever the emitter finds best, plain first. -/
  | any
  | plain
  | singleQuoted
  | doubleQuoted
  | literal
deriving DecidableEq, Repr, Inhabited

/-- A node to write: a scalar asking for a style, a sequence, or a mapping with text keys. -/
inductive Node where
  | scalar (text : String) (style : Style)
  | seq (items : List Node)
  | map (entries : List (String × Node))
deriving Repr, Inhabited

/-- Floats as shortest digits: positional from `1e-5` to below `1e16`, else `1e20`, `1.5e-7`. -/
def yamlFloat : FloatStyle := ⟨-5, 15, false⟩

namespace Node

/-- A text, asking for the style that reads back as the same text. -/
def ofText (s : String) : Node :=
  if s.toList.contains '\n' then .scalar s .literal
  else
    match Resolve.untagged s with
    | .text _ => .scalar s (if Resolve.digitsButNotNumber s then .singleQuoted else .any)
    | _ => .scalar s .singleQuoted

/-- The plain text of a number. -/
def numberText : Number → String
  | .nat n => toString n.toNat
  | .neg n => toString n.toInt
  | .float x => yamlFloat.render x

mutual

/-- A JSON value as a node. -/
def ofJson : Json → Node
  | .null => .scalar "null" .plain
  | .bool b => .scalar (if b then "true" else "false") .plain
  | .number n => .scalar (numberText n) .plain
  | .string s => ofText s
  | .array items => .seq (ofJsonList items)
  | .object fields => .map (ofJsonFields fields)

/-- JSON elements as nodes. -/
def ofJsonList : List Json → List Node
  | [] => []
  | j :: rest => ofJson j :: ofJsonList rest

/-- JSON members as entries. -/
def ofJsonFields : List (String × Json) → List (String × Node)
  | [] => []
  | (k, j) :: rest => (k, ofJson j) :: ofJsonFields rest

end

end Node

namespace Emit

/-- A line break character. -/
def isBreak (c : Char) : Bool :=
  c = '\r' || c = '\n' || c = '\u0085' || c = '\u2028' || c = '\u2029'

/-- A character written as it is: line feed, printable ASCII, the printable ranges of the
basic plane without the byte order mark, and every character beyond the basic plane. -/
def isPrintable (c : Char) : Bool :=
  let n := c.toNat
  n = 0x0A || (0x20 ≤ n && n ≤ 0x7E) || (0xA0 ≤ n && n ≤ 0xD7FF) ||
    (0xE000 ≤ n && n ≤ 0xFFFD && n ≠ 0xFEFF) || 0x10000 ≤ n

/-- A blank, a break, a NUL or the end of the text. -/
def blankZ : Option Char → Bool
  | none => true
  | some c => c = ' ' || c = '\t' || isBreak c || c.toNat = 0

/-- The styles a text allows. -/
structure Analysis where
  multiline : Bool
  flowPlain : Bool
  blockPlain : Bool
  singleQuoted : Bool
  block : Bool
deriving Repr

/-- What styles a text allows, by its indicators, blanks, breaks and characters. -/
def analyze (s : String) : Analysis := Id.run do
  let a := s.toList.toArray
  let n := a.size
  if n = 0 then
    return { multiline := false, flowPlain := false, blockPlain := true, singleQuoted := true,
             block := false }
  let start := s.toList.take 3
  let mut blockInd := start == ['-', '-', '-'] || start == ['.', '.', '.']
  let mut flowInd := blockInd
  let mut preceded := true
  let mut followed := blankZ a[1]?
  let mut lineBreaks := false
  let mut special := false
  let mut leadingSpace := false
  let mut leadingBreak := false
  let mut trailingSpace := false
  let mut trailingBreak := false
  let mut breakSpace := false
  let mut spaceBreak := false
  let mut previousSpace := false
  let mut previousBreak := false
  for i in [0:n] do
    let c := a[i]?.getD ' '
    if i = 0 then
      if "#,[]\x7b\x7d&*!|>'\"%@`".toList.contains c then
        flowInd := true
        blockInd := true
      if c = '?' || c = ':' then
        flowInd := true
        if followed then blockInd := true
      if c = '-' && followed then
        flowInd := true
        blockInd := true
    else
      if ",?[]\x7b\x7d".toList.contains c then flowInd := true
      if c = ':' then
        flowInd := true
        if followed then blockInd := true
      if c = '#' && preceded then
        flowInd := true
        blockInd := true
    if !isPrintable c then special := true
    if isBreak c then lineBreaks := true
    if c = ' ' then
      if i = 0 then leadingSpace := true
      if i + 1 = n then trailingSpace := true
      if previousBreak then breakSpace := true
      previousSpace := true
      previousBreak := false
    else if isBreak c then
      if i = 0 then leadingBreak := true
      if i + 1 = n then trailingBreak := true
      if previousSpace then spaceBreak := true
      previousSpace := false
      previousBreak := true
    else
      previousSpace := false
      previousBreak := false
    preceded := blankZ (some c)
    if i + 1 < n then followed := blankZ a[i + 2]?
  let ends := leadingSpace || leadingBreak || trailingSpace || trailingBreak
  let harsh := spaceBreak || special
  return {
    multiline := lineBreaks
    flowPlain := !(ends || breakSpace || harsh || lineBreaks || flowInd)
    blockPlain := !(ends || breakSpace || harsh || lineBreaks || blockInd)
    singleQuoted := !(breakSpace || harsh)
    block := !(trailingSpace || harsh) }

/-- The style a scalar is written in: the requested one, or the nearest the text and its place
allow. -/
def selectStyle (a : Analysis) (requested : Style) (empty flow simpleKey : Bool) : Style := Id.run do
  let mut style := if requested = .any then .plain else requested
  if simpleKey && a.multiline then style := .doubleQuoted
  if style = .plain then
    if (flow && !a.flowPlain) || (!flow && !a.blockPlain) then style := .singleQuoted
    if empty && (flow || simpleKey) then style := .singleQuoted
  if style = .singleQuoted && !a.singleQuoted then style := .doubleQuoted
  if style = .literal && (!a.block || flow || simpleKey) then style := .doubleQuoted
  return style

/-- Whether a key fits on its line: one line and at most 128 bytes. -/
def simpleKeyOk (k : String) : Bool := !(analyze k).multiline && k.utf8ByteSize ≤ 128

end Emit

/-- The state of the emitter: the text so far, the column, the indentation stack, and whether
the last thing written was a blank and whether the line holds only indentation. -/
structure Emitter where
  out : String := ""
  column : Nat := 0
  indent : Int := -1
  indents : List Int := []
  whitespace : Bool := true
  indention : Bool := true

/-- An emitting step. -/
abbrev EmitM := StateM Emitter

namespace Emit

/-- Writes a character within the line. -/
def put (c : Char) : EmitM Unit :=
  modify fun e => { e with out := e.out.push c, column := e.column + 1 }

/-- Ends the line. -/
def newline : EmitM Unit := modify fun e => { e with out := e.out.push '\n', column := 0 }

/-- Writes a break character of a scalar's text. -/
def writeBreak (c : Char) : EmitM Unit := modify fun e => { e with out := e.out.push c, column := 0 }

/-- Sets whether the line holds only indentation. -/
def setIndention (b : Bool) : EmitM Unit := modify fun e => { e with indention := b }

/-- Starts a line at the current indentation, unless the line already is at it. -/
def writeIndent : EmitM Unit := do
  let e ← get
  let ind := e.indent.toNat
  if !e.indention || e.column > ind || (e.column = ind && !e.whitespace) then newline
  let col := (← get).column
  for _ in [col:ind] do put ' '
  modify fun e => { e with whitespace := true, indention := true }

/-- Writes an indicator, after a space if one is needed and the last thing written is no blank. -/
def writeIndicator (s : String) (needBlank isBlank isIndention : Bool) : EmitM Unit := do
  if needBlank && !(← get).whitespace then put ' '
  for c in s.toList do put c
  modify fun e => { e with whitespace := isBlank, indention := e.indention && isIndention }

/-- Opens a level: two spaces deeper, or the same for a sequence written at its key's column.
The first level of a document is at column zero, or two for a scalar. -/
def increaseIndent (flow indentless : Bool) : EmitM Unit :=
  modify fun e => { e with
    indents := e.indent :: e.indents,
    indent := if e.indent < 0 then (if flow then 2 else 0) else if indentless then e.indent else e.indent + 2 }

/-- Closes a level. -/
def popIndent : EmitM Unit := modify fun e =>
  match e.indents with
  | i :: rest => { e with indent := i, indents := rest }
  | [] => { e with indent := -1 }

/-- A plain scalar. -/
def writePlain (s : String) : EmitM Unit := do
  let e ← get
  if !e.whitespace && !s.isEmpty then put ' '
  let mut breaks := false
  for c in s.toList do
    if c = ' ' then put c
    else if isBreak c then
      if !breaks && c = '\n' then newline
      writeBreak c
      setIndention true
      breaks := true
    else
      if breaks then writeIndent
      put c
      setIndention false
      breaks := false
  modify fun e => { e with whitespace := false, indention := false }

/-- A single-quoted scalar; a quote inside is doubled. -/
def writeSingleQuoted (s : String) : EmitM Unit := do
  writeIndicator "'" true false false
  let mut breaks := false
  for c in s.toList do
    if c = ' ' then put c
    else if isBreak c then
      if !breaks && c = '\n' then newline
      writeBreak c
      setIndention true
      breaks := true
    else
      if breaks then writeIndent
      if c = '\'' then put '\''
      put c
      setIndention false
      breaks := false
  if breaks then writeIndent
  writeIndicator "'" false false false
  modify fun e => { e with whitespace := false, indention := false }

/-- Upper-case hex digits of `v`, `width` of them. -/
def hexText (v width : Nat) : String :=
  String.ofList ((List.range width).reverse.map fun k =>
    let d := v / Nat.pow 16 k % 16
    if d < 10 then Char.ofNat (48 + d) else Char.ofNat (55 + d))

/-- The escape of a character in a double-quoted scalar, after the backslash. -/
def escape (c : Char) : String :=
  match c.toNat with
  | 0x00 => "0"
  | 0x07 => "a"
  | 0x08 => "b"
  | 0x09 => "t"
  | 0x0A => "n"
  | 0x0B => "v"
  | 0x0C => "f"
  | 0x0D => "r"
  | 0x1B => "e"
  | 0x22 => "\""
  | 0x5C => "\\"
  | 0x85 => "N"
  | 0xA0 => "_"
  | 0x2028 => "L"
  | 0x2029 => "P"
  | v =>
    if v ≤ 0xFF then "x" ++ hexText v 2
    else if v ≤ 0xFFFF then "u" ++ hexText v 4
    else "U" ++ hexText v 8

/-- A double-quoted scalar: breaks, quotes, backslashes and characters outside the printable set
are escaped. -/
def writeDoubleQuoted (s : String) : EmitM Unit := do
  writeIndicator "\"" true false false
  for c in s.toList do
    if !isPrintable c || isBreak c || c = '"' || c = '\\' then
      put '\\'
      for d in (escape c).toList do put d
    else put c
  writeIndicator "\"" false false false
  modify fun e => { e with whitespace := false, indention := false }

/-- The hints after `|`: the indentation when the text starts with a blank or a break, and the
chomping: `-` when it does not end with a break, `+` when it ends with two (or is one), none for
exactly one. -/
def blockHints (s : String) : EmitM Unit := do
  let cs := s.toList
  if cs.head?.any (fun c => c = ' ' || isBreak c) then writeIndicator "2" false false false
  let hint : Option String := match cs.reverse with
    | [] => some "-"
    | last :: rest =>
      if !isBreak last then some "-"
      else match rest with
        | [] => some "+"
        | prev :: _ => if isBreak prev then some "+" else none
  match hint with
  | some h => writeIndicator h false false false
  | none => pure ()

/-- A literal block scalar. -/
def writeLiteral (s : String) : EmitM Unit := do
  writeIndicator "|" true false false
  blockHints s
  newline
  modify fun e => { e with indention := true, whitespace := true }
  let mut breaks := true
  for c in s.toList do
    if isBreak c then
      writeBreak c
      setIndention true
      breaks := true
    else
      if breaks then writeIndent
      put c
      setIndention false
      breaks := false

/-- A scalar in the style its text and place allow; no scalar is written inside a flow
collection, since only empty ones are written in flow style. -/
def scalar (s : String) (requested : Style) (simpleKey : Bool) : EmitM Unit := do
  let style := selectStyle (analyze s) requested s.isEmpty false simpleKey
  increaseIndent true false
  match style with
  | .singleQuoted => writeSingleQuoted s
  | .doubleQuoted => writeDoubleQuoted s
  | .literal => writeLiteral s
  | _ => writePlain s
  popIndent

/-- An empty collection in flow style. -/
def emptyFlow (opening closing : String) : EmitM Unit := do
  writeIndicator opening true true false
  increaseIndent true false
  popIndent
  writeIndicator closing false false false

/-- A mapping key written as a text. -/
def key (k : String) (simple : Bool) : EmitM Unit :=
  match Node.ofText k with
  | .scalar s style => scalar s style simple
  | _ => pure ()

mutual

/-- A node; `mapping` when it is a mapping's key or value. -/
def node (n : Node) (mapping : Bool) : EmitM Unit :=
  match n with
  | .scalar s style => scalar s style false
  | .seq [] => emptyFlow "[" "]"
  | .seq items => do
    increaseIndent false (mapping && !(← get).indention)
    sequenceItems items
    popIndent
  | .map [] => emptyFlow "\x7b" "\x7d"
  | .map entries => do
    increaseIndent false false
    mappingEntries entries
    popIndent

/-- The items of a block sequence. -/
def sequenceItems : List Node → EmitM Unit
  | [] => pure ()
  | n :: rest => do
    writeIndent
    writeIndicator "-" true false true
    node n false
    sequenceItems rest

/-- The entries of a block mapping. -/
def mappingEntries : List (String × Node) → EmitM Unit
  | [] => pure ()
  | (k, v) :: rest => do
    writeIndent
    if simpleKeyOk k then
      key k true
      writeIndicator ":" false false false
    else
      writeIndicator "?" true false true
      key k false
      writeIndent
      writeIndicator ":" true false true
    node v true
    mappingEntries rest

end

end Emit

/-- The YAML document of a node. -/
def emit (n : Node) : String :=
  let act : EmitM Unit := do
    Emit.node n false
    Emit.writeIndent
  (act.run {}).2.out

end Yaml

end MergePatch
