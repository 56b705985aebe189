import MergePatch.Yaml.Syntax
/-!
# The YAML scanner

`Yaml.scan` turns text into tokens. It keeps the indentation columns of the open block
collections, closing them (`blockEnd`) as lines start further left, and for each flow level one
possible simple key: the place where a scalar, alias, anchor, tag or flow collection began, which
becomes a mapping key (`key`, and `blockMappingStart` when a block mapping opens there) once a
`:` follows on the same line within 1024 characters. A key at the indentation column of a block
collection is required: losing it is an error.

The text is read in blocks of 16384 bytes, each checked whole the first time the scanner looks
into it, the first block before any token: a character outside the printable set stops the scan
at that first look into its block, wherever in the block it stands. The result is every token scanned and, on an error, the
error with the number of tokens a reader could take before it: tokens behind a simple key that
may still change are not yet handed out.
-/

namespace MergePatch

namespace Yaml

/-- A place where a simple key may start. -/
structure SimpleKey where
  possible : Bool := false
  required : Bool := false
  tokenNumber : Nat := 0
  mark : Mark := {}
deriving Repr, Inhabited

/-- The state of the scanner. -/
structure Scanner where
  input : Array Char
  stopAt : Option (Nat × SyntaxError) := none
  pos : Nat := 0
  line : Nat := 0
  column : Nat := 0
  tokens : Array Token := #[]
  started : Bool := false
  finished : Bool := false
  flowLevel : Nat := 0
  simpleKeys : Array SimpleKey := #[]
  simpleKeyAllowed : Bool := false
  indent : Int := -1
  indents : List Int := []

/-- A scanning step. -/
abbrev ScanM := EStateM SyntaxError Scanner

namespace Scan

/-- A space or a tab. -/
def isBlank (c : Char) : Bool := c = ' ' || c = '\t'

/-- A line break. -/
def isBreak (c : Char) : Bool :=
  c = '\r' || c = '\n' || c = '\u0085' || c = '\u2028' || c = '\u2029'

/-- A character of anchors, aliases and tag handles. -/
def isWordChar (c : Char) : Bool := c.isAlphanum || c = '_' || c = '-'

/-- The end of the text, a blank or a break. -/
def blankZ : Option Char → Bool
  | none => true
  | some c => isBlank c || isBreak c

/-- The end of the text or a break. -/
def breakZ : Option Char → Bool
  | none => true
  | some c => isBreak c

/-- A blank, not the end. -/
def blankAt : Option Char → Bool
  | none => false
  | some c => isBlank c

/-- A break, not the end. -/
def breakAt : Option Char → Bool
  | none => false
  | some c => isBreak c

/-- Whether a character may stand in a YAML text. -/
def isPrintable (c : Char) : Bool :=
  let n := c.toNat
  n = 0x09 || n = 0x0A || n = 0x0D || (0x20 ≤ n && n ≤ 0x7E) || n = 0x85 ||
    (0xA0 ≤ n && n ≤ 0xD7FF) || (0xE000 ≤ n && n ≤ 0xFFFD) || (0x10000 ≤ n && n ≤ 0x10FFFF)

/-- The scanner's place. -/
def here : ScanM Mark := fun s => .ok ⟨s.pos, s.line, s.column⟩ s

/-- Fails if the next `n` characters reach a character that may not stand in the text. -/
def cache (n : Nat) : ScanM Unit := fun s =>
  match s.stopAt with
  | some (p, e) => if s.pos + n > p then .error e s else .ok () s
  | none => .ok () s

/-- The character `k` places ahead, if any. -/
def ahead (k : Nat) : ScanM (Option Char) := do
  cache (k + 1)
  fun s => .ok s.input[s.pos + k]? s

/-- Enough steps to walk the rest of the text. -/
def fuel : ScanM Nat := fun s => .ok (s.input.size - s.pos + 2) s

/-- Moves past one character of a line. -/
def skip : ScanM Unit := modify fun s => { s with pos := s.pos + 1, column := s.column + 1 }

/-- Moves past a line break: CR LF counts as one. -/
def skipLine : ScanM Unit := do
  let c0 ← ahead 0
  let c1 ← ahead 1
  if c0 == some '\r' && c1 == some '\n' then
    modify fun s => { s with pos := s.pos + 2, column := 0, line := s.line + 1 }
  else if breakAt c0 then
    modify fun s => { s with pos := s.pos + 1, column := 0, line := s.line + 1 }

/-- Moves past a line break and gives it as text: CR, LF, CR LF and NEL as a line feed, the
line and paragraph separators as they are. -/
def readLine : ScanM String := do
  let c0 ← ahead 0
  match c0 with
  | some '\u2028' => skipLine; pure "\u2028"
  | some '\u2029' => skipLine; pure "\u2029"
  | some c => if isBreak c then do skipLine; pure "\n" else pure ""
  | none => pure ""

/-- An error of the scanner at its place. -/
def problem {α : Type} (context : Option (String × Mark)) (what : String) : ScanM α := do
  let m ← here
  throw { problem := what, problemMark := m, context }

/-- Appends a token. -/
def addToken (t : Token) : ScanM Unit := modify fun s => { s with tokens := s.tokens.push t }

/-- Inserts a token at a position of the token list. -/
def insertToken (i : Nat) (t : Token) : ScanM Unit :=
  modify fun s => { s with tokens := (s.tokens.toList.take i ++ t :: s.tokens.toList.drop i).toArray }

/-- The simple key of the current flow level. -/
def topKey : ScanM SimpleKey := fun s => .ok (s.simpleKeys.back?.getD {}) s

/-- Replaces the simple key of the current flow level. -/
def setTopKey (k : SimpleKey) : ScanM Unit :=
  modify fun s => { s with simpleKeys := s.simpleKeys.pop.push k }

/-- Drops the simple key of the current flow level; a required one is an error. -/
def removeSimpleKey : ScanM Unit := do
  let k ← topKey
  if k.possible && k.required then
    problem (some ("while scanning a simple key", k.mark)) "could not find expected ':'"
  setTopKey { k with possible := false }

/-- Records that a simple key may start here. -/
def saveSimpleKey : ScanM Unit := do
  let s ← get
  let m ← here
  if s.simpleKeyAllowed then
    let required := s.flowLevel == 0 && s.indent == (s.column : Int)
    let k : SimpleKey := { possible := true, required, tokenNumber := s.tokens.size, mark := m }
    removeSimpleKey
    setTopKey k

/-- Drops the simple keys that can no longer be keys: on an earlier line or too far back. -/
def staleSimpleKeys : ScanM Unit := do
  let m ← here
  let keys ← (← get).simpleKeys.mapM fun k => do
    if k.possible && (k.mark.line < m.line || k.mark.index + 1024 < m.index) then
      if k.required then
        problem (some ("while scanning a simple key", k.mark)) "could not find expected ':'"
      pure { k with possible := false }
    else pure k
  modify fun s => { s with simpleKeys := keys }

/-- Opens a block collection at a column right of the current indentation. -/
def rollIndent (column : Nat) (number : Option Nat) (kind : TokenKind) (m : Mark) : ScanM Unit := do
  let s ← get
  if s.flowLevel == 0 && s.indent < (column : Int) then
    modify fun s => { s with indents := s.indent :: s.indents, indent := column }
    let t : Token := { kind, start := m, stop := m }
    match number with
    | none => addToken t
    | some n => insertToken n t

/-- Closes the block collections indented further than `column`. -/
def unrollIndent (column : Int) : ScanM Unit := do
  let n := (← get).indents.length + 1
  for _ in [0:n] do
    let s ← get
    if s.flowLevel == 0 && s.indent > column then
      let m ← here
      addToken { kind := .blockEnd, start := m, stop := m }
      match s.indents with
      | i :: rest => modify fun s => { s with indent := i, indents := rest }
      | [] => modify fun s => { s with indent := -1 }
    else break

/-- Skips blanks, comments and line breaks up to the next token. -/
def toNextToken : ScanM Unit := do
  let n ← fuel
  for _ in [0:n] do
    cache 1
    let s ← get
    if s.column == 0 && (← ahead 0) == some '\uFEFF' then skip
    for _ in [0:n] do
      let c ← ahead 0
      let s ← get
      if c == some ' ' || ((s.flowLevel > 0 || !s.simpleKeyAllowed) && c == some '\t') then skip
      else break
    if (← ahead 0) == some '#' then
      for _ in [0:n] do
        if breakZ (← ahead 0) then break
        skip
    if breakAt (← ahead 0) then
      skipLine
      if (← get).flowLevel == 0 then modify fun s => { s with simpleKeyAllowed := true }
    else break

/-- A token of one or more characters that stand alone. -/
def simpleToken (kind : TokenKind) (width : Nat) : ScanM Unit := do
  let start ← here
  for _ in [0:width] do skip
  let stop ← here
  addToken { kind, start, stop }

/-- The stream start. -/
def fetchStreamStart : ScanM Unit := do
  modify fun s => { s with indent := -1, simpleKeys := s.simpleKeys.push {}, simpleKeyAllowed := true,
                           started := true }
  let m ← here
  addToken { kind := .streamStart, start := m, stop := m }

/-- The stream end: every block collection closes. -/
def fetchStreamEnd : ScanM Unit := do
  modify fun s => if s.column ≠ 0 then { s with column := 0, line := s.line + 1 } else s
  unrollIndent (-1)
  removeSimpleKey
  modify fun s => { s with simpleKeyAllowed := false, finished := true }
  let m ← here
  addToken { kind := .streamEnd, start := m, stop := m }

/-- Characters of a word: letters, digits, `_` and `-`. -/
def word : ScanM String := do
  let n ← fuel
  let mut text := ""
  for _ in [0:n] do
    match ← ahead 0 with
    | some c => if isWordChar c then do text := text.push c; skip else break
    | none => break
  pure text

/-- Skips blanks. -/
def skipBlanks : ScanM Unit := do
  let n ← fuel
  for _ in [0:n] do
    if blankAt (← ahead 0) then skip else break

/-- Skips blanks and a comment to the end of the line, which must come next. -/
def endOfLine (context : String) (start : Mark) : ScanM Unit := do
  skipBlanks
  if (← ahead 0) == some '#' then
    let n ← fuel
    for _ in [0:n] do
      if breakZ (← ahead 0) then break
      skip
  if !breakZ (← ahead 0) then
    problem (some (context, start)) "did not find expected comment or line break"
  if breakAt (← ahead 0) then skipLine

/-- The value of a hex digit. -/
def hexValue? (c : Option Char) : Option Nat :=
  match c with
  | some c =>
    if '0' ≤ c ∧ c ≤ '9' then some (c.toNat - 48)
    else if 'a' ≤ c ∧ c ≤ 'f' then some (c.toNat - 87)
    else if 'A' ≤ c ∧ c ≤ 'F' then some (c.toNat - 55)
    else none
  | none => none

/-- A `%` escape of a tag URI, with the continuation escapes of its UTF-8 sequence. -/
def uriEscapes (context : String) (start : Mark) : ScanM String := do
  let mut bytes : Array UInt8 := #[]
  let mut width := 0
  for _ in [0:4] do
    let c0 ← ahead 0
    let h ← ahead 1
    let l ← ahead 2
    match c0, hexValue? h, hexValue? l with
    | some '%', some a, some b =>
      let octet := 16 * a + b
      if width == 0 then
        width := if octet < 0x80 then 1 else if octet / 32 == 6 then 2
          else if octet / 16 == 14 then 3 else if octet / 8 == 30 then 4 else 0
        if width == 0 then problem (some (context, start)) "found an incorrect leading UTF-8 octet"
      else if octet / 64 != 2 then problem (some (context, start)) "found an incorrect trailing UTF-8 octet"
      bytes := bytes.push octet.toUInt8
      skip; skip; skip
      if bytes.size == width then break
    | _, _, _ => problem (some (context, start)) "did not find URI escaped octet"
  pure ((String.fromUTF8? ⟨bytes⟩).getD "")

/-- The characters of a tag URI. -/
def isUriChar (uriChar : Bool) (c : Char) : Bool :=
  isWordChar c || ";/?:@&=+$.%!~*'()".toList.contains c || (uriChar && ",[]".toList.contains c)

/-- A tag URI, after the characters of `head` past its first. -/
def tagUri (uriChar directive : Bool) (head : String) (start : Mark) : ScanM String := do
  let context := if directive then "while parsing a %TAG directive" else "while parsing a tag"
  let mut text := String.ofList (head.toList.drop 1)
  let mut length := head.length
  let n ← fuel
  for _ in [0:n] do
    match ← ahead 0 with
    | some c =>
      if isUriChar uriChar c then
        if c == '%' then text := text ++ (← uriEscapes context start)
        else
          text := text.push c
          skip
        length := length + 1
      else break
    | none => break
  if length == 0 then problem (some (context, start)) "did not find expected tag URI"
  pure text

/-- A tag handle: `!`, a word, and `!` if one follows. -/
def tagHandle (directive : Bool) (start : Mark) : ScanM String := do
  let context := if directive then "while scanning a tag directive" else "while scanning a tag"
  if (← ahead 0) != some '!' then problem (some (context, start)) "did not find expected '!'"
  skip
  let w ← word
  let mut text := "!" ++ w
  if (← ahead 0) == some '!' then
    skip
    text := text.push '!'
  else if directive && text != "!" then
    problem (some ("while parsing a tag directive", start)) "did not find expected '!'"
  pure text

/-- A directive: `%YAML major.minor` or `%TAG handle prefix`. -/
def directive : ScanM Unit := do
  let start ← here
  skip
  let name ← word
  if name.isEmpty then problem (some ("while scanning a directive", start)) "could not find expected directive name"
  if !blankZ (← ahead 0) then
    problem (some ("while scanning a directive", start)) "found unexpected non-alphabetical character"
  let kind ← if name == "YAML" then do
      skipBlanks
      let number : ScanM Nat := do
        let mut v := 0
        let mut len := 0
        for _ in [0:12] do
          match ← ahead 0 with
          | some c =>
            if c.isDigit then
              len := len + 1
              if len > 9 then
                problem (some ("while scanning a %YAML directive", start)) "found extremely long version number"
              v := 10 * v + (c.toNat - 48)
              skip
            else break
          | none => break
        if len == 0 then problem (some ("while scanning a %YAML directive", start)) "did not find expected version number"
        pure v
      let major ← number
      if (← ahead 0) != some '.' then
        problem (some ("while scanning a %YAML directive", start)) "did not find expected digit or '.' character"
      skip
      let minor ← number
      pure (TokenKind.versionDirective major minor)
    else if name == "TAG" then do
      skipBlanks
      let handle ← tagHandle true start
      if !blankAt (← ahead 0) then
        problem (some ("while scanning a %TAG directive", start)) "did not find expected whitespace"
      skipBlanks
      let pre ← tagUri true true "" start
      if !blankZ (← ahead 0) then
        problem (some ("while scanning a %TAG directive", start)) "did not find expected whitespace or line break"
      pure (TokenKind.tagDirective handle pre)
    else problem (some ("while scanning a directive", start)) "found unknown directive name"
  let stop ← here
  endOfLine "while scanning a directive" start
  addToken { kind, start, stop }

/-- An anchor `&name` or an alias `*name`. -/
def anchorOrAlias (isAlias : Bool) : ScanM Unit := do
  let start ← here
  skip
  let name ← word
  let stop ← here
  let c ← ahead 0
  let ends := blankZ c || (match c with
    | some ch => "?:,]\x7d%@`".toList.contains ch
    | none => false)
  if name.isEmpty || !ends then
    problem (some (if isAlias then "while scanning an alias" else "while scanning an anchor", start))
      "did not find expected alphabetic or numeric character"
  addToken { kind := if isAlias then .aliasOf name else .anchor name, start, stop }

/-- A tag: `!<uri>`, `!handle!suffix`, `!suffix` or `!`. -/
def tagToken : ScanM Unit := do
  let start ← here
  let (handle, suffix) ← if (← ahead 1) == some '<' then do
      skip; skip
      let suffix ← tagUri true false "" start
      if (← ahead 0) != some '>' then problem (some ("while scanning a tag", start)) "did not find the expected '>'"
      skip
      pure ("", suffix)
    else do
      let handle ← tagHandle false start
      if handle.length > 1 && handle.startsWith "!" && handle.endsWith "!" then
        let suffix ← tagUri false false "" start
        pure (handle, suffix)
      else
        let suffix ← tagUri false false handle start
        if suffix.isEmpty then pure ("", "!") else pure ("!", suffix)
  let c ← ahead 0
  if !blankZ c then
    if (← get).flowLevel == 0 || c != some ',' then
      problem (some ("while scanning a tag", start)) "did not find expected whitespace or line break"
  let stop ← here
  addToken { kind := .tag handle suffix, start, stop }

/-- Whether the three characters ahead are a document marker `---` or `...`. -/
def atDocumentMarker : ScanM Bool := do
  let col := (← get).column
  let c0 ← ahead 0
  let c1 ← ahead 1
  let c2 ← ahead 2
  let c3 ← ahead 3
  pure (col == 0 && ((c0 == some '-' && c1 == some '-' && c2 == some '-') ||
    (c0 == some '.' && c1 == some '.' && c2 == some '.')) && blankZ c3)

/-- Folds the line breaks between two parts of a flow scalar. -/
def foldBreaks (leadingBreak trailingBreaks : String) : String :=
  if leadingBreak == "\n" then (if trailingBreaks.isEmpty then " " else trailingBreaks)
  else leadingBreak ++ trailingBreaks

/-- A plain scalar. -/
def plainScalar : ScanM Unit := do
  let indent : Int := (← get).indent + 1
  let start ← here
  let mut stop := start
  let mut text := ""
  let mut leadingBreak := ""
  let mut trailingBreaks := ""
  let mut whitespaces := ""
  let mut leadingBlanks := false
  let n ← fuel
  for _ in [0:n] do
    cache 4
    if ← atDocumentMarker then break
    if (← ahead 0) == some '#' then break
    for _ in [0:n] do
      let c ← ahead 0
      if blankZ c then break
      let flow := (← get).flowLevel > 0
      let next ← ahead 1
      if flow && c == some ':' && (match next with
          | some ch => ",?[]\x7b\x7d".toList.contains ch
          | none => false) then
        problem (some ("while scanning a plain scalar", start)) "found unexpected ':'"
      if (c == some ':' && blankZ next) || (flow && (match c with
          | some ch => ",[]\x7b\x7d".toList.contains ch
          | none => false)) then break
      if leadingBlanks then
        text := text ++ foldBreaks leadingBreak trailingBreaks
        leadingBreak := ""
        trailingBreaks := ""
        leadingBlanks := false
      else if !whitespaces.isEmpty then
        text := text ++ whitespaces
        whitespaces := ""
      match c with
      | some ch =>
        text := text.push ch
        skip
      | none => pure ()
      stop ← here
      cache 2
    let c ← ahead 0
    if !(blankAt c || breakAt c) then break
    for _ in [0:n] do
      let c ← ahead 0
      if blankAt c then
        if leadingBlanks && ((← get).column : Int) < indent && c == some '\t' then
          problem (some ("while scanning a plain scalar", start)) "found a tab character that violates indentation"
        if !leadingBlanks then
          whitespaces := whitespaces.push (c.getD ' ')
        skip
      else if breakAt c then
        if !leadingBlanks then
          whitespaces := ""
          leadingBreak ← readLine
          leadingBlanks := true
        else
          trailingBreaks := trailingBreaks ++ (← readLine)
      else break
    if (← get).flowLevel == 0 && ((← get).column : Int) < indent then break
  addToken { kind := .scalar text .plain, start, stop }
  if leadingBlanks then modify fun s => { s with simpleKeyAllowed := true }

/-- The character of a one-letter escape of a double-quoted scalar. -/
def escapeChar? (c : Char) : Option Char :=
  match c with
  | '0' => some (Char.ofNat 0)
  | 'a' => some (Char.ofNat 7)
  | 'b' => some (Char.ofNat 8)
  | 't' => some '\t'
  | '\t' => some '\t'
  | 'n' => some '\n'
  | 'v' => some (Char.ofNat 11)
  | 'f' => some (Char.ofNat 12)
  | 'r' => some '\r'
  | 'e' => some (Char.ofNat 27)
  | ' ' => some ' '
  | '"' => some '"'
  | '/' => some '/'
  | '\\' => some '\\'
  | 'N' => some '\u0085'
  | '_' => some '\u00A0'
  | 'L' => some '\u2028'
  | 'P' => some '\u2029'
  | _ => none

/-- A single- or double-quoted scalar. -/
def flowScalar (single : Bool) : ScanM Unit := do
  let start ← here
  let quote := if single then '\'' else '"'
  skip
  let mut text := ""
  let mut leadingBreak := ""
  let mut trailingBreaks := ""
  let mut whitespaces := ""
  let n ← fuel
  for _ in [0:n] do
    cache 4
    if ← atDocumentMarker then
      problem (some ("while scanning a quoted scalar", start)) "found unexpected document indicator"
    if (← ahead 0).isNone then
      problem (some ("while scanning a quoted scalar", start)) "found unexpected end of stream"
    cache 2
    let mut leadingBlanks := false
    for _ in [0:n] do
      let c ← ahead 0
      if blankZ c then break
      let next ← ahead 1
      if single && c == some '\'' && next == some '\'' then
        text := text.push '\''
        skip; skip
      else if c == some quote then break
      else if !single && c == some '\\' && breakAt next then
        cache 3
        skip
        skipLine
        leadingBlanks := true
        break
      else if !single && c == some '\\' then
        let code : Nat := match next with
          | some 'x' => 2
          | some 'u' => 4
          | some 'U' => 8
          | _ => 0
        if code == 0 then
          match next.bind escapeChar? with
          | some ch => text := text.push ch
          | none => problem (some ("while parsing a quoted scalar", start)) "found unknown escape character"
        skip; skip
        if code > 0 then
          cache code
          let mut value := 0
          for k in [0:code] do
            match hexValue? (← ahead k) with
            | some d => value := 16 * value + d
            | none => problem (some ("while parsing a quoted scalar", start)) "did not find expected hexadecimal number"
          if (0xD800 ≤ value && value ≤ 0xDFFF) || value > 0x10FFFF then
            problem (some ("while parsing a quoted scalar", start)) "found invalid Unicode character escape code"
          text := text.push (Char.ofNat value)
          for _ in [0:code] do skip
      else
        match c with
        | some ch =>
          text := text.push ch
          skip
        | none => pure ()
      cache 2
    cache 1
    if (← ahead 0) == some quote then break
    for _ in [0:n] do
      let c ← ahead 0
      if blankAt c then
        if !leadingBlanks then whitespaces := whitespaces.push (c.getD ' ')
        skip
      else if breakAt c then
        if !leadingBlanks then
          whitespaces := ""
          leadingBreak ← readLine
          leadingBlanks := true
        else
          trailingBreaks := trailingBreaks ++ (← readLine)
      else break
    if leadingBlanks then
      text := text ++ foldBreaks leadingBreak trailingBreaks
      leadingBreak := ""
      trailingBreaks := ""
    else
      text := text ++ whitespaces
      whitespaces := ""
  skip
  let stop ← here
  addToken { kind := .scalar text (if single then .singleQuoted else .doubleQuoted), start, stop }

/-- Indentation spaces and empty lines of a block scalar: the breaks read, the indentation
(fixed now if it was open) and the end of the last break. -/
def blockBreaks (indent : Nat) (start : Mark) : ScanM (Nat × String × Mark) := do
  let mut maxIndent := 0
  let mut breaks := ""
  let mut stop ← here
  let n ← fuel
  for _ in [0:n] do
    for _ in [0:n] do
      let col := (← get).column
      if (indent == 0 || col < indent) && (← ahead 0) == some ' ' then skip else break
    let col := (← get).column
    if col > maxIndent then maxIndent := col
    if (indent == 0 || col < indent) && (← ahead 0) == some '\t' then
      problem (some ("while scanning a block scalar", start)) "found a tab character where an indentation space is expected"
    if !breakAt (← ahead 0) then break
    breaks := breaks ++ (← readLine)
    stop ← here
  let mut ind := indent
  if ind == 0 then
    ind := maxIndent
    let level := (← get).indent
    if (ind : Int) < level + 1 then ind := (level + 1).toNat
    if ind < 1 then ind := 1
  pure (ind, breaks, stop)

/-- A literal (`|`) or folded (`>`) block scalar. -/
def blockScalar (literal : Bool) : ScanM Unit := do
  let start ← here
  skip
  let mut chomping : Int := 0
  let mut increment := 0
  let c ← ahead 0
  if c == some '+' || c == some '-' then
    chomping := if c == some '+' then 1 else -1
    skip
    let d ← ahead 0
    if (d.map Char.isDigit).getD false then
      if d == some '0' then
        problem (some ("while scanning a block scalar", start)) "found an indentation indicator equal to 0"
      increment := (d.getD '0').toNat - 48
      skip
  else if (c.map Char.isDigit).getD false then
    if c == some '0' then
      problem (some ("while scanning a block scalar", start)) "found an indentation indicator equal to 0"
    increment := (c.getD '0').toNat - 48
    skip
    let d ← ahead 0
    if d == some '+' || d == some '-' then
      chomping := if d == some '+' then 1 else -1
      skip
  endOfLine "while scanning a block scalar" start
  let level := (← get).indent
  let mut indent : Nat := if increment > 0 then (if level ≥ 0 then (level + increment).toNat else increment) else 0
  let (ind, tb, st) ← blockBreaks indent start
  indent := ind
  let mut trailingBreaks := tb
  let mut stop := st
  let mut text := ""
  let mut leadingBreak := ""
  let mut leadingBlank := false
  let n ← fuel
  for _ in [0:n] do
    cache 1
    if !((← get).column == indent && (← ahead 0).isSome) then break
    let trailingBlank := blankAt (← ahead 0)
    if !literal && leadingBreak == "\n" && !leadingBlank && !trailingBlank then
      if trailingBreaks.isEmpty then text := text.push ' '
      leadingBreak := ""
    else
      text := text ++ leadingBreak
      leadingBreak := ""
    text := text ++ trailingBreaks
    trailingBreaks := ""
    leadingBlank := blankAt (← ahead 0)
    for _ in [0:n] do
      match ← ahead 0 with
      | some ch =>
        if isBreak ch then break
        text := text.push ch
        skip
      | none => break
    cache 2
    leadingBreak ← readLine
    let (ind, tb, st) ← blockBreaks indent start
    indent := ind
    trailingBreaks := tb
    stop := st
  if chomping != -1 then text := text ++ leadingBreak
  if chomping == 1 then text := text ++ trailingBreaks
  addToken { kind := .scalar text (if literal then .literal else .folded), start, stop }

/-- Scans the next token, or the indentation changes and breaks before it. -/
def fetchNext : ScanM Unit := do
  cache 1
  if !(← get).started then
    fetchStreamStart
    return
  toNextToken
  staleSimpleKeys
  unrollIndent (← get).column
  cache 4
  let c1 ← ahead 1
  let s ← get
  let flow := s.flowLevel > 0
  match ← ahead 0 with
  | none => fetchStreamEnd
  | some c =>
    if s.column == 0 && c == '%' then
      unrollIndent (-1)
      removeSimpleKey
      modify fun s => { s with simpleKeyAllowed := false }
      directive
    else if ← atDocumentMarker then
      unrollIndent (-1)
      removeSimpleKey
      modify fun s => { s with simpleKeyAllowed := false }
      simpleToken (if c == '-' then .documentStart else .documentEnd) 3
    else if c == '[' || c == '{' then
      saveSimpleKey
      modify fun s => { s with simpleKeys := s.simpleKeys.push {}, flowLevel := s.flowLevel + 1,
                               simpleKeyAllowed := true }
      simpleToken (if c == '[' then .flowSequenceStart else .flowMappingStart) 1
    else if c == ']' || c == '}' then
      removeSimpleKey
      modify fun s =>
        if s.flowLevel > 0 then { s with flowLevel := s.flowLevel - 1, simpleKeys := s.simpleKeys.pop }
        else s
      modify fun s => { s with simpleKeyAllowed := false }
      simpleToken (if c == ']' then .flowSequenceEnd else .flowMappingEnd) 1
    else if c == ',' then
      removeSimpleKey
      modify fun s => { s with simpleKeyAllowed := true }
      simpleToken .flowEntry 1
    else if c == '-' && blankZ c1 then
      if !flow then
        if !s.simpleKeyAllowed then problem none "block sequence entries are not allowed in this context"
        rollIndent s.column none .blockSequenceStart (← here)
      removeSimpleKey
      modify fun s => { s with simpleKeyAllowed := true }
      simpleToken .blockEntry 1
    else if c == '?' && (flow || blankZ c1) then
      if !flow then
        if !s.simpleKeyAllowed then problem none "mapping keys are not allowed in this context"
        rollIndent s.column none .blockMappingStart (← here)
      removeSimpleKey
      modify fun s => { s with simpleKeyAllowed := !flow }
      simpleToken .key 1
    else if c == ':' && (flow || blankZ c1) then
      let k ← topKey
      if k.possible then
        insertToken k.tokenNumber { kind := .key, start := k.mark, stop := k.mark }
        rollIndent k.mark.column (some k.tokenNumber) .blockMappingStart k.mark
        setTopKey { k with possible := false }
        modify fun s => { s with simpleKeyAllowed := false }
      else
        if !flow then
          if !s.simpleKeyAllowed then problem none "mapping values are not allowed in this context"
          rollIndent s.column none .blockMappingStart (← here)
        modify fun s => { s with simpleKeyAllowed := !flow }
      simpleToken .value 1
    else if c == '*' || c == '&' then
      saveSimpleKey
      modify fun s => { s with simpleKeyAllowed := false }
      anchorOrAlias (c == '*')
    else if c == '!' then
      saveSimpleKey
      modify fun s => { s with simpleKeyAllowed := false }
      tagToken
    else if (c == '|' || c == '>') && !flow then
      removeSimpleKey
      modify fun s => { s with simpleKeyAllowed := true }
      blockScalar (c == '|')
    else if c == '\'' || c == '"' then
      saveSimpleKey
      modify fun s => { s with simpleKeyAllowed := false }
      flowScalar (c == '\'')
    else if !(isBlank c || isBreak c || "-?:,[]\x7b\x7d#&*!|>'\"%@`".toList.contains c) ||
        (c == '-' && !blankAt c1) || (!flow && (c == '?' || c == ':') && !blankZ c1) then
      saveSimpleKey
      modify fun s => { s with simpleKeyAllowed := false }
      plainScalar
    else
      let m ← here
      problem (some ("while scanning for the next token", m)) "found character that cannot start any token"

/-- The first token number a simple key may still claim. -/
def heldFrom (s : Scanner) : Nat :=
  s.simpleKeys.foldl (fun acc k => if k.possible then min acc k.tokenNumber else acc) s.tokens.size

end Scan

/-- The size of the blocks the text is read in: each block is checked whole, in bytes. -/
def blockSize : Nat := 16384

/-- How many leading characters end within the first `bound` bytes, `used` bytes being taken. -/
def charsWithin (bound : Nat) : List Char → Nat → Nat
  | [], _ => 0
  | c :: r, used =>
    if used + c.utf8Size ≤ bound then charsWithin bound r (used + c.utf8Size) + 1 else 0

/-- The characters of a text, cut at the first one that may not stand in YAML, with the error
that character raises and the number of characters before the block it is read in: the first
look at that block raises the error. A character belongs to the block of its last byte. -/
def readable (text : String) : Array Char × Option (Nat × SyntaxError) :=
  let cs := text.toList
  match cs.findIdx? (fun c => !Scan.isPrintable c) with
  | some i =>
    let offset := (String.ofList (cs.take i)).utf8ByteSize
    let width := match cs[i]? with
      | some c => c.utf8Size
      | none => 1
    let block := (offset + width - 1) / blockSize
    let start := charsWithin (block * blockSize) cs 0
    ((cs.take i).toArray,
      some (start, { problem := "control characters are not allowed", problemOffset := offset }))
  | none => (cs.toArray, none)

/-- The tokens of a text, and the error that stopped the scan with the number of tokens handed
out before it. -/
def scan (text : String) : Array Token × Option (SyntaxError × Nat) :=
  let (chars, stopAt) := readable text
  let start : Scanner := { input := chars, stopAt }
  let rec go : Nat → Nat → Scanner → Array Token × Option (SyntaxError × Nat)
    | 0, _, s => (s.tokens, none)
    | fuel + 1, _, s =>
      if s.finished then (s.tokens, none)
      else
        let held := Scan.heldFrom s
        match Scan.fetchNext.run s with
        | .ok _ s' => go fuel held s'
        | .error e s' => (s'.tokens, some (e, held))
  go (chars.size + 4) 0 start

end Yaml

end MergePatch
