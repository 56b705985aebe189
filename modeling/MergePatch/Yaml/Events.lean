import MergePatch.Yaml.Tokens
/-!
# The YAML event parser

`Yaml.parse` reads the tokens of `Yaml.scan` into events. The parser is a pushdown machine: its
`Phase` says what the next token may be (a document start, a block mapping key, a flow sequence
entry, …), and a stack of phases says where to return once the current node is complete. Each
`step` yields one event and the mark where it starts; a missing key, value or entry yields an
empty plain scalar in its place. Tag handles are resolved against the `%TAG` directives of the
document and the two standard handles `!` and `!!`.

Tokens the scanner did not hand out before an error are out of reach: peeking at one raises the
scanner's error.
-/

namespace MergePatch

namespace Yaml

/-- What the parser expects next. -/
inductive Phase where
  | streamStart
  | implicitDocumentStart
  | documentStart
  | documentContent
  | documentEnd
  | blockNode
  | flowNode
  | blockSequenceFirstEntry
  | blockSequenceEntry
  | indentlessSequenceEntry
  | blockMappingFirstKey
  | blockMappingKey
  | blockMappingValue
  | flowSequenceFirstEntry
  | flowSequenceEntry
  | flowSequenceEntryMappingKey
  | flowSequenceEntryMappingValue
  | flowSequenceEntryMappingEnd
  | flowMappingFirstKey
  | flowMappingKey
  | flowMappingValue
  | flowMappingEmptyValue
  | finished
deriving DecidableEq, Repr, Inhabited

/-- The state of the parser. -/
structure Parser where
  tokens : Array Token
  available : Nat
  failure : SyntaxError
  pos : Nat := 0
  phase : Phase := .streamStart
  phases : List Phase := []
  marks : List Mark := []
  directives : List (String × String) := []

/-- A parsing step. -/
abbrev ParseM := EStateM SyntaxError Parser

namespace Parse

/-- The next token; past the tokens handed out, the scanner's error. -/
def peek : ParseM Token := fun s =>
  match s.tokens[s.pos]? with
  | some t => if s.pos < s.available then .ok t s else .error s.failure s
  | none => .error s.failure s

/-- Moves past the next token. -/
def skipToken : ParseM Unit := modify fun s => { s with pos := s.pos + 1 }

/-- Sets what comes next. -/
def setPhase (p : Phase) : ParseM Unit := modify fun s => { s with phase := p }

/-- Remembers where to return after the current node. -/
def pushPhase (p : Phase) : ParseM Unit := modify fun s => { s with phases := p :: s.phases }

/-- Returns to the phase the current node was entered from. -/
def popPhase : ParseM Unit := modify fun s =>
  match s.phases with
  | p :: rest => { s with phase := p, phases := rest }
  | [] => { s with phase := .finished }

/-- Remembers where a collection starts. -/
def pushMark (m : Mark) : ParseM Unit := modify fun s => { s with marks := m :: s.marks }

/-- Forgets the start of the innermost collection, giving it. -/
def popMark : ParseM Mark := fun s =>
  match s.marks with
  | m :: rest => .ok m { s with marks := rest }
  | [] => .ok {} s

/-- An error at a place. -/
def fail {α : Type} (problem : String) (m : Mark) : ParseM α :=
  throw { problem, problemMark := m }

/-- An error at a place, in a context that began at another. -/
def failIn {α : Type} (context : String) (cm : Mark) (problem : String) (m : Mark) : ParseM α :=
  throw { problem, problemMark := m, context := some (context, cm) }

/-- The empty plain scalar standing for an omitted node. -/
def emptyScalar (m : Mark) : Event × Mark := (.scalar {} "" .plain, m)

/-- Whether a token is a directive. -/
def isDirective : TokenKind → Bool
  | .versionDirective _ _ => true
  | .tagDirective _ _ => true
  | _ => false

/-- The stream start. -/
def streamStart : ParseM (Event × Mark) := do
  let t ← peek
  if t.kind != .streamStart then fail "did not find expected <stream-start>" t.start
  setPhase .implicitDocumentStart
  skipToken
  pure (.streamStart, t.start)

/-- Reads the directives before a document and installs its tag handles. -/
def directives : ParseM Unit := do
  let mut seenVersion := false
  let mut own : List (String × String) := []
  let n := (← get).tokens.size + 1
  for _ in [0:n] do
    let t ← peek
    match t.kind with
    | .versionDirective major minor =>
      if seenVersion then fail "found duplicate %YAML directive" t.start
      if major != 1 || (minor != 1 && minor != 2) then fail "found incompatible YAML document" t.start
      seenVersion := true
    | .tagDirective handle pre =>
      if own.any (·.1 == handle) then fail "found duplicate %TAG directive" t.start
      own := own ++ [(handle, pre)]
    | _ => break
    skipToken
  let standard := [("!", "!"), ("!!", "tag:yaml.org,2002:")].filter fun d => !own.any (·.1 == d.1)
  modify fun s => { s with directives := own ++ standard }

/-- A document start, explicit (`---`) or implicit, or the stream end. -/
def documentStart (implicit : Bool) : ParseM (Event × Mark) := do
  let mut t ← peek
  if !implicit then
    let n := (← get).tokens.size + 1
    for _ in [0:n] do
      if t.kind != .documentEnd then break
      skipToken
      t ← peek
  if implicit && !isDirective t.kind && t.kind != .documentStart && t.kind != .streamEnd then
    directives
    pushPhase .documentEnd
    setPhase .blockNode
    pure (.documentStart true, t.start)
  else if t.kind != .streamEnd then
    let start := t.start
    directives
    let d ← peek
    if d.kind != .documentStart then fail "did not find expected <document start>" d.start
    pushPhase .documentEnd
    setPhase .documentContent
    skipToken
    pure (.documentStart false, start)
  else
    setPhase .finished
    skipToken
    pure (.streamEnd, t.start)

/-- The end of a document, explicit (`...`) or implicit. -/
def documentEnd : ParseM (Event × Mark) := do
  let t ← peek
  let explicit := t.kind == .documentEnd
  if explicit then skipToken
  modify fun s => { s with directives := [] }
  setPhase .documentStart
  pure (.documentEnd (!explicit), t.start)

/-- Resolves a tag's handle against the directives of the document. -/
def resolveTag (start tagMark : Mark) : Option (String × String) → ParseM (Option String)
  | none => pure none
  | some (handle, suffix) =>
    if handle.isEmpty then pure (some suffix)
    else do
      match (← get).directives.find? (·.1 == handle) with
      | some (_, pre) => pure (some (pre ++ suffix))
      | none => failIn "while parsing a node" start "found undefined tag handle" tagMark

/-- A node: an alias, or properties followed by a scalar or the start of a collection. In
`indentless` position a `-` at the mapping's own column starts a sequence. -/
def node (block indentless : Bool) : ParseM (Event × Mark) := do
  let t ← peek
  match t.kind with
  | .aliasOf name =>
    popPhase
    skipToken
    pure (.aliasOf name, t.start)
  | _ =>
    let start := t.start
    let mut anchor : Option String := none
    let mut tagParts : Option (String × String) := none
    let mut tagMark := t.start
    let mut t := t
    match t.kind with
    | .anchor a =>
      anchor := some a
      skipToken
      t ← peek
      match t.kind with
      | .tag h s =>
        tagParts := some (h, s)
        tagMark := t.start
        skipToken
        t ← peek
      | _ => pure ()
    | .tag h s =>
      tagParts := some (h, s)
      tagMark := t.start
      skipToken
      t ← peek
      match t.kind with
      | .anchor a =>
        anchor := some a
        skipToken
        t ← peek
      | _ => pure ()
    | _ => pure ()
    let tag ← resolveTag start tagMark tagParts
    let props : Props := { anchor, tag }
    if indentless && t.kind == .blockEntry then
      setPhase .indentlessSequenceEntry
      pure (.sequenceStart props, start)
    else
      match t.kind with
      | .scalar text style =>
        popPhase
        skipToken
        pure (.scalar props text style, start)
      | .flowSequenceStart =>
        setPhase .flowSequenceFirstEntry
        pure (.sequenceStart props, start)
      | .flowMappingStart =>
        setPhase .flowMappingFirstKey
        pure (.mappingStart props, start)
      | kind =>
        if block && kind == .blockSequenceStart then
          setPhase .blockSequenceFirstEntry
          pure (.sequenceStart props, start)
        else if block && kind == .blockMappingStart then
          setPhase .blockMappingFirstKey
          pure (.mappingStart props, start)
        else if anchor.isSome || tag.isSome then
          popPhase
          pure (.scalar props "" .plain, start)
        else
          failIn (if block then "while parsing a block node" else "while parsing a flow node") start
            "did not find expected node content" t.start

/-- The content of an explicit document, which may be empty. -/
def documentContent : ParseM (Event × Mark) := do
  let t ← peek
  if isDirective t.kind || t.kind == .documentStart || t.kind == .documentEnd || t.kind == .streamEnd then
    popPhase
    pure (emptyScalar t.start)
  else node true false

/-- An entry of a block sequence, or its end. -/
def blockSequenceEntry (first : Bool) : ParseM (Event × Mark) := do
  if first then
    let t ← peek
    pushMark t.start
    skipToken
  let t ← peek
  if t.kind == .blockEntry then
    let m := t.stop
    skipToken
    let t ← peek
    if t.kind != .blockEntry && t.kind != .blockEnd then
      pushPhase .blockSequenceEntry
      node true false
    else
      setPhase .blockSequenceEntry
      pure (emptyScalar m)
  else if t.kind == .blockEnd then
    popPhase
    discard popMark
    skipToken
    pure (.sequenceEnd, t.start)
  else
    let cm ← popMark
    failIn "while parsing a block collection" cm "did not find expected '-' indicator" t.start

/-- An entry of a sequence written at its mapping's column, or its end. -/
def indentlessSequenceEntry : ParseM (Event × Mark) := do
  let t ← peek
  if t.kind == .blockEntry then
    let m := t.stop
    skipToken
    let t ← peek
    if t.kind != .blockEntry && t.kind != .key && t.kind != .value && t.kind != .blockEnd then
      pushPhase .indentlessSequenceEntry
      node true false
    else
      setPhase .indentlessSequenceEntry
      pure (emptyScalar m)
  else
    popPhase
    pure (.sequenceEnd, t.start)

/-- A key of a block mapping, or its end. -/
def blockMappingKey (first : Bool) : ParseM (Event × Mark) := do
  if first then
    let t ← peek
    pushMark t.start
    skipToken
  let t ← peek
  if t.kind == .key then
    let m := t.stop
    skipToken
    let t ← peek
    if t.kind != .key && t.kind != .value && t.kind != .blockEnd then
      pushPhase .blockMappingValue
      node true true
    else
      setPhase .blockMappingValue
      pure (emptyScalar m)
  else if t.kind == .blockEnd then
    popPhase
    discard popMark
    skipToken
    pure (.mappingEnd, t.start)
  else
    let cm ← popMark
    failIn "while parsing a block mapping" cm "did not find expected key" t.start

/-- A value of a block mapping, empty when none is written. -/
def blockMappingValue : ParseM (Event × Mark) := do
  let t ← peek
  if t.kind == .value then
    let m := t.stop
    skipToken
    let t ← peek
    if t.kind != .key && t.kind != .value && t.kind != .blockEnd then
      pushPhase .blockMappingKey
      node true true
    else
      setPhase .blockMappingKey
      pure (emptyScalar m)
  else
    setPhase .blockMappingKey
    pure (emptyScalar t.start)

/-- An entry of a flow sequence, or its end; `key: value` inside starts a one-pair mapping. -/
def flowSequenceEntry (first : Bool) : ParseM (Event × Mark) := do
  if first then
    let t ← peek
    pushMark t.start
    skipToken
  let mut t ← peek
  if t.kind != .flowSequenceEnd then
    if !first then
      if t.kind == .flowEntry then
        skipToken
        t ← peek
      else
        let cm ← popMark
        failIn "while parsing a flow sequence" cm "did not find expected ',' or ']'" t.start
  if t.kind == .key then
    setPhase .flowSequenceEntryMappingKey
    skipToken
    pure (.mappingStart {}, t.start)
  else if t.kind != .flowSequenceEnd then
    pushPhase .flowSequenceEntry
    node false false
  else
    popPhase
    discard popMark
    skipToken
    pure (.sequenceEnd, t.start)

/-- The key of a one-pair mapping in a flow sequence. -/
def flowSequenceEntryMappingKey : ParseM (Event × Mark) := do
  let t ← peek
  if t.kind != .value && t.kind != .flowEntry && t.kind != .flowSequenceEnd then
    pushPhase .flowSequenceEntryMappingValue
    node false false
  else
    setPhase .flowSequenceEntryMappingValue
    pure (emptyScalar t.stop)

/-- The value of a one-pair mapping in a flow sequence. -/
def flowSequenceEntryMappingValue : ParseM (Event × Mark) := do
  let mut t ← peek
  if t.kind == .value then
    skipToken
    t ← peek
    if t.kind != .flowEntry && t.kind != .flowSequenceEnd then
      pushPhase .flowSequenceEntryMappingEnd
      return (← node false false)
  setPhase .flowSequenceEntryMappingEnd
  pure (emptyScalar t.start)

/-- The end of a one-pair mapping in a flow sequence. -/
def flowSequenceEntryMappingEnd : ParseM (Event × Mark) := do
  let t ← peek
  setPhase .flowSequenceEntry
  pure (.mappingEnd, t.start)

/-- A key of a flow mapping, or its end. -/
def flowMappingKey (first : Bool) : ParseM (Event × Mark) := do
  if first then
    let t ← peek
    pushMark t.start
    skipToken
  let mut t ← peek
  if t.kind != .flowMappingEnd then
    if !first then
      if t.kind == .flowEntry then
        skipToken
        t ← peek
      else
        let cm ← popMark
        failIn "while parsing a flow mapping" cm "did not find expected ',' or '\x7d'" t.start
  if t.kind == .key then
    skipToken
    let k ← peek
    if k.kind != .value && k.kind != .flowEntry && k.kind != .flowMappingEnd then
      pushPhase .flowMappingValue
      node false false
    else
      setPhase .flowMappingValue
      pure (emptyScalar k.start)
  else if t.kind != .flowMappingEnd then
    pushPhase .flowMappingEmptyValue
    node false false
  else
    popPhase
    discard popMark
    skipToken
    pure (.mappingEnd, t.start)

/-- A value of a flow mapping; `empty` after a key written without `:`. -/
def flowMappingValue (empty : Bool) : ParseM (Event × Mark) := do
  let mut t ← peek
  if empty then
    setPhase .flowMappingKey
    return emptyScalar t.start
  if t.kind == .value then
    skipToken
    t ← peek
    if t.kind != .flowEntry && t.kind != .flowMappingEnd then
      pushPhase .flowMappingKey
      return (← node false false)
  setPhase .flowMappingKey
  pure (emptyScalar t.start)

/-- One event. -/
def step : ParseM (Event × Mark) := do
  match (← get).phase with
  | .streamStart => streamStart
  | .implicitDocumentStart => documentStart true
  | .documentStart => documentStart false
  | .documentContent => documentContent
  | .documentEnd => documentEnd
  | .blockNode => node true false
  | .flowNode => node false false
  | .blockSequenceFirstEntry => blockSequenceEntry true
  | .blockSequenceEntry => blockSequenceEntry false
  | .indentlessSequenceEntry => indentlessSequenceEntry
  | .blockMappingFirstKey => blockMappingKey true
  | .blockMappingKey => blockMappingKey false
  | .blockMappingValue => blockMappingValue
  | .flowSequenceFirstEntry => flowSequenceEntry true
  | .flowSequenceEntry => flowSequenceEntry false
  | .flowSequenceEntryMappingKey => flowSequenceEntryMappingKey
  | .flowSequenceEntryMappingValue => flowSequenceEntryMappingValue
  | .flowSequenceEntryMappingEnd => flowSequenceEntryMappingEnd
  | .flowMappingFirstKey => flowMappingKey true
  | .flowMappingKey => flowMappingKey false
  | .flowMappingValue => flowMappingValue false
  | .flowMappingEmptyValue => flowMappingValue true
  | .finished => pure (.streamEnd, {})

end Parse

/-- Runs the parser until the stream end or an error, at most `fuel` events. -/
def Parser.run : Nat → Parser → Array (Event × Mark) → Array (Event × Mark) × Option SyntaxError
  | 0, _, acc => (acc, none)
  | fuel + 1, p, acc =>
    match Parse.step.run p with
    | .ok (e, m) p' =>
      match e with
      | .streamEnd => (acc.push (e, m), none)
      | _ => Parser.run fuel p' (acc.push (e, m))
    | .error err _ => (acc, some err)

/-- The events of a YAML text with their start marks, and the error that ended them early. -/
def parse (text : String) : Array (Event × Mark) × Option SyntaxError :=
  let (tokens, stopped) := scan text
  let (available, failure) : Nat × SyntaxError := match stopped with
    | some (e, n) => (n, e)
    | none => (tokens.size, { problem := "did not find expected <stream-end>" })
  Parser.run (3 * tokens.size + 8) { tokens, available, failure } #[]

end Yaml

end MergePatch
