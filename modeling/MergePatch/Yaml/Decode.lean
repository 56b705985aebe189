import MergePatch.Yaml.Document
import MergePatch.Yaml.Scalar
import MergePatch.Json.Value
/-!
# Reading YAML documents into values

A `DecodeM` reader walks the items of a loaded document by position. Each reader of a value
takes the next node: an alias is followed to the node it names (each time, up to a hundred times
the number of items in all), a scalar is resolved by `Yaml.resolve`, and a collection is read
entry by entry up to its end. Collections may nest 128 deep. An error raised while reading a
node without a place of its own gets the node's start and path.

`Decode.json` reads any node as a JSON value: floats beyond the finite range become `null`,
integers beyond 64 bits are refused, and a node with a local tag (`!name`) is an enum, which no
JSON value is. `Decode.text` takes any scalar's text; `Decode.u16` takes an unsigned integer
below `2 ^ 16`, written plain or as an `!!int` literal block; `Decode.mapping` reads a mapping (an empty text or empty plain scalar
reading as an empty one), and `Decode.dict` a mapping of text keys to JSON values, the last of
equal keys winning.

`Yaml.read` runs a reader on the first document of a text: the document's own error comes after
the reader's, and a second document is refused.
-/

namespace MergePatch

namespace Yaml

/-- The state of a reader: the items, what reading past them raises, the position and the
number of aliases followed. -/
structure Reader where
  items : Array (Item × Mark)
  failure : YamlError
  pos : Nat := 0
  jumps : Nat := 0

/-- A reading step. -/
abbrev DecodeM := EStateM YamlError Reader

/-- The nesting the reader allows. -/
def depthLimit : Nat := 128

/-- Enough steps for any nesting the depth limit allows, aliases included. -/
def decodeFuel : Nat := 4 * depthLimit + 16

namespace Decode

/-- The next item, not taken. -/
def peek : DecodeM (Item × Mark) := fun s =>
  match s.items[s.pos]? with
  | some p => .ok p s
  | none => .error s.failure s

/-- Takes the next item. -/
def next : DecodeM (Item × Mark) := do
  let p ← peek
  modify fun s => { s with pos := s.pos + 1 }
  pure p

/-- Runs a reader at another position, coming back after it. -/
def jump {α : Type} (target : Nat) (act : DecodeM α) : DecodeM α := do
  let s ← get
  if s.jumps + 1 > s.items.size * 100 then throw .repetitionLimit
  set { s with pos := target, jumps := s.jumps + 1 }
  let v ← act
  modify fun t => { t with pos := s.pos }
  pure v

/-- Gives the errors of a reader that have no place yet this node's place and path. -/
def placed {α : Type} (m : Mark) (path : Path) (act : DecodeM α) : DecodeM α :=
  tryCatch act fun e => throw (e.placedAt m path)

/-- A refusal in words. -/
def refuse {α : Type} (text : String) : DecodeM α := throw (.custom text none)

/-- The error for a node of the wrong kind, naming what was expected. -/
def wrongKind (item : Item) (expected : String) : YamlError :=
  match item with
  | .scalar tag s style =>
    match resolve tag s style with
    | .error msg => .custom msg none
    | .ok r => .custom ("invalid type: " ++ r.describe ++ ", expected " ++ expected) none
  | .sequenceStart _ => .custom ("invalid type: sequence, expected " ++ expected) none
  | .mappingStart _ => .custom ("invalid type: map, expected " ++ expected) none
  | _ => .endOfStream

/-- Whether a tag makes a node an enum variant: a local tag. -/
def enumTag (tag : Option String) : Bool :=
  match tag with
  | some t => t.startsWith "!"
  | none => false

/-- Skips one node, aliases not followed. -/
def skipNode : DecodeM Unit := do
  let n := (← get).items.size + 1
  let mut level : Nat := 0
  for _ in [0:n] do
    let (item, _) ← next
    match item with
    | .sequenceStart _ => level := level + 1
    | .mappingStart _ => level := level + 1
    | .sequenceEnd => level := level - 1
    | .mappingEnd => level := level - 1
    | _ => pure ()
    if level == 0 then break

/-- Reads the entries of a mapping whose start was taken, up to and with its end:
`entry first valuePath acc` reads one key (at the mapping's path) and its value. A key that is
a scalar names the value's path; any other key gives `?`. -/
def entries {α : Type} (path : Path) (init : α) (entry : Bool → Path → α → DecodeM α) :
    DecodeM α := do
  let n := (← get).items.size + 1
  let mut acc := init
  let mut first := true
  for _ in [0:n] do
    let (item, _) ← peek
    match item with
    | .mappingEnd => break
    | .void => break
    | .scalar _ key _ => acc ← entry first (.map path key) acc
    | _ => acc ← entry first (.unknown path) acc
    first := false
  discard next
  pure acc

/-- Reads the elements of a sequence whose start was taken, up to and with its end. -/
def elements {α : Type} (path : Path) (init : α) (element : Path → α → DecodeM α) :
    DecodeM α := do
  let n := (← get).items.size + 1
  let mut acc := init
  for i in [0:n] do
    let (item, _) ← peek
    match item with
    | .sequenceEnd => break
    | .void => break
    | _ => acc ← element (.seq path i) acc
  discard next
  pure acc

/-- The text of a scalar. -/
def text : Nat → Path → String → DecodeM String
  | 0, _, _ => throw .endOfStream
  | fuel + 1, path, expected => do
    let (item, m) ← next
    placed m path do
      match item with
      | .aliasTo target => jump target (text fuel (.throughAlias path) expected)
      | .scalar _ s _ => pure s
      | other => throw (wrongKind other expected)

/-- Whether a scalar may be read as a number of the core tag `kind`: a plain scalar, or a literal
block carrying that tag. -/
def numeric (kind : String) (tag : Option String) (style : ScalarStyle) : Bool :=
  match style with
  | .plain => true
  | .literal => tag == some (coreTag kind)
  | _ => false

/-- An unsigned integer below `2 ^ 16`, from a plain scalar or an `!!int` literal block. -/
def u16 : Nat → Path → DecodeM Nat
  | 0, _ => throw .endOfStream
  | fuel + 1, path => do
    let (item, m) ← next
    placed m path do
      match item with
      | .aliasTo target => jump target (u16 fuel (.throughAlias path))
      | .scalar tag s style =>
        match (if numeric "int" tag style then Resolve.readUnsigned s 64 else none) with
        | some n =>
          if n ≤ 65535 then pure n
          else refuse ("invalid value: integer `" ++ toString n ++ "`, expected u16")
        | none => throw (wrongKind item "u16")
      | other => throw (wrongKind other "u16")

/-- The JSON value of a resolved scalar; `none` for integers beyond 64 bits. -/
def scalarJson : Scalar → Option Json
  | .unit => some .null
  | .bool b => some (.bool b)
  | .unsigned n => some (.number (.nat (UInt64.ofNat n)))
  | .signed i => some (.number (Number.ofInt i))
  | .wideUnsigned _ => none
  | .wideSigned _ => none
  | .float x => some (if x.isFinite then .number (.float x) else .null)
  | .text s => some (.string s)

/-- The refusal of a node with a local tag. -/
def enumRefused : String := "invalid type: enum, expected any valid JSON value"

/-- Any node, as a JSON value. -/
def json : Nat → Path → Nat → DecodeM Json
  | 0, _, _ => do
    let (_, m) ← peek
    throw (.recursionLimit m)
  | fuel + 1, path, depth => do
    let (item, m) ← next
    placed m path do
      match item with
      | .aliasTo target => jump target (json fuel (.throughAlias path) depth)
      | .void => pure .null
      | .scalar tag s style =>
        if enumTag tag then refuse enumRefused
        else
          match resolve tag s style with
          | .error msg => refuse msg
          | .ok r =>
            match scalarJson r with
            | some j => pure j
            | none => refuse "JSON number out of range"
      | .sequenceStart tag =>
        if enumTag tag then refuse enumRefused
        else if depth == 0 then throw (.recursionLimit m)
        else
          let items ← elements path (#[] : Array Json) fun p acc => do
            let v ← json fuel p (depth - 1)
            pure (acc.push v)
          pure (.array items.toList)
      | .mappingStart tag =>
        if enumTag tag then refuse enumRefused
        else if depth == 0 then throw (.recursionLimit m)
        else
          let fields ← entries path ([] : Fields) fun first p acc => do
            let k ← text fuel path (if first then "a string key" else "a string")
            let v ← json fuel p (depth - 1)
            pure (Keyed.insert acc k v)
          pure (.object fields)
      | _ => throw .endOfStream

/-- A mapping read by `body` after its start; an empty text or an empty plain scalar reads as
`empty`, any other node is refused as not `expected`. -/
def mapping {α : Type} (expected : String) (empty : α) (body : Path → Nat → DecodeM α) :
    Nat → Path → Nat → DecodeM α
  | 0, _, _ => throw .endOfStream
  | fuel + 1, path, depth => do
    let (item, m) ← next
    placed m path do
      match item with
      | .aliasTo target => jump target (mapping expected empty body fuel (.throughAlias path) depth)
      | .mappingStart _ =>
        if depth == 0 then throw (.recursionLimit m) else body path (depth - 1)
      | .void => pure empty
      | .scalar _ "" .plain => pure empty
      | other => throw (wrongKind other expected)

/-- A mapping of text keys to JSON values. -/
def dict (fuel : Nat) (path : Path) (depth : Nat) : DecodeM Fields :=
  mapping "a map" [] (fun p d => entries p ([] : Fields) fun _ vp acc => do
    let k ← text fuel p "a string"
    let v ← json fuel vp d
    pure (Keyed.insert acc k v)) fuel path depth

end Decode

/-- Runs a reader on the first document of a text. -/
def read {α : Type} (text : String) (reader : DecodeM α) : Except YamlError α :=
  let (doc, more) := Document.load text
  match reader.run { items := doc.items, failure := doc.error.getD .endOfStream } with
  | .error e _ => .error e
  | .ok v _ =>
    match doc.error with
    | some e => .error e
    | none => if more then .error .moreThanOneDocument else .ok v

end Yaml

end MergePatch
