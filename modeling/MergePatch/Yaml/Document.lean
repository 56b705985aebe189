import MergePatch.Yaml.Events
/-!
# YAML documents

`Document.load` keeps the node events of the first document of a text. Aliases are resolved
here: an alias names the event of the latest node anchored with its name, and an alias to a name
never anchored ends the document with `unknownAnchor`. A text with no document at all loads as a
single `void` item.

`YamlError` is every way reading YAML into a value can fail, and `YamlError.message` writes it:
a refusal in words carries the path of keys and indices where it arose and the place of the
node, written `path: words at line L column C`, the path left out at the root and the place
left out at the very start.
-/

namespace MergePatch

namespace Yaml

/-- Where a node sits below the root: keys of mappings, indices of sequences, aliases followed
and keys that are not plain text. -/
inductive Path where
  | root
  | seq (parent : Path) (index : Nat)
  | map (parent : Path) (key : String)
  | throughAlias (parent : Path)
  | unknown (parent : Path)
deriving Repr, Inhabited

namespace Path

/-- The written path: `.` at the root, `a.b[0]` below it, `?` for a key that is not text. -/
def render : Path → String
  | root => "."
  | seq p i => p.render ++ "[" ++ toString i ++ "]"
  | map p k => (match p with
      | root => ""
      | _ => p.render ++ ".") ++ k
  | throughAlias p => p.render
  | unknown p => (match p with
      | root => ""
      | _ => p.render ++ ".") ++ "?"

end Path

/-- Why a YAML text could not be read into a value. -/
inductive YamlError where
  /-- The text is not YAML. -/
  | malformed (e : SyntaxError)
  /-- A refusal in words, with the node's place and path once known. -/
  | custom (text : String) (place : Option (Mark × String))
  /-- The events ended where a value was expected. -/
  | endOfStream
  /-- The text holds a second document. -/
  | moreThanOneDocument
  /-- An alias names no anchor. -/
  | unknownAnchor (m : Mark)
  /-- Collections nest too deeply. -/
  | recursionLimit (m : Mark)
  /-- Aliases are followed too often. -/
  | repetitionLimit
deriving Repr, Inhabited

namespace YamlError

/-- ` at line L column C`, or nothing at the very start. -/
def placeText (m : Mark) : String :=
  if m.isPlaced then " at line " ++ toString (m.line + 1) ++ " column " ++ toString (m.column + 1) else ""

/-- The words of an error. -/
def message : YamlError → String
  | malformed e => e.message
  | custom t none => t
  | custom t (some (m, path)) => (if path == "." then "" else path ++ ": ") ++ t ++ placeText m
  | endOfStream => "EOF while parsing a value"
  | moreThanOneDocument => "deserializing from YAML containing more than one document is not supported"
  | unknownAnchor m => "unknown anchor" ++ placeText m
  | recursionLimit m => "recursion limit exceeded" ++ placeText m
  | repetitionLimit => "repetition limit exceeded"

/-- Gives a refusal that has no place yet the node's place and path. -/
def placedAt (m : Mark) (path : Path) : YamlError → YamlError
  | custom t none => custom t (some (m, path.render))
  | e => e

end YamlError

/-- A node event of a loaded document. -/
inductive Item where
  /-- The whole of an empty text. -/
  | void
  /-- An alias, by the position of the event it refers to. -/
  | aliasTo (target : Nat)
  | scalar (tag : Option String) (text : String) (style : ScalarStyle)
  | sequenceStart (tag : Option String)
  | sequenceEnd
  | mappingStart (tag : Option String)
  | mappingEnd
deriving Repr, Inhabited

/-- The node events of one document and the error that cut them short. -/
structure Document where
  items : Array (Item × Mark)
  error : Option YamlError
deriving Inhabited

/-- How the events of the first document ended. -/
inductive Ending where
  /-- The stream ended, at this mark, before any document end. -/
  | streamEnd (m : Mark)
  /-- The document ended; these events follow. -/
  | documentEnd (rest : List (Event × Mark))
  /-- An error ended the events. -/
  | broken (e : Option YamlError)

namespace Document

/-- Records an anchor for the item about to be added at position `index`. -/
def remember (anchor : Option String) (index : Nat) (anchors : List (String × Nat)) : List (String × Nat) :=
  match anchor with
  | some a => (a, index) :: anchors
  | none => anchors

/-- Collects the node events up to the end of the first document. -/
def collect : List (Event × Mark) → List (String × Nat) → Array (Item × Mark) →
    Array (Item × Mark) × Ending
  | [], _, items => (items, .broken none)
  | (e, m) :: rest, anchors, items =>
    match e with
    | .streamStart => collect rest anchors items
    | .documentStart _ => collect rest anchors items
    | .streamEnd => (items, .streamEnd m)
    | .documentEnd _ => (items, .documentEnd rest)
    | .aliasOf name =>
      match anchors.lookup name with
      | some i => collect rest anchors (items.push (.aliasTo i, m))
      | none => (items, .broken (some (.unknownAnchor m)))
    | .scalar p text style =>
      collect rest (remember p.anchor items.size anchors) (items.push (.scalar p.tag text style, m))
    | .sequenceStart p =>
      collect rest (remember p.anchor items.size anchors) (items.push (.sequenceStart p.tag, m))
    | .sequenceEnd => collect rest anchors (items.push (.sequenceEnd, m))
    | .mappingStart p =>
      collect rest (remember p.anchor items.size anchors) (items.push (.mappingStart p.tag, m))
    | .mappingEnd => collect rest anchors (items.push (.mappingEnd, m))

/-- The first document of a text, and whether anything but the stream end follows it. -/
def load (text : String) : Document × Bool :=
  let (events, failure) := parse text
  let parseError : YamlError := match failure with
    | some e => .malformed e
    | none => .endOfStream
  match collect events.toList [] #[] with
  | (items, .streamEnd m) =>
    ({ items := if items.isEmpty then #[(.void, m)] else items, error := none }, false)
  | (items, .documentEnd rest) =>
    let more := match rest with
      | (.streamEnd, _) :: _ => false
      | _ => true
    ({ items, error := none }, more)
  | (items, .broken e) => ({ items, error := some (e.getD parseError) }, false)

end Document

end Yaml

end MergePatch
