/-!
# YAML syntax

The pieces a YAML reader passes along: positions (`Mark`, counted in characters from zero),
tokens of the scanner, events of the parser, and the error that stops either.

A `SyntaxError` is written as its problem, then ` at line L column C` unless the problem is at the
very start (then ` at position N` if it has a byte offset), then the context it arose in, with its
own place when that differs from the problem's.
-/

namespace MergePatch

namespace Yaml

/-- A place in the text: characters before it, and its line and column from zero. -/
structure Mark where
  index : Nat := 0
  line : Nat := 0
  column : Nat := 0
deriving DecidableEq, Repr, Inhabited

/-- A place as messages write it: line and column from one, or the index at the start. -/
def Mark.describe (m : Mark) : String :=
  if m.line ≠ 0 ∨ m.column ≠ 0 then
    "line " ++ toString (m.line + 1) ++ " column " ++ toString (m.column + 1)
  else "position " ++ toString m.index

/-- Whether a place is past the very start. -/
def Mark.isPlaced (m : Mark) : Bool := m.line ≠ 0 || m.column ≠ 0

/-- How a scalar was written. -/
inductive ScalarStyle where
  | plain
  | singleQuoted
  | doubleQuoted
  | literal
  | folded
deriving DecidableEq, Repr, Inhabited

/-- The kinds of token. -/
inductive TokenKind where
  | streamStart
  | streamEnd
  | versionDirective (major minor : Nat)
  | tagDirective (handle pre : String)
  | documentStart
  | documentEnd
  | blockSequenceStart
  | blockMappingStart
  | blockEnd
  | flowSequenceStart
  | flowSequenceEnd
  | flowMappingStart
  | flowMappingEnd
  | blockEntry
  | flowEntry
  | key
  | value
  | aliasOf (name : String)
  | anchor (name : String)
  | tag (handle suffix : String)
  | scalar (text : String) (style : ScalarStyle)
deriving DecidableEq, Repr, Inhabited

/-- A token and where it starts and ends. -/
structure Token where
  kind : TokenKind
  start : Mark
  stop : Mark
deriving Repr, Inhabited

/-- Why text is not YAML. -/
structure SyntaxError where
  problem : String
  problemMark : Mark := {}
  problemOffset : Nat := 0
  context : Option (String × Mark) := none
deriving Repr, Inhabited

/-- The words of a syntax error. -/
def SyntaxError.message (e : SyntaxError) : String :=
  let place :=
    if e.problemMark.isPlaced then " at " ++ e.problemMark.describe
    else if e.problemOffset ≠ 0 then " at position " ++ toString e.problemOffset
    else ""
  let ctx := match e.context with
    | none => ""
    | some (c, m) =>
      ", " ++ c ++
        (if m.isPlaced && (m.line ≠ e.problemMark.line || m.column ≠ e.problemMark.column)
         then " at " ++ m.describe else "")
  e.problem ++ place ++ ctx

/-- The node properties an event may carry. -/
structure Props where
  anchor : Option String := none
  tag : Option String := none
deriving Repr, Inhabited

/-- The events of a YAML stream. -/
inductive Event where
  | streamStart
  | streamEnd
  | documentStart (implicit : Bool)
  | documentEnd (implicit : Bool)
  | aliasOf (name : String)
  | scalar (props : Props) (text : String) (style : ScalarStyle)
  | sequenceStart (props : Props)
  | sequenceEnd
  | mappingStart (props : Props)
  | mappingEnd
deriving Repr, Inhabited

end Yaml

end MergePatch
