import MergePatch.Json.Value
/-!
# JSON text

`Json.compact` writes a value with no blanks; `Json.pretty` breaks after every opening bracket
and member, indenting by two spaces per level, with `": "` between a key and its value; an empty
array or object stays `[]` or `{}`. Both write object members in key order.

In a string only the quote, the backslash and the control characters below `U+0020` are escaped:
`\b`, `\t`, `\n`, `\f` and `\r` by name, the others as `\u00XX` with lower-case hex digits.
Every other character is written as it is.
-/

namespace MergePatch

namespace Json

/-- The lower-case hex digit of `n < 16`. -/
def hexDigit (n : Nat) : Char :=
  if n < 10 then Char.ofNat (48 + n) else Char.ofNat (87 + n)

/-- The escaped form of one character inside a JSON string. -/
def escapeChar (c : Char) : String :=
  if c = '"' then "\\\""
  else if c = '\\' then "\\\\"
  else if c.toNat = 8 then "\\b"
  else if c = '\t' then "\\t"
  else if c = '\n' then "\\n"
  else if c.toNat = 12 then "\\f"
  else if c = '\r' then "\\r"
  else if c.toNat < 32 then
    "\\u00" ++ String.singleton (hexDigit (c.toNat / 16)) ++ String.singleton (hexDigit (c.toNat % 16))
  else String.singleton c

/-- A string in quotes, escaped. -/
def quote (s : String) : String :=
  "\"" ++ String.join (s.toList.map escapeChar) ++ "\""

mutual

/-- The text of a value with no blanks. -/
def compact : Json → String
  | .null => "null"
  | .bool b => if b then "true" else "false"
  | .number n => n.render
  | .string s => quote s
  | .array items => "[" ++ compactList items ++ "]"
  | .object fields => "\x7b" ++ compactFields fields ++ "\x7d"

/-- Elements separated by commas. -/
def compactList : List Json → String
  | [] => ""
  | [x] => compact x
  | x :: xs => compact x ++ "," ++ compactList xs

/-- Members separated by commas. -/
def compactFields : List (String × Json) → String
  | [] => ""
  | [(k, x)] => quote k ++ ":" ++ compact x
  | (k, x) :: xs => quote k ++ ":" ++ compact x ++ "," ++ compactFields xs

end

/-- Two spaces per level. -/
def indent (level : Nat) : String := String.ofList (List.replicate (2 * level) ' ')

mutual

/-- The text of a value at nesting `level`, broken over lines. -/
def prettyAt (level : Nat) : Json → String
  | .array [] => "[]"
  | .object [] => "\x7b\x7d"
  | .array items => "[\n" ++ prettyList (level + 1) items ++ "\n" ++ indent level ++ "]"
  | .object fields => "\x7b\n" ++ prettyFields (level + 1) fields ++ "\n" ++ indent level ++ "\x7d"
  | j => compact j

/-- Elements, one per line. -/
def prettyList (level : Nat) : List Json → String
  | [] => ""
  | [x] => indent level ++ prettyAt level x
  | x :: xs => indent level ++ prettyAt level x ++ ",\n" ++ prettyList level xs

/-- Members, one per line. -/
def prettyFields (level : Nat) : List (String × Json) → String
  | [] => ""
  | [(k, x)] => indent level ++ quote k ++ ": " ++ prettyAt level x
  | (k, x) :: xs => indent level ++ quote k ++ ": " ++ prettyAt level x ++ ",\n" ++ prettyFields level xs

end

/-- The text of a value broken over lines with two-space indents. -/
def pretty (j : Json) : String := prettyAt 0 j

end Json

end MergePatch
