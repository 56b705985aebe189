import MergePatch.Text.Printable
/-!
# Quoted strings in messages

Messages that name a string value quote it: the text goes between double quotes, the quote and
the backslash get a backslash, NUL, tab, carriage return and line feed are written `\0`, `\t`,
`\r`, `\n`, and every character that is not printable or that extends the grapheme before it is
written `\u{h}` with its code point in lower-case hex and no leading zeros. All other characters,
non-ASCII ones included, stand as they are.
-/

namespace MergePatch

namespace Text

/-- Lower-case hex digits of `n`, without leading zeros (`0` for zero). -/
def hexDigits (n : Nat) : String :=
  String.ofList (Nat.toDigits 16 n)

/-- The quoted form of one character. -/
def quoteChar (c : Char) : String :=
  if c = '"' then "\\\""
  else if c = '\\' then "\\\\"
  else if c.toNat = 0 then "\\0"
  else if c = '\t' then "\\t"
  else if c = '\r' then "\\r"
  else if c = '\n' then "\\n"
  else if escapedInQuotes c then "\\u" ++ "\x7b" ++ hexDigits c.toNat ++ "\x7d"
  else String.singleton c

/-- A string between double quotes, escaped as above. -/
def quoted (s : String) : String :=
  "\"" ++ String.join (s.toList.map quoteChar) ++ "\""

end Text

end MergePatch
