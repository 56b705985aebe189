/-!
# White space

`isWhiteSpace` is the Unicode `White_Space` property: the ASCII blanks from tab to carriage
return, the space, next line, no-break space, ogham space mark, the spaces from en quad to hair
space, the line and paragraph separators, the narrow no-break space, the medium mathematical space
and the ideographic space. Zero-width characters are not white space. `trim` drops white space
at both ends of a string.
-/

namespace MergePatch

namespace Text

/-- Whether a character has the Unicode `White_Space` property. -/
def isWhiteSpace (c : Char) : Bool :=
  let n := c.toNat
  (9 ≤ n && n ≤ 13) || n == 32 || n == 0x85 || n == 0xA0 || n == 0x1680 ||
    (0x2000 ≤ n && n ≤ 0x200A) || n == 0x2028 || n == 0x2029 || n == 0x202F ||
    n == 0x205F || n == 0x3000

/-- The string without white space at either end. -/
def trim (s : String) : String :=
  String.ofList ((s.toList.dropWhile isWhiteSpace).reverse.dropWhile isWhiteSpace).reverse

end Text

end MergePatch
