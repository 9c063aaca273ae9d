/-!
# White space

The characters with the Unicode property `White_Space`, and text without them at its ends.
-/

namespace AliasScript

namespace Text

/-- White space, of any kind. -/
def isSpace (c : Char) : Bool :=
  let code := c.toNat
  (9 ≤ code && code ≤ 13) || code == 0x20 || code == 0x85 || code == 0xA0 || code == 0x1680 ||
    (0x2000 ≤ code && code ≤ 0x200A) || code == 0x2028 || code == 0x2029 || code == 0x202F ||
    code == 0x205F || code == 0x3000

/-- The text without the white space around it. -/
def trimSpace (text : List Char) : List Char :=
  ((text.dropWhile isSpace).reverse.dropWhile isSpace).reverse

/-- The text without the line ends that close it. -/
def dropLineEnd (text : List Char) : List Char :=
  (text.reverse.dropWhile fun c ↦ c == '\n' || c == '\r').reverse

end Text

end AliasScript
