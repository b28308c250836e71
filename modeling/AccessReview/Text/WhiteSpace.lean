/-!
# White space and trimming

The Unicode property White_Space holds for 25 code points: the ASCII controls TAB, LF, VT,
FF and CR, the space, NEL, NO-BREAK SPACE, OGHAM SPACE MARK, the spaces U+2000 to U+200A,
LINE SEPARATOR, PARAGRAPH SEPARATOR, NARROW NO-BREAK SPACE, MEDIUM MATHEMATICAL SPACE and
IDEOGRAPHIC SPACE. The zero-width space U+200B and the byte order mark U+FEFF are not among
them.

Names, ids, tags and codes are read after trimming: white space is cut from both ends and
kept inside.
-/

namespace AccessReview.Text

/-- The Unicode White_Space property. -/
def isWhiteSpace (c : Char) : Bool :=
  let n := c.toNat
  (0x09 ≤ n && n ≤ 0x0D) || n == 0x20 || n == 0x85 || n == 0xA0 || n == 0x1680 ||
    (0x2000 ≤ n && n ≤ 0x200A) || n == 0x2028 || n == 0x2029 || n == 0x202F ||
    n == 0x205F || n == 0x3000

/-- Drops white space from both ends of a character list. -/
def trimList (cs : List Char) : List Char :=
  ((cs.dropWhile isWhiteSpace).reverse.dropWhile isWhiteSpace).reverse

/-- Drops white space from both ends of a text. -/
def trim (s : String) : String :=
  String.ofList (trimList s.toList)

theorem trimList_nil : trimList [] = [] := rfl

end AccessReview.Text
