import EntityQuery.Text.Ranges

/-! # Blanks

The code points with the Unicode property White_Space. -/

namespace EntityQuery.Text

/-- The ranges of the property White_Space. -/
def blankRanges : Ranges :=
  [(0x9, 0xD), (0x20, 0x20), (0x85, 0x85), (0xA0, 0xA0), (0x1680, 0x1680), (0x2000, 0x200A),
   (0x2028, 0x2029), (0x202F, 0x202F), (0x205F, 0x205F), (0x3000, 0x3000)]

/-- A character that separates words and stands for nothing itself. -/
def isBlank (c : Char) : Bool :=
  blankRanges.contains c

/-- Without the blanks at both ends. -/
def trimBlanks (cs : List Char) : List Char :=
  ((cs.dropWhile isBlank).reverse.dropWhile isBlank).reverse

end EntityQuery.Text
