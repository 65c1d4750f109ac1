import EntityQuery.Text.Alphabetic
import EntityQuery.Text.LowerCase
import EntityQuery.Text.Numeral
import EntityQuery.Text.Split

/-! # Words

The words of a text are its longest runs of letters and numerals. An index of words holds them in
lower case. -/

namespace EntityQuery.Text

/-- A letter or a numeral. -/
def isWordChar (c : Char) : Bool := isAlphabetic c || isNumeral c

/-- The longest runs of letters and numerals of a text, from left to right. -/
def words (s : String) : List String :=
  ((splitWhere (!isWordChar ·) s.toList).filter (!·.isEmpty)).map String.ofList

/-- The words of a text in lower case. -/
def keywords (s : String) : List String := (words s).map lowerCase

end EntityQuery.Text
