import EntityQuery.Json.Basic
import EntityQuery.Number.Decimal

/-! # Writing JSON

The compact form has no blanks; the indented form puts every item on a line of its own, two spaces
further in than the bracket around it. Both write a text with the fewest escapes: the quote, the
backslash and the control characters below the space. -/

namespace EntityQuery.Json

/-- JSON writes the shortest decimal, a tie going to the even digit, in full for leading exponents
from -5 to 15; a whole number keeps a zero after the point. -/
def numberLayout : Decimal.Layout where
  tie := .toEven
  positional e := -5 ≤ e && e < 16
  whole := ".0"
  mark := "e+"

/-- The text of a number. -/
def Number.text : Number → String
  | .natural n => toString n.toNat
  | .negative n => toString n.toInt
  | .real x => Decimal.text numberLayout x

/-- The last two hexadecimal digits of `n`. -/
def hexPair (n : Nat) : List Char :=
  [Nat.digitChar (n / 16 % 16), Nat.digitChar (n % 16)]

/-- One character as it stands in a JSON string. -/
def escapeChar (c : Char) : List Char :=
  if c = '"' then ['\\', '"']
  else if c = '\\' then ['\\', '\\']
  else if c = '\n' then ['\\', 'n']
  else if c = '\r' then ['\\', 'r']
  else if c = '\t' then ['\\', 't']
  else if c = '\x08' then ['\\', 'b']
  else if c = '\x0c' then ['\\', 'f']
  else if c.toNat < 0x20 then ['\\', 'u', '0', '0'] ++ hexPair c.toNat
  else [c]

/-- A text as a JSON string. -/
def stringText (s : String) : List Char :=
  '"' :: s.toList.flatMap escapeChar ++ ['"']

mutual

/-- The compact form of a value. -/
def compactChars : Json → List Char
  | null => "null".toList
  | bool b => if b then "true".toList else "false".toList
  | number n => n.text.toList
  | string s => stringText s
  | array items => '[' :: compactItems items ++ [']']
  | object members => '\x7b' :: compactMembers members ++ ['\x7d']

/-- The compact forms of the items of an array, with commas between them. -/
def compactItems : List Json → List Char
  | [] => []
  | [item] => compactChars item
  | item :: rest => compactChars item ++ ',' :: compactItems rest

/-- The compact forms of the members of an object, with commas between them. -/
def compactMembers : List (String × Json) → List Char
  | [] => []
  | [(key, value)] => stringText key ++ ':' :: compactChars value
  | (key, value) :: rest =>
    stringText key ++ ':' :: compactChars value ++ ',' :: compactMembers rest

end

/-- The compact form of a value as a text. -/
def compact (value : Json) : String := String.ofList (compactChars value)

/-- A new line with `depth` steps of indentation. -/
def lineBreak (depth : Nat) : List Char := '\n' :: List.replicate (2 * depth) ' '

mutual

/-- The indented form of a value that stands at the given depth. -/
def indentedChars (depth : Nat) : Json → List Char
  | array (item :: rest) =>
    '[' :: indentedItems (depth + 1) (item :: rest) ++ lineBreak depth ++ [']']
  | object (member :: rest) =>
    '\x7b' :: indentedMembers (depth + 1) (member :: rest) ++ lineBreak depth ++ ['\x7d']
  | value => compactChars value

/-- The items of an array, each on its own line. -/
def indentedItems (depth : Nat) : List Json → List Char
  | [] => []
  | [item] => lineBreak depth ++ indentedChars depth item
  | item :: rest => lineBreak depth ++ indentedChars depth item ++ ',' :: indentedItems depth rest

/-- The members of an object, each on its own line. -/
def indentedMembers (depth : Nat) : List (String × Json) → List Char
  | [] => []
  | [(key, value)] => lineBreak depth ++ stringText key ++ ':' :: ' ' :: indentedChars depth value
  | (key, value) :: rest =>
    lineBreak depth ++ stringText key ++ ':' :: ' ' :: indentedChars depth value ++
      ',' :: indentedMembers depth rest

end

/-- The indented form of a value as a text. -/
def indented (value : Json) : String := String.ofList (indentedChars 0 value)

end EntityQuery.Json
