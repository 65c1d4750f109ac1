import EntityQuery.Query.Token

/-! # Why a text is no query

Each error names the place where reading stopped, counted in bytes from the start of the text. -/

namespace EntityQuery.Query

/-- What the grammar asks for next. -/
inductive Expected where
  | endOfInput
  | byKeyword
  | fieldName
  | closeParen
  | propertyName
  | quotedText
  | distance
  | ofKeyword
  | latitude
  | comma
  | longitude
  | comparison
  | literal
  deriving DecidableEq

/-- What is asked for, in words. -/
def Expected.text : Expected → String
  | endOfInput => "end of input"
  | byKeyword => "'by'"
  | fieldName => "field name"
  | closeParen => "')'"
  | propertyName => "property name"
  | quotedText => "quoted string"
  | distance => "distance"
  | ofKeyword => "'of'"
  | latitude => "latitude"
  | comma => "','"
  | longitude => "longitude"
  | comparison => "comparison operator"
  | literal => "literal"

/-- Why a text is no query. -/
inductive ParseError where
  /-- The text ends where more is asked for. -/
  | unexpectedEnd (offset : Nat) (expected : Expected)
  /-- A word stands where the grammar does not allow it. -/
  | unexpectedToken (offset : Nat) (found : Token) (expected : Expected)
  /-- A character starts no word. -/
  | unexpectedChar (offset : Nat) (c : Char)
  /-- A quoted text is not closed. -/
  | unterminatedString (offset : Nat)
  /-- A backslash stands before a character that it cannot protect. -/
  | invalidEscape (offset : Nat) (c : Char)
  /-- The characters of a number do not make one, or it is out of range. -/
  | invalidNumber (offset : Nat) (text : String)
  /-- There is nothing but blanks. -/
  | empty
  deriving DecidableEq

namespace ParseError

/-- Where reading stopped. -/
def offset? : ParseError → Option Nat
  | unexpectedEnd o _ | unexpectedToken o _ _ | unexpectedChar o _ | unterminatedString o
  | invalidEscape o _ | invalidNumber o _ => some o
  | empty => none

/-- The name of the kind of error. -/
def code : ParseError → String
  | unexpectedEnd .. => "UnexpectedEnd"
  | unexpectedToken .. => "UnexpectedToken"
  | unexpectedChar .. => "UnexpectedChar"
  | unterminatedString .. => "UnterminatedString"
  | invalidEscape .. => "InvalidEscape"
  | invalidNumber .. => "InvalidNumber"
  | empty => "Empty"

/-- The error in words. -/
def message : ParseError → String
  | unexpectedEnd o e => s!"unexpected end of input at byte {o}, expected {e.text}"
  | unexpectedToken o t e => s!"unexpected '{t.text}' at byte {o}, expected {e.text}"
  | unexpectedChar o c => s!"unexpected character '{c}' at byte {o}"
  | unterminatedString o => s!"unterminated string starting at byte {o}"
  | invalidEscape o c => s!"invalid escape '\\{c}' at byte {o}"
  | invalidNumber o t => s!"invalid number '{t}' at byte {o}"
  | empty => "empty query"

end ParseError

end EntityQuery.Query
