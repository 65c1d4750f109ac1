import EntityQuery.Scalar

/-! # The words of a query

A query is cut into names, quoted texts, numbers and signs. Keywords are names here; where one is
expected, it is recognised without regard to case. -/

namespace EntityQuery.Query

/-- A sign of the query language. -/
inductive Sign where
  | equal
  | less
  | lessEqual
  | greater
  | greaterEqual
  | both
  | either
  | openParen
  | closeParen
  | comma
  | star
  deriving DecidableEq

/-- The spelling of a sign. -/
def Sign.text : Sign → String
  | equal => "="
  | less => "<"
  | lessEqual => "<="
  | greater => ">"
  | greaterEqual => ">="
  | both => "&&"
  | either => "||"
  | openParen => "("
  | closeParen => ")"
  | comma => ","
  | star => "*"

/-- A word of a query. -/
inductive Token where
  | name (s : String)
  | quoted (s : String)
  | int (n : Int64)
  | float (x : Binary64)
  | sign (s : Sign)
  deriving DecidableEq

/-- The word as messages show it. -/
def Token.text : Token → String
  | name s => s
  | quoted s => (Scalar.string s).text
  | int n => (Scalar.int n).text
  | float x => (Scalar.float x).text
  | sign s => s.text

/-- A word and the place where it starts, counted in bytes. -/
structure Located where
  token : Token
  offset : Nat
  deriving DecidableEq

/-- The small letter of an ASCII capital. -/
def lowerAscii (c : Char) : Char :=
  if 'A' ≤ c ∧ c ≤ 'Z' then Char.ofNat (c.toNat + 32) else c

/-- Whether a name spells a keyword, which is given in small letters. -/
def spells (keyword name : String) : Bool :=
  name.toList.map lowerAscii == keyword.toList

/-- Whether a word is a keyword. -/
def Token.isKeyword (keyword : String) : Token → Bool
  | name s => spells keyword s
  | _ => false

/-- The keywords that cannot be names of properties. -/
def reservedWords : List String :=
  ["and", "or", "not", "contains", "within", "of", "select", "where", "eq", "lt", "lte", "gt",
    "gte", "true", "false"]

/-- Whether a name is a keyword that cannot be the name of a property. -/
def isReserved (name : String) : Bool := reservedWords.any (spells · name)

end EntityQuery.Query
