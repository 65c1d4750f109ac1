import EntityQuery.Json.Token

/-! # JSON values as written

A JSON text taken apart without being interpreted: numbers are kept as digits, and the members of
an object stand in the order in which they are written, repeated keys included. Strings and keys
need not have a text; whoever asks for what they say has to refuse those without. The reader walks
along the words of the text once and keeps the brackets that are open on a stack. -/

namespace EntityQuery.Json

/-- A JSON value as written. -/
inductive Raw where
  | null
  | bool (b : Bool)
  | number (n : Numeral)
  | string (s : Option String)
  | array (items : List Raw)
  | object (members : List (Option String × Raw))

namespace Raw

/-- A bracket that is open, with what it holds so far, the latest first. -/
inductive Frame where
  | array (items : List Raw)
  /-- The member under `key` is being read. -/
  | object (members : List (Option String × Raw)) (key : Option String)

mutual

/-- Reads on where a value has to come. -/
def atValue (stack : List Frame) : List Token → Option Raw
  | .openArray :: .closeArray :: rest => afterValue stack (array []) rest
  | .openArray :: rest => atValue (.array [] :: stack) rest
  | .openObject :: .closeObject :: rest => afterValue stack (object []) rest
  | .openObject :: .string key :: .colon :: rest => atValue (.object [] key :: stack) rest
  | .null :: rest => afterValue stack null rest
  | .bool b :: rest => afterValue stack (bool b) rest
  | .number n :: rest => afterValue stack (number n) rest
  | .string s :: rest => afterValue stack (string s) rest
  | _ => none

/-- Reads on after a value inside the open brackets. -/
def afterValue : List Frame → Raw → List Token → Option Raw
  | [], value, [] => some value
  | .array items :: stack, value, .comma :: rest => atValue (.array (value :: items) :: stack) rest
  | .array items :: stack, value, .closeArray :: rest =>
    afterValue stack (array (value :: items).reverse) rest
  | .object members key :: stack, value, .comma :: .string next :: .colon :: rest =>
    atValue (.object ((key, value) :: members) next :: stack) rest
  | .object members key :: stack, value, .closeObject :: rest =>
    afterValue stack (object ((key, value) :: members).reverse) rest
  | _, _, _ => none

end

/-- The value that a text writes, with nothing but blanks around it. -/
def ofSpelling? (text : Text.Spelling) : Option Raw := do
  atValue [] (← tokens? text)

mutual

/-- How deep brackets are nested. -/
def depth : Raw → Nat
  | array items => itemsDepth items + 1
  | object members => membersDepth members + 1
  | _ => 0

/-- The depth of the deepest item. -/
def itemsDepth : List Raw → Nat
  | [] => 0
  | item :: rest => max item.depth (itemsDepth rest)

/-- The depth of the deepest member. -/
def membersDepth : List (Option String × Raw) → Nat
  | [] => 0
  | (_, value) :: rest => max value.depth (membersDepth rest)

end

end Raw

end EntityQuery.Json
