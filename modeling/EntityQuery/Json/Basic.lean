import EntityQuery.Number.Binary64

/-! # JSON values

The payloads of entities. A number is a natural number of 64 bits, a negative integer of 64 bits
or a double. The members of an object built with `Json.insert` are in ascending order of their
keys, each key once. -/

namespace EntityQuery

/-- A JSON number. -/
inductive Json.Number where
  /-- An integer from zero to `2 ^ 64 - 1`. -/
  | natural (n : UInt64)
  /-- An integer from `-2 ^ 63` to minus one. -/
  | negative (n : Int64)
  /-- A number written with a fraction or an exponent, or too large for an integer. -/
  | real (x : Binary64)
  deriving DecidableEq

/-- A JSON value. -/
inductive Json where
  | null
  | bool (b : Bool)
  | number (n : Json.Number)
  | string (s : String)
  | array (items : List Json)
  | object (members : List (String × Json))

namespace Json

instance : Inhabited Json := ⟨null⟩

/-- The double nearest to a number. -/
def Number.toBinary64 : Number → Binary64
  | .natural n => .ofUInt64 n
  | .negative n => .ofInt64 n
  | .real x => x

/-- The number for a signed integer. -/
def Number.ofInt64 (n : Int64) : Number :=
  if n < 0 then .negative n else .natural n.toUInt64

/-- The value under a key. -/
def lookup (key : String) : List (String × Json) → Option Json
  | [] => none
  | (k, v) :: rest => if k = key then some v else lookup key rest

/-- The members with the value of a key set. Ascending keys stay ascending. -/
def insert (key : String) (value : Json) : List (String × Json) → List (String × Json)
  | [] => [(key, value)]
  | (k, v) :: rest =>
    if key < k then (key, value) :: (k, v) :: rest
    else if key = k then (key, value) :: rest
    else (k, v) :: insert key value rest

/-- The object with the given members; of two with one key the later counts. -/
def ofMembers (members : List (String × Json)) : Json :=
  object (members.foldl (fun acc (k, v) => insert k v acc) [])

/-- The member of an object under a key. -/
def member? (key : String) : Json → Option Json
  | object members => lookup key members
  | _ => none

/-- The double nearest to a value that is a number. -/
def number? : Json → Option Binary64
  | number n => some n.toBinary64
  | _ => none

end Json

end EntityQuery
