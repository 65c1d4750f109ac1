import EntityQuery.Encoding.Base64Url
import EntityQuery.Error
import EntityQuery.Json.Reader
import EntityQuery.Json.Writer
import EntityQuery.Paging.Row
import EntityQuery.Text.Blank

/-! # Cursors

A cursor says where a page ended, so that the next one can start there. It names the plan that it
belongs to by its digest. A client is given a token: the cursor as JSON, spelled in letters that
need no escaping in addresses. -/

namespace EntityQuery

/-- Where a page ended. -/
structure Cursor where
  /-- The digest of the plan that handed out the page. -/
  digest : UInt64
  direction : Direction
  /-- The last id of the page. -/
  after : UInt64
  /-- The last row that a search has consumed. -/
  row : Option RowPosition
  deriving DecidableEq

namespace Json

/-- The JSON form of a natural number of 64 bits. -/
def ofUInt64 (n : UInt64) : Json := number (.natural n)

end Json

namespace Scalar

/-- A scalar as an object with the name of its kind as key. -/
def toJson : Scalar → Json
  | bool b => .object [("bool", .bool b)]
  | int n => .object [("int", .number (.ofInt64 n))]
  | float x => .object [("float", .number (.real x))]
  | string s => .object [("str", .string s)]

/-- The scalar that an object with the name of a kind as key stands for. -/
def ofRaw? : Json.Raw → Option Scalar
  | .object [(some "bool", .bool b)] => some (bool b)
  | .object [(some "int", .number n)] =>
    match n.natural?, n.negative? with
    | some i, _ => (signedOfWord? i).map int
    | none, some i => some (int i)
    | none, none => none
  | .object [(some "float", .number n)] => n.number?.map fun v => float v.toBinary64
  | .object [(some "str", .string s)] => s.map string
  | _ => none

end Scalar

/-- The JSON form of a direction. -/
def Direction.word : Direction → String
  | ascending => "ascending"
  | descending => "descending"

/-- The direction that a JSON value stands for: its word, or an object with the word as its only
key and null as value. -/
def Direction.ofRaw? : Json.Raw → Option Direction
  | .string (some s) | .object [(some s, .null)] =>
    if s = "ascending" then some .ascending
    else if s = "descending" then some .descending
    else none
  | _ => none

namespace Json.Raw

/-- The values of the named fields. An object may have further members, whatever their values are,
but no named one twice and no key without text; an array gives the values in the order of the names
and may leave out the last ones. -/
def fields? (names : List String) : Raw → Option (List (Option Raw))
  | object members =>
    if members.all (·.1.isSome) ∧
        names.all fun n => (members.filter (·.1 = some n)).length ≤ 1 then
      some (names.map fun n => members.lookup (some n))
    else none
  | array items =>
    if items.length ≤ names.length then
      some (items.map some ++ List.replicate (names.length - items.length) none)
    else none
  | _ => none

/-- The natural number of 64 bits that a value is. -/
def word? : Raw → Option UInt64
  | number n => n.natural?
  | _ => none

end Json.Raw

/-- The slot of a sort key that a JSON value stands for. -/
def SortKey.slotOfRaw? : Json.Raw → Option (Option Scalar)
  | .null => some none
  | v => (Scalar.ofRaw? v).map some

/-- The sort key that a JSON value stands for. -/
def SortKey.ofRaw? : Json.Raw → Option SortKey
  | .array items => items.mapM slotOfRaw?
  | _ => none

/-- The JSON form of a slot of a sort key. -/
def SortKey.slotJson : Option Scalar → Json
  | none => .null
  | some v => v.toJson

namespace RowPosition

/-- The JSON form of a row; an empty key is left out. -/
def toJson (row : RowPosition) : Json :=
  .object <| (if row.key.isEmpty then [] else [("key", .array (row.key.map SortKey.slotJson))]) ++
    [("id", .ofUInt64 row.id), ("version", .ofUInt64 row.version)]

/-- The row that a JSON value stands for. -/
def ofRaw? (v : Json.Raw) : Option RowPosition := do
  match ← v.fields? ["key", "id", "version"] with
  | [key, some id, some version] =>
    return ⟨← match key with
      | none => some []
      | some key => SortKey.ofRaw? key, ← id.word?, ← version.word?⟩
  | _ => none

end RowPosition

namespace Cursor

/-- The JSON form of a cursor, with the members in a fixed order; a missing row is left out. -/
def toJson (c : Cursor) : Json :=
  .object <| [("plan_hash", .ofUInt64 c.digest), ("order", .string c.direction.word),
      ("after", .ofUInt64 c.after)] ++
    match c.row with
    | none => []
    | some row => [("row", row.toJson)]

/-- The cursor that a JSON value stands for. -/
def ofRaw? (v : Json.Raw) : Option Cursor := do
  match ← v.fields? ["plan_hash", "order", "after", "row"] with
  | [some digest, some direction, some after, row] =>
    return ⟨← digest.word?, ← Direction.ofRaw? direction, ← after.word?,
      ← match row with
        | none | some .null => some none
        | some row => (RowPosition.ofRaw? row).map some⟩
  | _ => none

/-- The token for a cursor. -/
def token (c : Cursor) : String :=
  String.ofList (Base64Url.encode c.toJson.compact.toUTF8.data.toList)

/-- The cursor that a token stands for; blanks around the token are ignored. -/
def ofToken (token : String) : Except CursorError Cursor :=
  match Base64Url.decode? (Text.trimBlanks token.toList) with
  | none => .error .notBase64
  | some bytes =>
    match (Json.Raw.ofSpelling? (Text.spelling bytes)).bind ofRaw? with
    | none => .error .malformedBody
    | some c => .ok c

/-- The cursor that a token stands for, if it belongs to the plan with the given digest. -/
def ofTokenFor (digest : UInt64) (token : String) : Except CursorError Cursor :=
  match ofToken token with
  | .error e => .error e
  | .ok c => if c.digest = digest then .ok c else .error (.otherPlan c.digest digest)

end Cursor

end EntityQuery
