import EntityQuery.Toml.Number

/-! # Documents

A TOML document is read line by line. A line is empty, or a header that opens a table, or a member
of the table that was opened last; a comment may end it. Arrays and inline tables are nested to a
fixed depth at most, and so are paths of keys.

* `ofText?` — the values of a document by their keys. -/

namespace EntityQuery.Toml

open Reader

/-- Values are not nested as deep as this, and no path has as many keys. -/
def depthLimit : Nat := 80

/-- A comment. -/
def comment : Reader Unit := do
  let _ ← char '#'
  let _ ← run isPrintable

/-- A single key. -/
def key : Reader String :=
  basicText <|> literalText <|> do
    let cs ← run fun c => c.isAlphanum || c = '_' || c = '-'
    return .ofList (← check (!·.isEmpty) cs)

/-- A path of keys with points between them. -/
def keyPath : Reader KeyPath := do
  let keys ← separated (char '.') do
    blanks
    let k ← key
    blanks
    return k
  if h : keys ≠ [] ∧ keys.length < depthLimit then return ⟨keys.dropLast, keys.getLast h.1⟩
  else failure

/-- A member: a path of keys and a value. -/
def member (value : Reader Value) : Reader (KeyPath × Value) := do
  let path ← keyPath
  let _ ← char '='
  blanks
  let v ← value
  return (path, v)

/-- Blanks, ends of lines and comments between the items of an array. -/
def gap : Reader Unit := do
  let _ ← many <|
    newline <|> (do let _ ← one isBlank) <|> do
      comment
      newline

/-- An array; a comma may stand behind its last item. -/
def array (value : Reader Value) : Reader Value := do
  let _ ← char '['
  let items ← optional do
    let items ← separated (char ',') do
      gap
      let v ← value
      gap
      return v
    let _ ← optional (char ',')
    return items
  gap
  let _ ← char ']'
  return .array (items.getD [])

/-- A table in one line. -/
def inlineTable (value : Reader Value) : Reader Value := do
  let _ ← char '\x7b'
  let members ← optional <| separated (char ',') do
    let m ← member value
    blanks
    return m
  blanks
  let _ ← char '\x7d'
  match (members.getD []).foldlM (fun ms (path, v) => Members.assign ms path v) [] with
  | some ms => return .table (membersToValues ms)
  | none => failure

/-- A value without others in it. -/
def flatValue : Reader Value :=
  (do text; return .text) <|> moment <|> number <|> do
    exactly "true" <|> exactly "false"
    return .truth

/-- A value that is nested to a depth at most. -/
def value : (depth : Nat) → Reader Value
  | 0 => flatValue
  | depth + 1 => flatValue <|> array (value depth) <|> inlineTable (value depth)

/-- What a line says. -/
inductive Statement where
  /-- Opens a table. -/
  | table (path : KeyPath)
  /-- Opens a further table of an array. -/
  | element (path : KeyPath)
  /-- Sets a member of the table that was opened last. -/
  | member (path : KeyPath) (v : Value)

/-- What stands in a line. -/
def statement : Reader Statement :=
  (do exactly "[["; let path ← keyPath; exactly "]]"; return .element path) <|>
  (do exactly "["; let path ← keyPath; exactly "]"; return .table path) <|>
  do
    let (path, v) ← member (value (depthLimit - 1))
    return .member path v

/-- A line. -/
def line : Reader (Option Statement) := do
  blanks
  let s ← optional statement
  blanks
  let _ ← optional comment
  newline <|> atEnd
  return s

/-- A document of which some lines have been read. -/
structure Draft where
  members : Members
  /-- The keys of the table that was opened last. -/
  opened : List String

namespace Draft

/-- Takes in a line. -/
def add (d : Draft) : Statement → Option Draft
  | .table path => do return ⟨← d.members.declare path, path.keys⟩
  | .element path => do return ⟨← d.members.declareElement path, path.keys⟩
  | .member path v => do return { d with members := ← d.members.assignIn d.opened path v }

end Draft

/-- The values of a document by their keys. A mark of the byte order may stand in front. -/
def ofText? (text : String) : Option (List (String × Value)) := do
  let cs := match text.toList with
    | '\ufeff' :: rest => rest
    | cs => cs
  let lines : Reader (List (Option Statement)) := do
    let lines ← many line
    atEnd
    return lines
  let (statements, _) ← lines cs
  let draft ← (statements.filterMap id).foldlM Draft.add ⟨[], []⟩
  return membersToValues draft.members

end EntityQuery.Toml
