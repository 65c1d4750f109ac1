import EntityQuery.Query.Basic
import EntityQuery.Query.Lexer

/-! # Reading queries

The grammar, with keywords in any case and reserved words excluded from the names:

* query: `select` and a star or a list of fields, optionally `where` and a filter; or a filter
  alone; then optionally `order by` and a list of fields, each optionally followed by `asc` or
  `desc`
* filter: a conjunction, optionally followed by `or` (or `||`) and a filter
* conjunction: an operand, optionally followed by `and` (or `&&`) and a conjunction
* operand: `not` and an operand; a filter in parentheses; or a predicate
* predicate: a name and a comparison with a literal; a name, `contains` and a quoted text; or a
  name, `within`, a number, `of`, a number, a comma and a number

A reader takes words from the front of a list and gives back the list that is left, which is
shorter. What is refused is refused at the first word that cannot stand where it stands. -/

namespace EntityQuery.Query

/-- The outcome of reading from the front of `ts`: a result and what is left, or an error. -/
abbrev Reading (α : Type) (ts : List Located) :=
  Except ParseError (α × { rest : List Located // rest.length < ts.length })

namespace Reading

variable {α β : Type} {ts : List Located}

/-- The outcome with its result changed. -/
def map (f : α → β) (r : Reading α ts) : Reading β ts :=
  match r with
  | .error e => .error e
  | .ok (a, rest) => .ok (f a, rest)

/-- Reads on where the first reading stopped. -/
def andThen (r : Reading α ts) (next : α → (rest : List Located) → Reading β rest) :
    Reading β ts :=
  match r with
  | .error e => .error e
  | .ok (a, ⟨rest, h⟩) =>
    match next a rest with
    | .error e => .error e
    | .ok (b, ⟨rest', h'⟩) => .ok (b, ⟨rest', Nat.lt_trans h' h⟩)

/-- The outcome of reading after a first word. -/
def afterWord {t : Located} (r : Reading α ts) : Reading α (t :: ts) :=
  match r with
  | .error e => .error e
  | .ok (a, ⟨rest, h⟩) => .ok (a, ⟨rest, Nat.lt_succ_of_lt h⟩)

end Reading

/-- The error of reading on at `ts` in a text that ends at `stop`. -/
def unexpected (stop : Nat) (expected : Expected) : List Located → ParseError
  | [] => .unexpectedEnd stop expected
  | t :: _ => .unexpectedToken t.offset t.token expected

/-- One word, if `read?` makes something of it. -/
def readWord {α : Type} (stop : Nat) (expected : Expected) (read? : Token → Option α) :
    (ts : List Located) → Reading α ts
  | [] => .error (unexpected stop expected [])
  | t :: rest =>
    match read? t.token with
    | none => .error (unexpected stop expected (t :: rest))
    | some a => .ok (a, ⟨rest, Nat.lt_succ_self _⟩)

/-- A name that is not reserved. -/
def propertyName? : Token → Option String
  | .name s => if isReserved s then none else some s
  | _ => none

/-- The keyword in question. -/
def keyword? (keyword : String) (t : Token) : Option Unit :=
  if t.isKeyword keyword then some () else none

/-- The sign in question. -/
def sign? (s : Sign) (t : Token) : Option Unit :=
  if t = .sign s then some () else none

/-- A text in quotes. -/
def quoted? : Token → Option String
  | .quoted s => some s
  | _ => none

/-- A number, as a double. -/
def measure? : Token → Option Binary64
  | .int n => some (.ofInt64 n)
  | .float x => some x
  | _ => none

/-- A comparison, as a sign or as a keyword. -/
def comparison? (t : Token) : Option Comparison :=
  if t = .sign .equal ∨ t.isKeyword "eq" then some .equal
  else if t = .sign .less ∨ t.isKeyword "lt" then some .less
  else if t = .sign .lessEqual ∨ t.isKeyword "lte" then some .lessEqual
  else if t = .sign .greater ∨ t.isKeyword "gt" then some .greater
  else if t = .sign .greaterEqual ∨ t.isKeyword "gte" then some .greaterEqual
  else none

/-- A literal. -/
def literal? : Token → Option Scalar
  | .int n => some (.int n)
  | .float x => some (.float x)
  | .quoted s => some (.string s)
  | .name s =>
    if spells "true" s then some (.bool true)
    else if spells "false" s then some (.bool false)
    else none
  | _ => none

/-- Whether a word stands between the operands of a disjunction. -/
def joinsEither (t : Token) : Bool := t = .sign .either || t.isKeyword "or"

/-- Whether a word stands between the operands of a conjunction. -/
def joinsBoth (t : Token) : Bool := t = .sign .both || t.isKeyword "and"

/-- The radius and the centre of an area. -/
def readArea (stop : Nat) (property : String) (ts : List Located) : Reading Predicate ts :=
  (readWord stop .distance measure? ts).andThen fun distance ts =>
  (readWord stop .ofKeyword (keyword? "of") ts).andThen fun _ ts =>
  (readWord stop .latitude measure? ts).andThen fun latitude ts =>
  (readWord stop .comma (sign? .comma) ts).andThen fun _ ts =>
  (readWord stop .longitude measure? ts).map fun (longitude : Binary64) =>
  .within ⟨property, distance, latitude, longitude⟩

/-- A comparison with a literal. -/
def readComparison (stop : Nat) (property : String) (ts : List Located) : Reading Predicate ts :=
  (readWord stop .comparison comparison? ts).andThen fun comparison ts =>
  (readWord stop .literal literal? ts).map fun value =>
  .compare property comparison value

/-- What a predicate says of its property. -/
def readCondition (stop : Nat) (property : String) : (ts : List Located) → Reading Predicate ts
  | [] => readComparison stop property []
  | t :: rest =>
    if t.token.isKeyword "contains" then
      ((readWord stop .quotedText quoted? rest).map (.contains property ·)).afterWord
    else if t.token.isKeyword "within" then (readArea stop property rest).afterWord
    else readComparison stop property (t :: rest)

/-- A predicate. -/
def readPredicate (stop : Nat) (ts : List Located) : Reading Predicate ts :=
  (readWord stop .propertyName propertyName? ts).andThen (readCondition stop)

mutual

/-- A filter. -/
def readFilter (stop : Nat) (ts : List Located) : Reading Filter ts :=
  match readConjunction stop ts with
  | .error e => .error e
  | .ok (left, ⟨[], h⟩) => .ok (left, ⟨[], h⟩)
  | .ok (left, ⟨t :: rest, h⟩) =>
    if joinsEither t.token then
      have : rest.length < ts.length := Nat.lt_of_succ_lt h
      match readFilter stop rest with
      | .error e => .error e
      | .ok (right, ⟨rest', h'⟩) => .ok (.or left right, ⟨rest', Nat.lt_trans h' this⟩)
    else .ok (left, ⟨t :: rest, h⟩)
termination_by 3 * ts.length + 2

/-- A conjunction. -/
def readConjunction (stop : Nat) (ts : List Located) : Reading Filter ts :=
  match readOperand stop ts with
  | .error e => .error e
  | .ok (left, ⟨[], h⟩) => .ok (left, ⟨[], h⟩)
  | .ok (left, ⟨t :: rest, h⟩) =>
    if joinsBoth t.token then
      have : rest.length < ts.length := Nat.lt_of_succ_lt h
      match readConjunction stop rest with
      | .error e => .error e
      | .ok (right, ⟨rest', h'⟩) => .ok (.and left right, ⟨rest', Nat.lt_trans h' this⟩)
    else .ok (left, ⟨t :: rest, h⟩)
termination_by 3 * ts.length + 1

/-- An operand. -/
def readOperand (stop : Nat) (ts : List Located) : Reading Filter ts :=
  match ts with
  | [] => (readPredicate stop []).map .leaf
  | t :: rest =>
    if t.token.isKeyword "not" then ((readOperand stop rest).map .not).afterWord
    else if t.token = .sign .openParen then
      match readFilter stop rest with
      | .error e => .error e
      | .ok (inner, ⟨rest', h⟩) =>
        match readWord stop .closeParen (sign? .closeParen) rest' with
        | .error e => .error e
        | .ok (_, ⟨rest'', h'⟩) =>
          .ok (inner, ⟨rest'', Nat.lt_succ_of_lt (Nat.lt_trans h' h)⟩)
    else (readPredicate stop (t :: rest)).map .leaf
termination_by 3 * ts.length

end

/-- Items with commas between them, at least one. -/
def readCommaList {α : Type} (item : (ts : List Located) → Reading α ts) (ts : List Located) :
    Reading (List α) ts :=
  match item ts with
  | .error e => .error e
  | .ok (a, ⟨[], h⟩) => .ok ([a], ⟨[], h⟩)
  | .ok (a, ⟨t :: rest, h⟩) =>
    if t.token = .sign .comma then
      have : rest.length < ts.length := Nat.lt_of_succ_lt h
      match readCommaList item rest with
      | .error e => .error e
      | .ok (items, ⟨rest', h'⟩) => .ok (a :: items, ⟨rest', Nat.lt_trans h' this⟩)
    else .ok ([a], ⟨t :: rest, h⟩)
termination_by ts.length

/-- The name of a field. -/
def readField (stop : Nat) (ts : List Located) : Reading String ts :=
  readWord stop .fieldName propertyName? ts

/-- A field to sort by; without a direction it is ascending. -/
def readSortTerm (stop : Nat) (ts : List Located) : Reading SortTerm ts :=
  match readField stop ts with
  | .error e => .error e
  | .ok (property, ⟨[], h⟩) => .ok (⟨property, .ascending⟩, ⟨[], h⟩)
  | .ok (property, ⟨t :: rest, h⟩) =>
    if t.token.isKeyword "desc" then
      .ok (⟨property, .descending⟩, ⟨rest, Nat.lt_of_succ_lt h⟩)
    else if t.token.isKeyword "asc" then
      .ok (⟨property, .ascending⟩, ⟨rest, Nat.lt_of_succ_lt h⟩)
    else .ok (⟨property, .ascending⟩, ⟨t :: rest, h⟩)

/-- The end of a text. -/
def readEnd {α : Type} (stop : Nat) (result : α) : List Located → Except ParseError α
  | [] => .ok result
  | ts => .error (unexpected stop .endOfInput ts)

/-- The terms to sort by, if there are any, and the end of the text. -/
def readOrder (stop : Nat) (ts : List Located) : Except ParseError (List SortTerm) :=
  match ts with
  | [] => .ok []
  | t :: rest =>
    if t.token.isKeyword "order" then
      match (readWord stop .byKeyword (keyword? "by") rest).andThen
          fun _ ts => readCommaList (readSortTerm stop) ts with
      | .error e => .error e
      | .ok (terms, left) => readEnd stop terms left.1
    else readEnd stop [] (t :: rest)

/-- A filter and what comes after it. -/
def readFiltered (stop : Nat) (selection : Selection) (ts : List Located) :
    Except ParseError Query :=
  match readFilter stop ts with
  | .error e => .error e
  | .ok (f, rest) => (readOrder stop rest.1).map fun terms => ⟨selection, some f, terms⟩

/-- What comes after the fields of a selection. -/
def readAfterSelection (stop : Nat) (selection : Selection) (ts : List Located) :
    Except ParseError Query :=
  let unfiltered := (readOrder stop ts).map fun terms => (⟨selection, none, terms⟩ : Query)
  match ts with
  | [] => unfiltered
  | t :: rest =>
    if t.token.isKeyword "where" then readFiltered stop selection rest else unfiltered

/-- The fields of a selection and what comes after them. -/
def readSelected (stop : Nat) (ts : List Located) : Except ParseError Query :=
  let listed :=
    match readCommaList (readField stop) ts with
    | .error e => .error e
    | .ok (paths, rest) => readAfterSelection stop (.fields paths) rest.1
  match ts with
  | [] => listed
  | t :: rest => if t.token = .sign .star then readAfterSelection stop .all rest else listed

/-- A query made of the given words, in a text that ends at `stop`. -/
def ofTokens (stop : Nat) (ts : List Located) : Except ParseError Query :=
  match ts with
  | [] => .error .empty
  | t :: rest =>
    if t.token.isKeyword "select" then readSelected stop rest
    else readFiltered stop .all (t :: rest)

/-- A filter made of the given words, in a text that ends at `stop`. -/
def filterOfTokens (stop : Nat) (ts : List Located) : Except ParseError Filter :=
  match ts with
  | [] => .error .empty
  | ts =>
    match readFilter stop ts with
    | .error e => .error e
    | .ok (f, rest) => readEnd stop f rest.1

/-- The query that a text writes. -/
def parse (text : String) : Except ParseError Query := do
  ofTokens text.utf8ByteSize (← tokenize text)

/-- The filter that a text writes. -/
def parseFilter (text : String) : Except ParseError Filter := do
  filterOfTokens text.utf8ByteSize (← tokenize text)

end EntityQuery.Query
