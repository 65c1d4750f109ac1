import EntityQuery.Direction
import EntityQuery.Scalar

/-! # Queries

What a query asks for: a filter over entities, the fields to show of them and the properties to
sort them by. The tree of a filter follows the nesting of the text that it was written in; its
printed form shows that nesting by parentheses in front of every operator. -/

namespace EntityQuery

/-- The comparisons of a property with a literal. -/
inductive Comparison where
  | equal
  | less
  | lessEqual
  | greater
  | greaterEqual
  deriving DecidableEq

/-- The sign of a comparison. -/
def Comparison.text : Comparison → String
  | equal => "="
  | less => "<"
  | lessEqual => "<="
  | greater => ">"
  | greaterEqual => ">="

/-- The places around a centre, for a property that holds a place. A text of a query gives finite
measures only; an area that is built otherwise may have any. -/
structure GeoArea where
  property : String
  /-- The radius in metres. -/
  distance : Double
  /-- The latitude of the centre in degrees. -/
  latitude : Double
  /-- The longitude of the centre in degrees. -/
  longitude : Double
  deriving DecidableEq

/-- What a filter asks of one property. -/
inductive Predicate where
  /-- A value compares with a literal. -/
  | compare (property : String) (comparison : Comparison) (value : Scalar)
  /-- A text has a word. -/
  | contains (property : String) (text : String)
  /-- A place lies in an area. -/
  | within (area : GeoArea)
  deriving DecidableEq

/-- A condition on entities. -/
inductive Filter where
  | and (left right : Filter)
  | or (left right : Filter)
  | not (operand : Filter)
  | leaf (predicate : Predicate)
  deriving DecidableEq

/-- The fields to show of an entity. -/
inductive Selection where
  | all
  | fields (paths : List String)
  deriving DecidableEq

/-- A property to sort by. -/
structure SortTerm where
  property : String
  direction : Direction
  deriving DecidableEq

/-- A query. -/
structure Query where
  selection : Selection
  /-- Without a filter every entity is asked for. -/
  filter : Option Filter
  /-- Without terms entities come in the order of their ids. -/
  order : List SortTerm
  deriving DecidableEq

/-- A predicate in words. -/
def Predicate.text : Predicate → String
  | compare property comparison value => s!"{property} {comparison.text} {value.text}"
  | contains property text => s!"{property} contains {Text.quoted text}"
  | within area =>
    let distance := Scalar.measureText area.distance
    let latitude := Scalar.measureText area.latitude
    let longitude := Scalar.measureText area.longitude
    s!"{area.property} within {distance} of {latitude}, {longitude}"

/-- A filter with every operator in front of its operands and in parentheses. -/
def Filter.text : Filter → String
  | and left right => s!"(and {left.text} {right.text})"
  | or left right => s!"(or {left.text} {right.text})"
  | not operand => s!"(not {operand.text})"
  | leaf predicate => s!"({predicate.text})"

/-- Whether a filter is a single predicate that is answered by a range. -/
def Filter.isRangeLeaf : Filter → Bool
  | leaf (.compare ..) => true
  | leaf (.contains ..) => true
  | _ => false

/-- The fields of a selection as a query lists them. -/
def Selection.text : Selection → String
  | all => "*"
  | fields paths => ", ".intercalate paths

/-- The property and the direction of a term. -/
def SortTerm.text (term : SortTerm) : String := s!"{term.property} {term.direction.keyword}"

/-- A query with its filter in the printed form. -/
def Query.text (q : Query) : String :=
  "select " ++ q.selection.text ++
    (match q.filter with
      | none => ""
      | some filter => " where " ++ filter.text) ++
    (if q.order.isEmpty then "" else " order by " ++ ", ".intercalate (q.order.map SortTerm.text))

end EntityQuery
