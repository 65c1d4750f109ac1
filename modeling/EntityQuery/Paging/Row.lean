import EntityQuery.Query.Basic

/-! # Rows in order

The rows of a search come in the order of their sort keys, then of their ids, then of their
versions. A key has a slot for each property to sort by. Truth values come before numbers and
numbers before texts; an empty slot comes last, whichever way the property is sorted. Going through
the rows in descending order turns the whole order round. -/

namespace EntityQuery

/-- The values of the properties to sort by, in their order; an absent one is missing. -/
abbrev SortKey := List (Option Scalar)

/-- The place of the kind of a scalar among the kinds. -/
def Scalar.kindRank : Scalar → Nat
  | .bool _ => 0
  | .int _ | .float _ => 1
  | .string _ => 2

/-- The order of two scalars of any kinds. -/
def Scalar.sortCompare (a b : Scalar) : Ordering :=
  (Ord.compare a.kindRank b.kindRank).then ((a.compare b).getD .eq)

/-- The order of two slots of sort keys. -/
def compareSlots (direction : Direction) : Option Scalar → Option Scalar → Ordering
  | none, none => .eq
  | none, some _ => .gt
  | some _, none => .lt
  | some a, some b => direction.orient (a.sortCompare b)

/-- The order of two sort keys; slots that are missing at the end count as empty. -/
def compareKeys : List SortTerm → SortKey → SortKey → Ordering
  | [], _, _ => .eq
  | term :: terms, a, b =>
    (compareSlots term.direction a.head?.join b.head?.join).then
      (compareKeys terms a.tail b.tail)

/-- The place of a row. -/
structure RowPosition where
  key : SortKey
  id : UInt64
  version : UInt64
  deriving DecidableEq

namespace RowPosition

/-- The place right behind all rows of an id, when nothing is sorted by. -/
def pastId (id : UInt64) (direction : Direction) : RowPosition :=
  ⟨[], id, if direction.isDescending then 0 else 0xFFFFFFFFFFFFFFFF⟩

/-- The order of two rows. -/
def compare (sort : List SortTerm) (direction : Direction) (a b : RowPosition) : Ordering :=
  direction.orient <|
    ((compareKeys sort a.key b.key).then (Ord.compare a.id b.id)).then
      (Ord.compare a.version b.version)

/-- Whether a row comes behind a place; every row comes behind no place. -/
def isAfter (sort : List SortTerm) (direction : Direction) (after : Option RowPosition)
    (row : RowPosition) : Bool :=
  after.all fun a => compare sort direction row a = .gt

end RowPosition

/-- Puts an element into a list in descending order, before the first element that it is not less
than. -/
def insertDescending {α : Type} (less : α → α → Bool) (x : α) : List α → List α
  | [] => [x]
  | y :: rest => if less x y then y :: insertDescending less x rest else x :: y :: rest

/-- The elements in ascending order; elements of which none is less than the other keep theirs. -/
def sortAscending {α : Type} (less : α → α → Bool) (xs : List α) : List α :=
  (xs.foldl (fun sorted x => insertDescending less x sorted) []).reverse

end EntityQuery
