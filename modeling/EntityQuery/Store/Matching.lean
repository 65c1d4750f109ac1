import EntityQuery.Paging.Row
import EntityQuery.Plan.Selector
import EntityQuery.Store.Geo
import EntityQuery.Store.Record
import EntityQuery.Text.Words

/-! # Which entities a selector selects

A property of an entity has the values that an index would hold for it: the scalar at the end of a
path, or every scalar of an array there; the words of the texts there, for a property of words; and
the id, for the property that stands for it. A slice selects an entity if one of the values is in
range. An id that is too large for a literal has no value: it is above every literal that is a
number. -/

namespace EntityQuery

/-- An id as a scalar, if it is one. -/
def Scalar.ofId? (id : EntityId) : Option Scalar :=
  (signedOfWord? id).map .int

/-- Whether a scalar is a number. -/
def Scalar.isNumber : Scalar → Bool
  | int _ | float _ => true
  | bool _ | string _ => false

namespace Json

/-- The texts that a value is made of: itself, or the texts in an array. -/
def texts : Json → List String
  | string s => [s]
  | array items => items.filterMap fun item => match item with
    | string s => some s
    | _ => none
  | _ => []

/-- The scalars that a value is made of: itself, or the scalars in an array. -/
def scalars : Json → List Scalar
  | array items => items.filterMap Scalar.ofJson?
  | value => (Scalar.ofJson? value).toList

end Json

/-- The values of a property of an entity. -/
def propertyValues (id : EntityId) (doc : Json) (property : String) : List Scalar :=
  if property = idProperty then (Scalar.ofId? id).toList
  else match keywordsBase? property with
    | some base => ((doc.fieldAt? base).elim [] Json.texts).flatMap fun s =>
      (Text.keywords s).map .string
    | none => (doc.fieldAt? property).elim [] Json.scalars

namespace Slice

/-- Whether an id is in the range of a slice over ids. -/
def containsId (s : Slice) (id : EntityId) : Bool :=
  match Scalar.ofId? id with
  | some v => s.contains v
  | none => s.start.all (·.value.isNumber) && s.finish.isNone

/-- Whether a slice selects an entity. -/
def selects (s : Slice) (id : EntityId) (doc : Json) : Bool :=
  if s.property = idProperty then s.containsId id
  else (propertyValues id doc s.property).any s.contains

end Slice

/-- Whether all slices of a group select an entity. -/
def SliceGroup.selects (g : SliceGroup) (id : EntityId) (doc : Json) : Bool :=
  g.slices.all (·.selects id doc)

namespace Selector

/-- Whether a selector selects an entity. -/
def selects (s : Selector) (id : EntityId) (doc : Json) : Bool :=
  match s with
  | and left right => left.selects id doc && right.selects id doc
  | or left right => left.selects id doc || right.selects id doc
  | not subtract keep => keep.selects id doc && !subtract.selects id doc
  | slices group => group.selects id doc
  | within area => area.covers doc

end Selector

/-- The sort key of an entity: the first value of each property to sort by. -/
def sortKey (sort : List SortTerm) (id : EntityId) (doc : Json) : SortKey :=
  sort.map fun term => (propertyValues id doc term.property).head?

end EntityQuery
