import EntityQuery.Plan.Selector
import EntityQuery.Text.LowerCase

/-! # Compiling filters

A comparison becomes a slice; a text that ends in a star under `=`, and any word asked for by
`contains`, becomes a range of texts with a common beginning. Neighbours under `and` that are groups
of slices become one group: a single predicate on the right joins the group on its left, and a
group on its left joins a larger group on the right. Groups that hold slices over the same words
stay apart. -/

namespace EntityQuery

/-- Which properties have an index. -/
structure Catalog where
  /-- Whether a property can be compared with literals. -/
  isIndexed : String → Bool
  /-- Whether a property can be asked for words. -/
  isFullText : String → Bool

/-- The catalog in which every property has every index. -/
def Catalog.everything : Catalog := ⟨fun _ => true, fun _ => true⟩

/-- The catalog of the listed properties. -/
def Catalog.ofLists (indexed fullText : List String) : Catalog :=
  ⟨indexed.contains, fullText.contains⟩

/-- The domain that a parameter of an area is out of. -/
inductive GeoDomain where
  | distance
  | latitude
  | longitude
  deriving DecidableEq

/-- The domain in words. -/
def GeoDomain.text : GeoDomain → String
  | distance => "distance must be finite and non-negative"
  | latitude => "latitude must be within [-90, 90]"
  | longitude => "longitude must be within [-180, 180]"

/-- Why a query cannot be compiled. -/
inductive CompileError where
  /-- A property that is compared or sorted by has no index. -/
  | noIndex (property : String)
  /-- A property that is asked for words has no index of words. -/
  | noFullTextIndex (property : String)
  /-- A parameter of an area is out of its domain. -/
  | invalidGeo (property : String) (domain : GeoDomain)
  /-- An area stands under `not`, and what is outside it cannot be enumerated. -/
  | negatedWithin (property : String)
  deriving DecidableEq

namespace CompileError

/-- The name of the kind of error. -/
def code : CompileError → String
  | noIndex _ => "NoIndex"
  | noFullTextIndex _ => "NoFullTextIndex"
  | invalidGeo .. => "InvalidGeo"
  | negatedWithin _ => "NegatedWithin"

/-- The error in words. -/
def message : CompileError → String
  | noIndex p => s!"property '{p}' is not indexed"
  | noFullTextIndex p => s!"property '{p}' is not full-text indexed"
  | invalidGeo p d => s!"invalid geo predicate on '{p}': {d.text}"
  | negatedWithin p => s!"'within' on '{p}' cannot be negated"

end CompileError

/-- The text in front of a star that ends a text. -/
def wildcardStem? (text : String) : Option (List Char) :=
  match text.toList.reverse with
  | '*' :: stem => some stem.reverse
  | _ => none

/-- The greatest character. -/
def lastChar : Char := Char.ofNat 0x10FFFF

/-- The slice of the texts from `stem` to `stem` and the greatest character. -/
def Slice.startingWith (property : String) (stem : List Char) : Slice where
  property
  start := some ⟨.string (String.ofList stem), true⟩
  finish := some ⟨.string (String.ofList (stem ++ [lastChar])), true⟩

/-- The slice for a text, which may end in a star. -/
def Slice.ofPattern (property text : String) : Slice :=
  match wildcardStem? text with
  | some stem => startingWith property stem
  | none => exact property (.string text)

/-- The slice for a comparison. -/
def Slice.ofComparison (property : String) : Comparison → Scalar → Slice
  | .equal, .string text => ofPattern property text
  | .equal, value => exact property value
  | .less, value => ⟨property, none, some ⟨value, false⟩, false⟩
  | .lessEqual, value => ⟨property, none, some ⟨value, true⟩, false⟩
  | .greater, value => ⟨property, some ⟨value, false⟩, none, false⟩
  | .greaterEqual, value => ⟨property, some ⟨value, true⟩, none, false⟩

/-- The slice for a word, which is sought in lower case. -/
def Slice.ofWord (property text : String) : Slice :=
  ofPattern (property ++ keywordsSuffix) (Text.lowerCase text)

/-- The first parameter of an area that is out of its domain. -/
def GeoArea.invalid? (a : GeoArea) : Option GeoDomain :=
  if !a.distance.isFinite || decide (a.distance < Binary64.ofInt64 0) then some .distance
  else if !a.latitude.isBetween (-90) 90 then some .latitude
  else if !a.longitude.isBetween (-180) 180 then some .longitude
  else none

namespace Selector

/-- The selector for a predicate; `negated` says whether it stands under `not`. -/
def ofPredicate (catalog : Catalog) (negated : Bool) :
    Predicate → Except CompileError Selector
  | .compare property comparison value =>
    if catalog.isIndexed property then
      .ok (slices (.single (.ofComparison property comparison value)))
    else .error (.noIndex property)
  | .contains property text =>
    if catalog.isFullText property then .ok (slices (.single (.ofWord property text)))
    else .error (.noFullTextIndex property)
  | .within area =>
    if negated then .error (.negatedWithin area.property)
    else if !catalog.isIndexed area.property then .error (.noIndex area.property)
    else match area.invalid? with
      | some domain => .error (.invalidGeo area.property domain)
      | none => .ok (within area)

/-- The selector of what both sides select. Groups of slices are merged, unless they hold slices
over the same words; `rightIsLeaf` says whether the right side is a single predicate. -/
def conjoin (left right : Selector) (rightIsLeaf : Bool) : Selector :=
  match left, right with
  | slices l, slices r =>
    if rightIsLeaf then
      if l.canAbsorb r then slices (l.absorb r) else and (slices l) (slices r)
    else
      if r.canAbsorb l then slices (r.absorbEarlier l) else and (slices l) (slices r)
  | left, right => and left right

/-- The selector for a filter; `negated` says whether it stands under `not`. -/
def ofFilterUnder (catalog : Catalog) (negated : Bool) : Filter → Except CompileError Selector
  | .leaf predicate => ofPredicate catalog negated predicate
  | .not operand => do
    return complement (← ofFilterUnder catalog true operand)
  | .or left right => do
    let l ← ofFilterUnder catalog negated left
    let r ← ofFilterUnder catalog negated right
    return or l r
  | .and left right => do
    let l ← ofFilterUnder catalog negated left
    let r ← ofFilterUnder catalog negated right
    return conjoin l r right.isRangeLeaf

/-- The selector for a filter. -/
def ofFilter (catalog : Catalog) (filter : Filter) : Except CompileError Selector :=
  ofFilterUnder catalog false filter

end Selector

/-- A compiled query. -/
structure Plan where
  selector : Selector
  selection : Selection
  /-- Without terms results follow the order of ids. -/
  sort : List SortTerm
  deriving DecidableEq

/-- The first property to sort by that has no index. -/
def unsortable? (catalog : Catalog) (order : List SortTerm) : Option String :=
  (order.find? fun term => !catalog.isIndexed term.property).map SortTerm.property

/-- The plan for a query. Errors of the filter come before those of the terms to sort by. -/
def Plan.ofQuery (catalog : Catalog) (q : Query) : Except CompileError Plan := do
  let selector ← match q.filter with
    | none => .ok .everything
    | some filter => Selector.ofFilter catalog filter
  match unsortable? catalog q.order with
  | some property => .error (.noIndex property)
  | none => return ⟨selector, q.selection, q.order⟩

end EntityQuery
