import EntityQuery.Query.Basic
import EntityQuery.Slice.Group

/-! # Selectors

What a filter is compiled to: a tree over groups of slices and areas that an index can enumerate. A
complement is taken within a group of slices, since no index enumerates what is not there. -/

namespace EntityQuery

/-- A tree of ranges that selects entities. -/
inductive Selector where
  /-- What both sides select. -/
  | and (left right : Selector)
  /-- What either side selects. -/
  | or (left right : Selector)
  /-- What `keep` holds and `subtract` does not select. -/
  | not (subtract : Selector) (keep : SliceGroup)
  /-- What all slices of a group hold. -/
  | slices (group : SliceGroup)
  /-- What lies in an area. -/
  | within (area : GeoArea)
  deriving DecidableEq

namespace Selector

/-- The selector of all entities. -/
def everything : Selector := slices .fullScan

/-- What `subtract` does not select. -/
def complement (subtract : Selector) : Selector := not subtract .fullScan

/-- The group of slices that a selector consists of. -/
def group? : Selector → Option SliceGroup
  | slices group => some group
  | _ => none

/-- The first area of a selector outside its complements. -/
def firstArea? : Selector → Option GeoArea
  | within area => some area
  | and left right | or left right => left.firstArea? <|> right.firstArea?
  | not .. | slices _ => none

end Selector

end EntityQuery
