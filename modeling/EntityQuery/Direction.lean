/-! # Directions

The two directions in which values are sorted and ids are scanned. -/

namespace EntityQuery

/-- From the least up, or from the greatest down. -/
inductive Direction where
  | ascending
  | descending
  deriving DecidableEq

namespace Direction

/-- Whether the greatest comes first. -/
def isDescending : Direction → Bool
  | ascending => false
  | descending => true

/-- The order in which two values come, when `o` is how they compare. -/
def orient : Direction → Ordering → Ordering
  | ascending, o => o
  | descending, o => o.swap

/-- The short word for a direction. -/
def keyword : Direction → String
  | ascending => "asc"
  | descending => "desc"

end Direction

end EntityQuery
