/-! # Sets of characters as ranges

A property of characters is given as ascending, disjoint ranges of code points, both ends
included. Looking a character up stops at the first range that does not end before it. -/

namespace EntityQuery.Text

/-- Ascending, disjoint ranges of code points with both ends included. -/
abbrev Ranges := List (Nat × Nat)

/-- Whether one of the ranges holds the code point `n`. -/
def Ranges.holds (n : Nat) : Ranges → Bool
  | [] => false
  | (first, last) :: rest => if n ≤ last then decide (first ≤ n) else Ranges.holds n rest

/-- Whether one of the ranges holds the character `c`. -/
def Ranges.contains (rs : Ranges) (c : Char) : Bool :=
  rs.holds c.toNat

end EntityQuery.Text
