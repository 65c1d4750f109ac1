/-! # Words of 64 bits

Integers that fit a word of 64 bits, with and without a sign. -/

namespace EntityQuery

/-- The word without sign that a natural number fits. -/
def word? (n : Nat) : Option UInt64 := if n < UInt64.size then some (.ofNat n) else none

/-- The word with a sign that an integer fits. -/
def signedWord? (n : Int) : Option Int64 :=
  if Int64.minValue.toInt ≤ n ∧ n ≤ Int64.maxValue.toInt then some (.ofInt n) else none

/-- The word with a sign that has the value of one without. -/
def signedOfWord? (n : UInt64) : Option Int64 :=
  if n < 0x8000000000000000 then some n.toInt64 else none

end EntityQuery
