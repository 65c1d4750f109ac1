import EntityQuery.Number.Binary64

/-! # Doubles that may be infinite

All values of the 64-bit binary format: the finite numbers, the two infinities and what is not a
number. An infinity lies beyond every finite number of its sign. What is not a number compares with
nothing, itself included; the format has many such values, which nothing here tells apart. -/

namespace EntityQuery

/-- A value of the 64-bit binary format. -/
inductive Double where
  | finite (x : Binary64)
  | infinite (negative : Bool)
  | nan
  deriving DecidableEq

namespace Double

instance : Coe Binary64 Double := ⟨finite⟩

/-- Whether a value is a finite number. -/
def isFinite : Double → Bool
  | finite _ => true
  | infinite _ | nan => false

/-- The order of two values, if they compare. -/
def compare? : Double → Double → Option Ordering
  | finite x, finite y => some (compare x y)
  | finite _, infinite negative => some (if negative then .gt else .lt)
  | infinite negative, finite _ => some (if negative then .lt else .gt)
  | infinite negative, infinite negative' => some (compare negative' negative)
  | nan, _ | _, nan => none

instance : LT Double := ⟨fun x y => x.compare? y = some .lt⟩

instance : LE Double := ⟨fun x y => x.compare? y = some .lt ∨ x.compare? y = some .eq⟩

instance (x y : Double) : Decidable (x < y) :=
  inferInstanceAs (Decidable (x.compare? y = some .lt))

instance (x y : Double) : Decidable (x ≤ y) :=
  inferInstanceAs (Decidable (x.compare? y = some .lt ∨ x.compare? y = some .eq))

@[simp]
theorem finite_le_finite {x y : Binary64} : finite x ≤ finite y ↔ x ≤ y := by
  show some (compare x.ordinal y.ordinal) = some .lt ∨
    some (compare x.ordinal y.ordinal) = some .eq ↔ x.ordinal ≤ y.ordinal
  rw [Option.some.injEq, Option.some.injEq, Int.compare_eq_lt, Int.compare_eq_eq]
  omega

@[simp]
theorem finite_lt_finite {x y : Binary64} : finite x < finite y ↔ ¬ y ≤ x := by
  show some (compare x.ordinal y.ordinal) = some .lt ↔ ¬ y.ordinal ≤ x.ordinal
  rw [Option.some.injEq, Int.compare_eq_lt, Int.not_le]

/-- Whether a value lies between two integers, ends included. -/
def isBetween (x : Double) (least greatest : Int64) : Bool :=
  decide (finite (.ofInt64 least) ≤ x) && decide (x ≤ finite (.ofInt64 greatest))

/-- The value in the machine's floating-point type. -/
def toFloat : Double → Float
  | finite x => x.toFloat
  | infinite negative =>
    .ofBits (UInt64.ofNat (Binary64.rankLimit + if negative then Binary64.signBit else 0))
  | nan => .ofBits (UInt64.ofNat (Binary64.rankLimit + 1 <<< 51))

end Double

end EntityQuery
