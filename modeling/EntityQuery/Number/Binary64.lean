/-! # Double-precision numbers

The finite numbers of the 64-bit binary format. A number is a sign and a rank, its place among the
non-negative finite numbers of the format counted from zero; so the order of numbers of one sign is
the order of their ranks, and the neighbours of a number are a rank away. Each number is an exact
multiple of the smallest positive one, `2 ^ (-1074)`, and `Binary64.units` is that multiple.

Arithmetic is exact on naturals and rounds once, to the nearest number of the format with ties to
the even rank. A result beyond the largest number is no number. -/

namespace EntityQuery

/-- The count of non-negative finite numbers. -/
def Binary64.rankLimit : Nat := 0x7FF <<< 52

/-- A finite double-precision number. -/
structure Binary64 where
  /-- Whether the sign is minus; zero has both signs. -/
  negative : Bool
  /-- The place among the non-negative finite numbers. -/
  rank : Nat
  /-- The rank is that of a finite number. -/
  rank_lt : rank < Binary64.rankLimit
  deriving DecidableEq

namespace Binary64

instance : Inhabited Binary64 := ⟨⟨false, 0, by decide⟩⟩

/-- The natural number nearest to `num / den`, the even one when two are. -/
def roundQuotient (num den : Nat) : Nat :=
  let q := num / den
  let twice := 2 * (num % den)
  if twice < den then q else if den < twice then q + 1 else q + q % 2

theorem roundQuotient_le (num den : Nat) : roundQuotient num den ≤ num / den + 1 := by
  unfold roundQuotient
  have := Nat.mod_lt (num / den) (by decide : 2 > 0)
  grind

/-- How often the significand of rank `r` is doubled. -/
def shiftOfRank (r : Nat) : Nat := (r >>> 52) - 1

/-- The number of rank `r` as a multiple of the smallest positive number. -/
def unitsOfRank (r : Nat) : Nat := (r - (shiftOfRank r <<< 52)) <<< shiftOfRank r

/-- The size of a number as a multiple of the smallest positive one. -/
def units (x : Binary64) : Nat := unitsOfRank x.rank

/-- The rank of the number nearest to `num / den`, as if there were no largest number. -/
def nearestRank (num den : Nat) : Nat :=
  let scaled := num <<< 1074
  let shift := (scaled / den).log2 - 52
  (shift <<< 52) + roundQuotient scaled (den <<< shift)

/-- The number of the given sign and rank, unless it lies beyond the largest one. -/
def ofRank? (negative : Bool) (rank : Nat) : Option Binary64 :=
  if h : rank < rankLimit then some ⟨negative, rank, h⟩ else none

/-- The number nearest to `num / den` with the given sign. -/
def ofRatio? (negative : Bool) (num den : Nat) : Option Binary64 :=
  ofRank? negative (nearestRank num den)

theorem log2_shiftLeft {n : Nat} (shift : Nat) (h : n ≠ 0) :
    (n <<< shift).log2 = n.log2 + shift := by
  have hpos : 0 < n <<< shift := by
    rw [Nat.shiftLeft_eq]
    exact Nat.mul_pos (Nat.pos_of_ne_zero h) (Nat.two_pow_pos shift)
  refine (Nat.log2_eq_iff (Nat.ne_of_gt hpos)).2 ⟨?_, ?_⟩
  · rw [Nat.shiftLeft_eq, Nat.pow_add]
    exact Nat.mul_le_mul_right _ ((Nat.le_log2 h).1 (Nat.le_refl _))
  · rw [Nat.shiftLeft_eq, Nat.add_right_comm, Nat.pow_add]
    exact Nat.mul_lt_mul_of_pos_right Nat.lt_log2_self (Nat.two_pow_pos shift)

/-- A significand has at most 53 bits before it is rounded. -/
theorem div_shift_lt (s : Nat) : s / (1 <<< (s.log2 - 52)) < 1 <<< 53 := by
  rw [Nat.shiftLeft_eq, Nat.shiftLeft_eq, Nat.one_mul, Nat.one_mul]
  refine (Nat.div_lt_iff_lt_mul (Nat.two_pow_pos _)).2 (Nat.lt_of_lt_of_le Nat.lt_log2_self ?_)
  rw [← Nat.pow_add]
  exact Nat.pow_le_pow_right (by decide) (by omega)

/-- The rank found for a number with few bits is that of a finite number. -/
theorem shift_add_roundQuotient_lt (s : Nat) (h : s.log2 ≤ 1137) :
    ((s.log2 - 52) <<< 52) + roundQuotient s (1 <<< (s.log2 - 52)) < rankLimit := by
  have := div_shift_lt s
  have := roundQuotient_le s (1 <<< (s.log2 - 52))
  simp only [rankLimit]
  omega

/-- A natural number of 64 bits rounds to a finite number. -/
theorem nearestRank_lt (n : Nat) (h : n < UInt64.size) : nearestRank n 1 < rankLimit := by
  simp only [nearestRank, Nat.div_one]
  refine shift_add_roundQuotient_lt (n <<< 1074) ?_
  by_cases h0 : n = 0
  · rw [h0, Nat.zero_shiftLeft]; decide
  · have hlog : n.log2 < 64 := (Nat.log2_lt h0).2 h
    rw [log2_shiftLeft 1074 h0]
    omega

/-- The number nearest to a natural number of 64 bits. -/
def ofUInt64 (n : UInt64) : Binary64 :=
  ⟨false, nearestRank n.toNat 1, nearestRank_lt _ n.toNat_lt⟩

theorem natAbs_toInt_lt (n : Int64) : n.toInt.natAbs < UInt64.size := by
  have := n.toInt_lt
  have := n.le_toInt
  simp only [UInt64.size]
  omega

/-- The number nearest to a signed integer of 64 bits. -/
def ofInt64 (n : Int64) : Binary64 :=
  ⟨decide (n.toInt < 0), nearestRank n.toInt.natAbs 1, nearestRank_lt _ (natAbs_toInt_lt n)⟩

/-- The number with its sign turned round. -/
def neg (x : Binary64) : Binary64 := { x with negative := !x.negative }

/-- The rounded product. -/
def mul? (x y : Binary64) : Option Binary64 :=
  ofRatio? (x.negative != y.negative) (x.units * y.units) (1 <<< 2148)

/-- The rounded quotient by a number other than zero. -/
def div? (x y : Binary64) : Option Binary64 :=
  ofRatio? (x.negative != y.negative) x.units y.units

/-- The place of a number among all finite numbers, counted from zero to both sides; the two zeros
share theirs. -/
def ordinal (x : Binary64) : Int := if x.negative then -x.rank else x.rank

/-- The numeric order. -/
instance : Ord Binary64 := ⟨fun x y => compare x.ordinal y.ordinal⟩

instance : LE Binary64 := ⟨fun x y => x.ordinal ≤ y.ordinal⟩

instance (x y : Binary64) : Decidable (x ≤ y) :=
  inferInstanceAs (Decidable (x.ordinal ≤ y.ordinal))

/-- The bit of the sign. -/
def signBit : Nat := 1 <<< 63

/-- The number in the machine's floating-point type. -/
def toFloat (x : Binary64) : Float :=
  .ofBits (UInt64.ofNat (x.rank + if x.negative then signBit else 0))

/-- The finite number held by the machine's floating-point type. -/
def ofFloat? (x : Float) : Option Binary64 :=
  let bits := x.toBits.toNat
  ofRank? (decide (signBit ≤ bits)) (bits % signBit)

end Binary64

end EntityQuery
