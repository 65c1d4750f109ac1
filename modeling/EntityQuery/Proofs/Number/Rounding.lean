import EntityQuery.Proofs.Number.Binary64
import EntityQuery.Proofs.Number.Shortest

/-! # Integers that are rounded to a double

A double stands for all integers that lie between the midpoints to its neighbours. As long as
neighbours are one apart at most, that is below `2 ^ 53`, there is one such integer at most, the
double's own value; and where they are two apart, the midpoints are integers that belong to the even
one of two neighbours, so an odd one stands for its own value only.

* `Binary64.value`: the exact number that a double is.
* `Binary64.readsBack_nearestRank`: an integer lies between the midpoints around the double that it
  is rounded to.
* `Binary64.IsAlone.compare_eq`: integers compare with a double that stands for its own value only
  as exact numbers do.
* `Binary64.exists_rounded`: any other double stands for the integer after its value, too.
* `Binary64.abs_value_lt`: doubles are finite. -/

namespace EntityQuery.Binary64

open Decimal (ReadsBack halvesPerOne)

variable {n r scaled : Nat} {x : Binary64}

/-- The power of two that the smallest positive double is the inverse of. -/
def unitsExponent : Nat := 1074

/-- How many of the smallest positive double make one. -/
def unitsPerOne : Nat := 2 ^ unitsExponent

theorem shiftLeft_eq_mul_unitsPerOne (n : Nat) : n <<< 1074 = n * unitsPerOne :=
  Nat.shiftLeft_eq n unitsExponent

theorem halvesPerOne_eq : halvesPerOne = 2 * unitsPerOne := by
  have hexponent : Decimal.halvesExponent = unitsExponent + 1 := rfl
  rw [halvesPerOne, hexponent, Nat.pow_succ', unitsPerOne]

theorem natCast_mul_halvesPerOne (n : Nat) :
    (n * halvesPerOne : ℚ) = 2 * (n * unitsPerOne : Nat) := by
  rw [halvesPerOne_eq]
  push_cast
  ring

/-- The exact number that a double is. -/
def value (x : Binary64) : ℚ := (if x.negative then -(x.units : ℚ) else x.units) / unitsPerOne

/-! ## The double next to an integer -/

theorem readsBack_two_mul_iff : ReadsBack r (2 * scaled) ↔
    if r % 2 = 0 then unitsOfRank (r - 1) + unitsOfRank r ≤ 2 * scaled ∧
      2 * scaled ≤ unitsOfRank r + unitsOfRank (r + 1)
    else unitsOfRank (r - 1) + unitsOfRank r < 2 * scaled ∧
      2 * scaled < unitsOfRank r + unitsOfRank (r + 1) := by
  unfold ReadsBack
  dsimp only
  split_ifs <;> norm_cast

/-- A number reads back as the double below it if it is not beyond the midpoint. -/
theorem readsBack_below (hbelow : unitsOfRank r ≤ scaled)
    (hnear : 2 * scaled ≤ unitsOfRank r + unitsOfRank (r + 1))
    (htie : 2 * scaled = unitsOfRank r + unitsOfRank (r + 1) → r % 2 = 0) :
    ReadsBack r (2 * scaled) := by
  have hprev : unitsOfRank (r - 1) ≤ unitsOfRank r := unitsOfRank_strictMono.monotone (Nat.sub_le r 1)
  rw [readsBack_two_mul_iff]
  split_ifs with heven
  · omega
  · have hlt : unitsOfRank (r - 1) < unitsOfRank r := unitsOfRank_strictMono (by omega)
    have hne := mt htie heven
    omega

theorem readsBack_above (habove : scaled < unitsOfRank (r + 1))
    (hnear : unitsOfRank r + unitsOfRank (r + 1) ≤ 2 * scaled)
    (htie : 2 * scaled = unitsOfRank r + unitsOfRank (r + 1) → (r + 1) % 2 = 0) :
    ReadsBack (r + 1) (2 * scaled) := by
  have hnext : unitsOfRank (r + 1) < unitsOfRank (r + 1 + 1) :=
    unitsOfRank_strictMono (Nat.lt_succ_self _)
  rw [readsBack_two_mul_iff, Nat.add_sub_cancel]
  split_ifs with heven
  · omega
  · have hne := mt htie heven
    omega

/-- **An integer lies between the midpoints around the double that it is rounded to.** -/
theorem readsBack_nearestRank (n : Nat) : ReadsBack (nearestRank n 1) (n * halvesPerOne) := by
  rw [natCast_mul_halvesPerOne, ← shiftLeft_eq_mul_unitsPerOne]
  simp only [nearestRank, Nat.div_one]
  generalize n <<< 1074 = scaled
  have hfew := div_shift_lt scaled
  have hlead : scaled.log2 - 52 = 0 ∨ 2 ^ 52 ≤ scaled / 1 <<< (scaled.log2 - 52) := by
    by_cases hlog : 52 < scaled.log2
    · exact .inr (le_div_shift hlog)
    · exact .inl (by omega)
  generalize scaled.log2 - 52 = shift at hfew hlead ⊢
  unfold roundQuotient
  simp only [Nat.shiftLeft_eq, Nat.one_mul] at hfew hlead ⊢
  have hsplit := Nat.div_add_mod scaled (2 ^ shift)
  have hrest := Nat.mod_lt scaled (Nat.two_pow_pos shift)
  generalize scaled / 2 ^ shift = q at *
  generalize scaled % 2 ^ shift = rest at *
  obtain ⟨r, hr⟩ : ∃ r, r = shift * 2 ^ 52 + q := ⟨_, rfl⟩
  have hbelow : unitsOfRank r = 2 ^ shift * q := by
    rw [hr, unitsOfRank_significand hfew hlead, Nat.mul_comm]
  have habove : unitsOfRank (r + 1) = 2 ^ shift * q + 2 ^ shift := by
    rw [unitsOfRank_succ, hbelow, hr, shiftOfRank_significand hfew hlead]
  rw [apply_ite (shift * 2 ^ 52 + ·), apply_ite (shift * 2 ^ 52 + ·), ← Nat.add_assoc,
    ← Nat.add_assoc, ← hr]
  split_ifs with hlow hhigh
  · exact readsBack_below (by omega) (by omega) (by omega)
  · exact readsBack_above (by omega) (by omega) (by omega)
  · rcases Nat.mod_two_eq_zero_or_one q with heven | hodd
    · rw [heven, Nat.add_zero]
      exact readsBack_below (by omega) (by omega) (by omega)
    · rw [hodd]
      exact readsBack_above (by omega) (by omega) (by omega)

theorem midpoints_nearestRank (n : Nat) :
    unitsOfRank (nearestRank n 1 - 1) + unitsOfRank (nearestRank n 1) ≤ 2 * (n * unitsPerOne) ∧
      2 * (n * unitsPerOne) ≤ unitsOfRank (nearestRank n 1) + unitsOfRank (nearestRank n 1 + 1) := by
  have h := (readsBack_nearestRank n).bounds
  rw [natCast_mul_halvesPerOne] at h
  exact_mod_cast h

theorem nearestRank_eq_iff : nearestRank n 1 = r ↔ ReadsBack r (n * halvesPerOne) := by
  constructor
  · rintro rfl
    exact readsBack_nearestRank n
  · exact (readsBack_nearestRank n).unique

theorem value_of_nonneg (hx : x.negative = false) :
    x.value = (unitsOfRank x.rank : ℚ) / unitsPerOne := by
  rw [value, hx, if_neg Bool.false_ne_true, units]

theorem unitsPerOne_pos : 0 < unitsPerOne := Nat.two_pow_pos unitsExponent

theorem cast_unitsPerOne_pos : (0 : ℚ) < unitsPerOne := Nat.cast_pos.mpr unitsPerOne_pos

theorem unitsOfRank_zero : unitsOfRank 0 = 0 := rfl

theorem value_eq_of_units (hx : x.negative = false) (h : x.units = n * unitsPerOne) :
    x.value = n := by
  rw [value, hx, if_neg Bool.false_ne_true, h, Nat.cast_mul,
    mul_div_cancel_right₀ _ cast_unitsPerOne_pos.ne']

theorem rank_and_value_of_ordinal (h : (r : ℤ) = x.ordinal) :
    x.rank = r ∧ x.value = (unitsOfRank r : ℚ) / unitsPerOne := by
  unfold ordinal at h
  unfold value units
  split_ifs at h ⊢ with hneg
  · have hzero : x.rank = 0 := by omega
    obtain rfl : r = 0 := by omega
    refine ⟨hzero, ?_⟩
    rw [hzero, unitsOfRank_zero, Nat.cast_zero, neg_zero]
  · obtain rfl : r = x.rank := by omega
    exact ⟨rfl, rfl⟩

theorem nonneg_of_value_pos (h : 0 < x.value) : x.negative = false := by
  rw [Bool.eq_false_iff]
  intro hneg
  rw [value, hneg, if_pos rfl, div_pos_iff_of_pos_right cast_unitsPerOne_pos] at h
  have := Nat.cast_nonneg (α := ℚ) x.units
  linarith

theorem ordinal_nonneg (h : 0 ≤ x.value) : 0 ≤ x.ordinal := by
  unfold ordinal
  split_ifs with hneg
  · rw [value, if_pos hneg, le_div_iff₀ cast_unitsPerOne_pos, zero_mul, neg_nonneg,
      ← Nat.cast_zero, Nat.cast_le] at h
    by_contra hrank
    have hpos : 0 < x.units := unitsOfRank_pos (by omega)
    omega
  · exact Int.natCast_nonneg _

theorem unitsOfRank_eq_zero_iff : unitsOfRank r = 0 ↔ r = 0 := by
  constructor
  · intro h
    by_contra hr
    exact (unitsOfRank_pos hr).ne' h
  · intro h
    rw [h, unitsOfRank_zero]

theorem le_iff_value_le {y : Binary64} : x ≤ y ↔ x.value ≤ y.value := by
  have hranks : ∀ r s, unitsOfRank r ≤ unitsOfRank s ↔ r ≤ s := fun _ _ =>
    unitsOfRank_strictMono.le_iff_le
  have hx := unitsOfRank_eq_zero_iff (r := x.rank)
  have hy := unitsOfRank_eq_zero_iff (r := y.rank)
  show x.ordinal ≤ y.ordinal ↔ _
  unfold value ordinal units
  rw [div_le_div_iff_of_pos_right cast_unitsPerOne_pos]
  cases x.negative <;> cases y.negative
  · simpa using (hranks x.rank y.rank).symm
  · simp only [Bool.false_eq_true, if_false, if_true]
    constructor
    · intro h
      rw [hx.mpr (by omega), hy.mpr (by omega), Nat.cast_zero, neg_zero]
    · intro h
      have hsum : (unitsOfRank x.rank + unitsOfRank y.rank : ℚ) ≤ 0 := by linarith
      norm_cast at hsum
      omega
  · simp only [Bool.false_eq_true, if_false, if_true]
    refine ⟨fun _ => ?_, fun _ => by omega⟩
    exact (neg_nonpos.mpr (Nat.cast_nonneg _)).trans (Nat.cast_nonneg _)
  · simpa using (hranks y.rank x.rank).symm

theorem value_ofInt64 {m : Int64} (h : (ofInt64 m).units = m.toInt.natAbs * unitsPerOne) :
    (ofInt64 m).value = m.toInt := by
  have habs : ((ofInt64 m).units : ℚ) / unitsPerOne = |(m.toInt : ℚ)| := by
    rw [h, Nat.cast_mul, mul_div_cancel_right₀ _ cast_unitsPerOne_pos.ne', Nat.cast_natAbs,
      Int.cast_abs]
  have hsign : (ofInt64 m).negative = decide (m.toInt < 0) := rfl
  unfold value
  rw [hsign]
  by_cases hneg : m.toInt < 0
  · have hcast : (m.toInt : ℚ) < 0 := Int.cast_lt_zero.mpr hneg
    rw [if_pos (decide_eq_true hneg), neg_div, habs, abs_of_neg hcast, neg_neg]
  · have hcast : (0 : ℚ) ≤ m.toInt := by exact_mod_cast Int.not_lt.mp hneg
    rw [if_neg (by simpa using hneg), habs, abs_of_nonneg hcast]

/-! ## Integers and doubles in order -/

theorem nearestRank_le_ordinal (h : n ≤ x.value) : (nearestRank n 1 : ℤ) ≤ x.ordinal := by
  rcases Nat.eq_zero_or_pos n with rfl | hpos
  · rw [nearestRank_zero]
    exact ordinal_nonneg (by exact_mod_cast h)
  · have hneg := nonneg_of_value_pos (lt_of_lt_of_le (Nat.cast_pos.mpr hpos) h)
    rw [value_of_nonneg hneg, le_div_iff₀ cast_unitsPerOne_pos, ← Nat.cast_mul, Nat.cast_le] at h
    rw [ordinal, hneg, if_neg Bool.false_ne_true, Nat.cast_le]
    by_contra hlt
    have hread := (midpoints_nearestRank n).1
    generalize nearestRank n 1 = r at hlt hread
    have hprev : unitsOfRank x.rank ≤ unitsOfRank (r - 1) :=
      unitsOfRank_strictMono.monotone (by omega)
    have hrank : unitsOfRank x.rank < unitsOfRank r := unitsOfRank_strictMono (by omega)
    omega

theorem ordinal_le_nearestRank (h : x.value ≤ n) : x.ordinal ≤ nearestRank n 1 := by
  cases hneg : x.negative with
  | true =>
    rw [ordinal, hneg, if_pos rfl]
    omega
  | false =>
    rw [value_of_nonneg hneg, div_le_iff₀ cast_unitsPerOne_pos, ← Nat.cast_mul, Nat.cast_le] at h
    rw [ordinal, hneg, if_neg Bool.false_ne_true, Nat.cast_le]
    by_contra hlt
    have hread := (midpoints_nearestRank n).2
    generalize nearestRank n 1 = r at hlt hread
    have hnext : unitsOfRank (r + 1) ≤ unitsOfRank x.rank :=
      unitsOfRank_strictMono.monotone (by omega)
    have hrank : unitsOfRank r < unitsOfRank x.rank := unitsOfRank_strictMono (by omega)
    omega

/-! ## Doubles that stand for one integer -/

/-- Neighbours are one apart at most, or two and the significand is odd. -/
def IsAlone (x : Binary64) : Prop := x.value < 2 ^ 53 ∨ x.value < 2 ^ 54 ∧ x.rank % 2 = 1

theorem unitsOfRank_le_pred (r : Nat) :
    unitsOfRank r ≤ unitsOfRank (r - 1) + 2 ^ shiftOfRank r := by
  cases r with
  | zero => exact Nat.zero_le _
  | succ p =>
    have hshift : shiftOfRank p ≤ shiftOfRank (p + 1) := by
      simp only [shiftOfRank, Nat.shiftRight_eq_div_pow]
      omega
    rw [Nat.add_sub_cancel, unitsOfRank_succ]
    exact Nat.add_le_add_left (Nat.pow_le_pow_right (by decide) hshift) _

/-- An integer that is rounded to a double is half a step away at most, and less if the significand
is odd. -/
theorem near_of_readsBack (h : ReadsBack r (n * halvesPerOne)) :
    2 * unitsOfRank r ≤ 2 * (n * unitsPerOne) + 2 ^ shiftOfRank r ∧
      2 * (n * unitsPerOne) ≤ 2 * unitsOfRank r + 2 ^ shiftOfRank r ∧
      (r % 2 = 1 → 2 * unitsOfRank r < 2 * (n * unitsPerOne) + 2 ^ shiftOfRank r ∧
        2 * (n * unitsPerOne) < 2 * unitsOfRank r + 2 ^ shiftOfRank r) := by
  rw [natCast_mul_halvesPerOne, readsBack_two_mul_iff, unitsOfRank_succ] at h
  have hpred := unitsOfRank_le_pred r
  split_ifs at h with heven
  · exact ⟨by omega, by omega, by omega⟩
  · exact ⟨by omega, by omega, fun _ => by omega⟩

theorem shiftOfRank_le {k : Nat} (h : (unitsOfRank r : ℚ) / unitsPerOne < 2 ^ (53 + k)) :
    shiftOfRank r ≤ unitsExponent + k := by
  by_contra hlt
  obtain ⟨m, -, hunits, -, hlead⟩ := exists_significand r
  have hm : 2 ^ 52 ≤ m := hlead.resolve_left (by omega)
  have hge : 2 ^ (53 + k) * unitsPerOne ≤ unitsOfRank r := by
    calc 2 ^ (53 + k) * unitsPerOne = 2 ^ 52 * 2 ^ (unitsExponent + k + 1) := by
          rw [unitsPerOne, ← Nat.pow_add, ← Nat.pow_add]
          congr 1
          omega
      _ ≤ m * 2 ^ shiftOfRank r :=
          Nat.mul_le_mul hm (Nat.pow_le_pow_right (by decide) (by omega))
      _ = unitsOfRank r := hunits.symm
  rw [div_lt_iff₀ cast_unitsPerOne_pos] at h
  exact absurd h (not_lt.mpr (by exact_mod_cast hge))

/-- A double that is alone has a step that a whole is a multiple of, or twice a whole and the
significand is odd. -/
theorem IsAlone.exists_steps (hx : x.IsAlone) (hvalue : x.value = unitsOfRank x.rank / unitsPerOne) :
    ∃ steps, 2 * unitsPerOne = steps * 2 ^ shiftOfRank x.rank ∧
      (steps % 2 = 0 ∨ x.rank % 2 = 1) := by
  rw [IsAlone, hvalue] at hx
  rcases hx with hx | ⟨hx, hodd⟩
  · have hshift : shiftOfRank x.rank ≤ unitsExponent := shiftOfRank_le (k := 0) hx
    refine ⟨2 * 2 ^ (unitsExponent - shiftOfRank x.rank), ?_, .inl (Nat.mul_mod_right _ _)⟩
    rw [Nat.mul_assoc, ← Nat.pow_add, Nat.sub_add_cancel hshift, unitsPerOne]
  · have hshift : shiftOfRank x.rank ≤ unitsExponent + 1 := shiftOfRank_le (k := 1) hx
    refine ⟨2 ^ (unitsExponent + 1 - shiftOfRank x.rank), ?_, .inr hodd⟩
    rw [← Nat.pow_add, Nat.sub_add_cancel hshift, Nat.pow_succ', unitsPerOne]

/-- **A double that is alone stands for its own value only.** -/
theorem IsAlone.value_eq (hx : x.IsAlone) (h : (nearestRank n 1 : ℤ) = x.ordinal) :
    x.value = n := by
  obtain ⟨hrank, hvalue⟩ := rank_and_value_of_ordinal h
  have hnear := near_of_readsBack (readsBack_nearestRank n)
  rw [← hrank] at hvalue hnear
  obtain ⟨steps, hsteps, heven⟩ := hx.exists_steps hvalue
  obtain ⟨m, -, hunits, -, -⟩ := exists_significand x.rank
  have hstep : 0 < 2 ^ shiftOfRank x.rank := Nat.two_pow_pos _
  have hwhole : 2 * (n * unitsPerOne) = n * steps * 2 ^ shiftOfRank x.rank := by
    rw [Nat.mul_left_comm, hsteps, Nat.mul_assoc]
  rw [hunits] at hvalue hnear
  generalize 2 ^ shiftOfRank x.rank = step at *
  -- In steps, twice the integer and twice the double are at most one apart.
  have heq : n * steps = 2 * m := by
    obtain ⟨hlow, hhigh, hodd⟩ := hnear
    have hlow : 2 * m ≤ n * steps + 1 := Nat.le_of_mul_le_mul_right (by linarith) hstep
    have hhigh : n * steps ≤ 2 * m + 1 := Nat.le_of_mul_le_mul_right (by linarith) hstep
    rcases heven with heven | hrank
    · have := Nat.mul_mod n steps 2
      rw [heven] at this
      omega
    · obtain ⟨hlow', hhigh'⟩ := hodd hrank
      have := Nat.lt_of_mul_lt_mul_right (a := step) (b := 2 * m) (c := n * steps + 1) (by linarith)
      have := Nat.lt_of_mul_lt_mul_right (a := step) (b := n * steps) (c := 2 * m + 1) (by linarith)
      omega
  rw [hvalue, div_eq_iff cast_unitsPerOne_pos.ne', ← Nat.cast_mul, Nat.cast_inj]
  rw [heq] at hwhole
  linarith

/-- **Integers compare with a double that is alone as their exact values do.** -/
theorem IsAlone.compare_eq (hx : x.IsAlone) (n : Nat) :
    Ord.compare (nearestRank n 1 : ℤ) x.ordinal = Ord.compare (n : ℚ) x.value := by
  have hne : (n : ℚ) ≠ x.value → (nearestRank n 1 : ℤ) ≠ x.ordinal :=
    fun hvalue hrank => hvalue (hx.value_eq hrank).symm
  rcases lt_trichotomy (n : ℚ) x.value with hlt | heq | hgt
  · rw [compare_lt_iff_lt.mpr hlt, compare_lt_iff_lt]
    exact lt_of_le_of_ne (nearestRank_le_ordinal hlt.le) (hne hlt.ne)
  · rw [compare_eq_iff_eq.mpr heq, compare_eq_iff_eq]
    exact le_antisymm (nearestRank_le_ordinal heq.le) (ordinal_le_nearestRank heq.ge)
  · rw [compare_gt_iff_gt.mpr hgt, compare_gt_iff_gt]
    exact lt_of_le_of_ne (ordinal_le_nearestRank hgt.le) (hne hgt.ne').symm

/-- A double has long steps if it is large, since a significand has 53 bits at most. -/
theorem lt_shiftOfRank (h : 2 ^ 53 ≤ (unitsOfRank r : ℚ) / unitsPerOne) :
    unitsExponent < shiftOfRank r := by
  by_contra hle
  obtain ⟨m, -, hunits, hm, -⟩ := exists_significand r
  have hlt : unitsOfRank r < 2 ^ 53 * unitsPerOne := by
    calc unitsOfRank r = m * 2 ^ shiftOfRank r := hunits
      _ < 2 ^ 53 * 2 ^ shiftOfRank r := Nat.mul_lt_mul_of_pos_right hm (Nat.two_pow_pos _)
      _ ≤ 2 ^ 53 * unitsPerOne :=
          Nat.mul_le_mul_left _ (Nat.pow_le_pow_right (by decide) (not_lt.mp hle))
  rw [le_div_iff₀ cast_unitsPerOne_pos] at h
  exact absurd h (not_le.mpr (by exact_mod_cast hlt))

/-- A large double is even, and so is the distance to the next one. -/
theorem exists_long_step (h : 2 ^ 53 ≤ (unitsOfRank r : ℚ) / unitsPerOne) :
    ∃ m j, m < 2 ^ 53 ∧ 2 ^ shiftOfRank r = 2 ^ j * (2 * unitsPerOne) ∧
      unitsOfRank r = 2 * (m * 2 ^ j) * unitsPerOne := by
  obtain ⟨m, -, hunits, hm, -⟩ := exists_significand r
  obtain ⟨j, hj⟩ := Nat.exists_eq_add_of_lt (lt_shiftOfRank h)
  have hstep : 2 ^ shiftOfRank r = 2 ^ j * (2 * unitsPerOne) := by
    rw [hj, unitsPerOne, ← Nat.pow_succ', ← Nat.pow_add]
    congr 1
    omega
  refine ⟨m, j, hm, hstep, ?_⟩
  rw [hunits, hstep]
  ring

/-- **Any other double stands for its value and for the integer after it.** -/
theorem exists_rounded (hx : ¬ x.IsAlone) (hlt : x.value < 2 ^ 63) :
    ∃ n : ℕ, x.value < n ∧ n < 2 ^ 63 ∧ (nearestRank n 1 : ℤ) = x.ordinal := by
  rw [IsAlone, not_or, not_lt, not_and_or, not_lt] at hx
  obtain ⟨hlarge, heven⟩ := hx
  have hneg := nonneg_of_value_pos (by linarith)
  obtain ⟨m, j, hm, hstep, hvalue⟩ := exists_long_step (value_of_nonneg hneg ▸ hlarge)
  rw [value_eq_of_units hneg hvalue] at hlt heven ⊢
  refine ⟨2 * (m * 2 ^ j) + 1, by exact_mod_cast Nat.lt_succ_self _, ?_, ?_⟩
  · have hlt : 2 * (m * 2 ^ j) < 2 ^ 63 := by exact_mod_cast hlt
    omega
  · have hordinal : x.ordinal = x.rank := by rw [ordinal, hneg, if_neg Bool.false_ne_true]
    rw [hordinal, Nat.cast_inj, nearestRank_eq_iff, natCast_mul_halvesPerOne]
    have hwhole : (2 * (m * 2 ^ j) + 1) * unitsPerOne = unitsOfRank x.rank + unitsPerOne := by
      rw [hvalue, Nat.succ_mul]
    have hlong : 2 * unitsPerOne ≤ 2 ^ shiftOfRank x.rank := by
      rw [hstep]
      exact Nat.le_mul_of_pos_left _ (Nat.two_pow_pos j)
    rw [hwhole]
    have hsucc := unitsOfRank_succ x.rank
    refine readsBack_below (by omega) (by omega) fun htie => ?_
    -- On a midpoint the step is two, so the double is below `2 ^ 54`.
    have hpow : 2 ^ j * (2 * unitsPerOne) = 1 * (2 * unitsPerOne) := by omega
    have hone : 2 ^ j = 1 :=
      Nat.eq_of_mul_eq_mul_right (Nat.mul_pos (by decide) unitsPerOne_pos) hpow
    have hless : ¬ (2 ^ 54 : ℚ) ≤ (2 * (m * 2 ^ j) : Nat) := by
      rw [hone, not_le]
      exact_mod_cast (by omega : 2 * (m * 1) < 2 ^ 54)
    have hrank := heven.resolve_left hless
    omega

/-! ## Doubles are finite -/

/-- The greatest exponent of a double. It stays a name here, since its power of two is not to be
computed. -/
def valueExponent : Nat := 1024

theorem unitsOfRank_rankLimit : unitsOfRank rankLimit = 2 ^ valueExponent * unitsPerOne := by
  have hlimit : rankLimit = 2046 * 2 ^ 52 + 2 ^ 52 := by decide
  have hsum : 52 + 2046 = valueExponent + unitsExponent := rfl
  rw [hlimit, unitsOfRank_significand (by norm_num) (.inr le_rfl), ← Nat.pow_add, hsum,
    Nat.pow_add, unitsPerOne]

/-- Doubles are finite: beyond the greatest of them lies the next power of two. -/
theorem abs_value_lt (x : Binary64) : |x.value| < 2 ^ valueExponent := by
  have hunits : x.units < 2 ^ valueExponent * unitsPerOne :=
    (unitsOfRank_strictMono x.rank_lt).trans_eq unitsOfRank_rankLimit
  have habs : |x.value| = (x.units : ℚ) / unitsPerOne := by
    unfold value
    rw [abs_div, Nat.abs_cast]
    split_ifs <;> simp only [abs_neg, Nat.abs_cast]
  rw [habs, div_lt_iff₀ cast_unitsPerOne_pos]
  exact_mod_cast hunits

end EntityQuery.Binary64
