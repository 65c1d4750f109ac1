import EntityQuery.Number.Binary64
import Mathlib.Algebra.Order.Ring.Nat

/-! # Integers among the doubles

The integers up to `2 ^ 53` are doubles, so rounding them keeps their order strictly. Rounding any
integers keeps their order, but may make them equal.

* `Binary64.nearestRank_of_le`: the rank of an integer that is a double.
* `Binary64.compare_ofInt64`: such integers compare as doubles as they do as integers.
* `Binary64.ordinal_ofInt64_le`: integers in order are rounded to doubles in order. -/

namespace EntityQuery.Binary64

/-- The greatest size up to which every integer is a double. -/
def exactLimit : Nat := 2 ^ 53

/-- The significand of an integer is shifted by a multiple of it. -/
theorem two_pow_log2_dvd {n : Nat} (hpos : 0 < n) (hn : n ≤ exactLimit) :
    2 ^ n.log2 ∣ n * 2 ^ 52 := by
  rcases Nat.lt_or_eq_of_le hn with hlt | rfl
  · have hlog : n.log2 < 53 := (Nat.log2_lt (Nat.ne_of_gt hpos)).mpr hlt
    exact Dvd.dvd.mul_left (Nat.pow_dvd_pow 2 (by omega)) n
  · have hlog : exactLimit.log2 = 53 := Nat.log2_two_pow
    rw [hlog]
    exact Nat.dvd_mul_right _ _

theorem shiftLeft_eq_mul {n l q : Nat} (hq : n * 2 ^ 52 = 2 ^ l * q) (k : Nat) :
    n <<< (52 + k) = q * 1 <<< (l + k) := by
  calc n <<< (52 + k) = n * 2 ^ 52 * 2 ^ k := by
        rw [Nat.shiftLeft_eq, Nat.mul_assoc, Nat.pow_add]
    _ = q * 1 <<< (l + k) := by
        rw [hq, Nat.shiftLeft_eq, Nat.one_mul, Nat.pow_add, ← Nat.mul_assoc, Nat.mul_comm q]

/-- **The rank of an integer that is a double.** -/
theorem nearestRank_of_le {n : Nat} (hpos : 0 < n) (hn : n ≤ exactLimit) :
    nearestRank n 1 = (n.log2 + 1022) * 2 ^ 52 + n * 2 ^ 52 / 2 ^ n.log2 := by
  obtain ⟨q, hq⟩ := two_pow_log2_dvd hpos hn
  have hlog : (n <<< 1074).log2 = n.log2 + 1074 := log2_shiftLeft 1074 (Nat.ne_of_gt hpos)
  have hshift : n.log2 + 1074 - 52 = n.log2 + 1022 := by omega
  have hscaled : n <<< 1074 = q * 1 <<< (n.log2 + 1022) := shiftLeft_eq_mul hq 1022
  have hden : 0 < 1 <<< (n.log2 + 1022) := by
    rw [Nat.shiftLeft_eq]
    exact Nat.mul_pos Nat.one_pos (Nat.two_pow_pos _)
  have hround : roundQuotient (n <<< 1074) (1 <<< (n.log2 + 1022)) = q := by
    unfold roundQuotient
    rw [hscaled, Nat.mul_mod_left, Nat.mul_div_cancel _ hden]
    simp [hden]
  have hquotient : n * 2 ^ 52 / 2 ^ n.log2 = q := by
    rw [hq, Nat.mul_div_cancel_left _ (Nat.two_pow_pos _)]
  simp only [nearestRank, Nat.div_one, hlog, hshift, hround]
  rw [Nat.shiftLeft_eq, hquotient]

theorem nearestRank_zero : nearestRank 0 1 = 0 := by
  simp [nearestRank, roundQuotient]

theorem nearestRank_lt_of_lt {m n : Nat} (hmn : m < n) (hn : n ≤ exactLimit) :
    nearestRank m 1 < nearestRank n 1 := by
  have hnpos : 0 < n := by omega
  have hlow : ∀ k, 0 < k → 2 ^ 52 ≤ k * 2 ^ 52 / 2 ^ k.log2 := by
    intro k hk
    rw [Nat.le_div_iff_mul_le (Nat.two_pow_pos _), Nat.mul_comm]
    exact Nat.mul_le_mul_right _ (Nat.log2_self_le (Nat.ne_of_gt hk))
  have hhigh : ∀ k, k * 2 ^ 52 / 2 ^ k.log2 < 2 ^ 53 := by
    intro k
    rw [Nat.div_lt_iff_lt_mul (Nat.two_pow_pos _)]
    have := @Nat.lt_log2_self k
    rw [Nat.pow_succ] at this
    omega
  rcases Nat.eq_zero_or_pos m with rfl | hm
  · rw [nearestRank_zero, nearestRank_of_le hnpos hn]
    have := hlow n hnpos
    omega
  · rw [nearestRank_of_le hm (by omega), nearestRank_of_le hnpos hn]
    have hlog : m.log2 ≤ n.log2 := by
      rw [Nat.le_log2 (by omega)]
      exact Nat.le_trans (Nat.log2_self_le (by omega)) (Nat.le_of_lt hmn)
    rcases Nat.lt_or_eq_of_le hlog with hlt | heq
    · have := hlow n hnpos
      have := hhigh m
      omega
    · rw [heq]
      have hdvd := two_pow_log2_dvd hnpos hn
      have hlt : m * 2 ^ 52 / 2 ^ n.log2 < n * 2 ^ 52 / 2 ^ n.log2 := by
        rw [Nat.div_lt_iff_lt_mul (Nat.two_pow_pos _), Nat.div_mul_cancel hdvd]
        omega
      omega

theorem ordinal_ofInt64 (n : Int64) :
    (ofInt64 n).ordinal = if n.toInt < 0 then -(nearestRank n.toInt.natAbs 1 : Int)
      else nearestRank n.toInt.natAbs 1 := by
  unfold ordinal ofInt64
  simp only [decide_eq_true_eq]

theorem ordinal_ofInt64_lt {a b : Int64} (ha : a.toInt.natAbs ≤ exactLimit)
    (hb : b.toInt.natAbs ≤ exactLimit) (hab : a.toInt < b.toInt) :
    (ofInt64 a).ordinal < (ofInt64 b).ordinal := by
  rw [ordinal_ofInt64, ordinal_ofInt64]
  split_ifs with haneg hbneg hbneg
  · have := nearestRank_lt_of_lt (m := b.toInt.natAbs) (n := a.toInt.natAbs) (by omega) ha
    omega
  · have := nearestRank_lt_of_lt (m := 0) (n := a.toInt.natAbs) (by omega) ha
    omega
  · omega
  · have := nearestRank_lt_of_lt (m := a.toInt.natAbs) (n := b.toInt.natAbs) (by omega) hb
    omega

/-- **Integers that are doubles compare as doubles as they do as integers.** -/
theorem compare_ofInt64 {a b : Int64} (ha : a.toInt.natAbs ≤ exactLimit)
    (hb : b.toInt.natAbs ≤ exactLimit) :
    compare (ofInt64 a).ordinal (ofInt64 b).ordinal = compare a.toInt b.toInt := by
  rcases Int.lt_trichotomy a.toInt b.toInt with hlt | heq | hgt
  · rw [Std.compare_eq_lt.mpr hlt, Std.compare_eq_lt.mpr (ordinal_ofInt64_lt ha hb hlt)]
  · rw [Int64.toInt_inj.mp heq, Std.compare_self, Std.compare_self]
  · rw [Std.compare_eq_gt.mpr hgt, Std.compare_eq_gt.mpr (ordinal_ofInt64_lt hb ha hgt)]

/-! ## Integers of any size -/

theorem div_le_roundQuotient (num den : Nat) : num / den ≤ roundQuotient num den := by
  unfold roundQuotient
  dsimp only
  split_ifs <;> omega

theorem roundQuotient_le_of_le {a b den : Nat} (h : a ≤ b) :
    roundQuotient a den ≤ roundQuotient b den := by
  have hquotient : a / den ≤ b / den := Nat.div_le_div_right h
  rcases Nat.lt_or_eq_of_le hquotient with hlt | heq
  · have hhigh := roundQuotient_le a den
    have hlow := div_le_roundQuotient b den
    omega
  · have hmod : a % den ≤ b % den := by
      have ha := Nat.div_add_mod a den
      have hb := Nat.div_add_mod b den
      rw [heq] at ha
      omega
    unfold roundQuotient
    rw [heq]
    dsimp only
    split_ifs <;> omega

theorem le_div_shift {s : Nat} (h : 52 < s.log2) : 2 ^ 52 ≤ s / 1 <<< (s.log2 - 52) := by
  rw [Nat.shiftLeft_eq, Nat.one_mul, Nat.le_div_iff_mul_le (Nat.two_pow_pos _), ← Nat.pow_add,
    Nat.add_sub_cancel' (Nat.le_of_lt h)]
  exact Nat.log2_self_le (by rintro rfl; simp at h)

/-- **Rounding keeps the order.** -/
theorem nearestRank_le_of_le {m n : Nat} (h : m ≤ n) : nearestRank m 1 ≤ nearestRank n 1 := by
  have hscaled : m <<< 1074 ≤ n <<< 1074 := by
    rw [Nat.shiftLeft_eq, Nat.shiftLeft_eq]
    exact Nat.mul_le_mul_right _ h
  simp only [nearestRank, Nat.div_one]
  generalize m <<< 1074 = a at hscaled ⊢
  generalize n <<< 1074 = b at hscaled ⊢
  have hlog : a.log2 ≤ b.log2 := by
    by_cases ha : a = 0
    · simp [ha]
    · rw [Nat.le_log2 (by omega)]
      exact Nat.le_trans (Nat.log2_self_le ha) hscaled
  by_cases hshift : a.log2 - 52 = b.log2 - 52
  · rw [hshift]
    exact Nat.add_le_add_left (roundQuotient_le_of_le hscaled) _
  · have hfew := div_shift_lt a
    have hround := roundQuotient_le a (1 <<< (a.log2 - 52))
    have hmany := le_div_shift (s := b) (by omega)
    have hlow := div_le_roundQuotient b (1 <<< (b.log2 - 52))
    simp only [Nat.shiftLeft_eq _ 52]
    omega

theorem ordinal_ofInt64_le {a b : Int64} (hab : a.toInt ≤ b.toInt) :
    (ofInt64 a).ordinal ≤ (ofInt64 b).ordinal := by
  rw [ordinal_ofInt64, ordinal_ofInt64]
  split_ifs with haneg hbneg hbneg
  · have := nearestRank_le_of_le (m := b.toInt.natAbs) (n := a.toInt.natAbs) (by omega)
    omega
  · omega
  · omega
  · have := nearestRank_le_of_le (m := a.toInt.natAbs) (n := b.toInt.natAbs) (by omega)
    omega

end EntityQuery.Binary64
