import EntityQuery.Number.Decimal
import Mathlib.Algebra.Order.Field.Power
import Mathlib.Algebra.Order.Field.Rat
import Mathlib.Tactic.FieldSimp
import Mathlib.Tactic.Linarith
import Mathlib.Tactic.NormNum
import Mathlib.Tactic.Positivity
import Mathlib.Tactic.Ring

/-! # Shortest decimals

The search for the shortest decimal of a double always ends with one that reads back as the double:
neighbours are apart by a `2 ^ 53`-th of their size at least, so among the decimals of 17 digits there
is one that is nearer to the double than half of that. A number reads back as one double only.

* `Binary64.unitsOfRank_succ`, `Binary64.unitsOfRank_succ_le`: how far neighbours are apart.
* `Decimal.ReadsBack.unique`: a number reads back as one double.
* `Decimal.exists_onGrid?_seventeen`: **17 digits are enough**.
* `Decimal.shortest_readsBack`: the shortest decimal of a double reads back as it. -/

namespace EntityQuery

/-! ## Neighbours -/

namespace Binary64

/-- A rank is made up of a shift and a significand, which has its leading bit unless the shift is
zero. -/
theorem exists_significand (r : Nat) :
    ∃ m, r = shiftOfRank r * 2 ^ 52 + m ∧ unitsOfRank r = m * 2 ^ shiftOfRank r ∧ m < 2 ^ 53 ∧
      (shiftOfRank r = 0 ∨ 2 ^ 52 ≤ m) := by
  refine ⟨r - shiftOfRank r * 2 ^ 52, ?_, ?_, ?_, ?_⟩
  · simp only [shiftOfRank, Nat.shiftRight_eq_div_pow]
    omega
  · rw [unitsOfRank, Nat.shiftLeft_eq, Nat.shiftLeft_eq]
  · simp only [shiftOfRank, Nat.shiftRight_eq_div_pow]
    omega
  · simp only [shiftOfRank, Nat.shiftRight_eq_div_pow]
    omega

theorem shiftOfRank_significand {s m : Nat} (hm : m < 2 ^ 53) (hlead : s = 0 ∨ 2 ^ 52 ≤ m) :
    shiftOfRank (s * 2 ^ 52 + m) = s := by
  simp only [shiftOfRank, Nat.shiftRight_eq_div_pow]
  omega

theorem unitsOfRank_significand {s m : Nat} (hm : m < 2 ^ 53) (hlead : s = 0 ∨ 2 ^ 52 ≤ m) :
    unitsOfRank (s * 2 ^ 52 + m) = m * 2 ^ s := by
  rw [unitsOfRank, shiftOfRank_significand hm hlead, Nat.shiftLeft_eq, Nat.shiftLeft_eq,
    Nat.add_sub_cancel_left]

/-- **The next double is one unit of the shifted significand away.** -/
theorem unitsOfRank_succ (r : Nat) :
    unitsOfRank (r + 1) = unitsOfRank r + 2 ^ shiftOfRank r := by
  obtain ⟨m, hr, hunits, hm, hlead⟩ := exists_significand r
  generalize shiftOfRank r = s at *
  have hsum : m * 2 ^ s + 2 ^ s = (m + 1) * 2 ^ s := by ring
  rw [hunits, hsum]
  by_cases hnext : m + 1 < 2 ^ 53
  · have hlead' : s = 0 ∨ 2 ^ 52 ≤ m + 1 := by omega
    rw [hr, Nat.add_assoc, unitsOfRank_significand hnext hlead']
  · have hr' : r + 1 = (s + 1) * 2 ^ 52 + 2 ^ 52 := by omega
    have hm' : m + 1 = 2 ^ 52 * 2 := by omega
    rw [hr', unitsOfRank_significand (by norm_num) (.inr le_rfl), hm']
    ring

/-- **Neighbours are apart by a `2 ^ 53`-th of their size at least.** -/
theorem unitsOfRank_succ_le (r : Nat) : unitsOfRank (r + 1) ≤ 2 ^ 53 * 2 ^ shiftOfRank r := by
  obtain ⟨m, -, hunits, hm, -⟩ := exists_significand r
  have hsum : m * 2 ^ shiftOfRank r + 2 ^ shiftOfRank r = (m + 1) * 2 ^ shiftOfRank r := by ring
  rw [unitsOfRank_succ, hunits, hsum]
  exact Nat.mul_le_mul_right _ hm

theorem unitsOfRank_strictMono : StrictMono unitsOfRank :=
  strictMono_nat_of_lt_succ fun r => by
    rw [unitsOfRank_succ]
    exact Nat.lt_add_of_pos_right (Nat.two_pow_pos _)

theorem unitsOfRank_pos {r : Nat} (hr : r ≠ 0) : 0 < unitsOfRank r :=
  Nat.lt_of_le_of_lt (Nat.zero_le (unitsOfRank 0))
    (unitsOfRank_strictMono (Nat.pos_of_ne_zero hr))

end Binary64

namespace Decimal

open Binary64 (unitsOfRank unitsOfRank_strictMono)

variable {d : Decimal} {tie : Tie} {r r' : Nat} {e : Int}

/-- The power of two that half of the smallest positive double is the inverse of. -/
def halvesExponent : Nat := 1075

/-- How many halves of the smallest positive double make one. -/
def halvesPerOne : Nat := 2 ^ halvesExponent

/-- The number that a decimal denotes, in halves of the smallest positive double. -/
def halves (d : Decimal) : ℚ := d.coefficient * (10 : ℚ) ^ d.exponent * halvesPerOne

/-- A number, in halves of the smallest positive double, lies between the midpoints to the
neighbours of the double of rank `r`; the midpoints themselves belong to the even rank. -/
def ReadsBack (r : Nat) (q : ℚ) : Prop :=
  let least : ℚ := unitsOfRank (r - 1) + unitsOfRank r
  let greatest : ℚ := unitsOfRank r + unitsOfRank (r + 1)
  if r % 2 = 0 then least ≤ q ∧ q ≤ greatest else least < q ∧ q < greatest

namespace ReadsBack

variable {q : ℚ}

theorem bounds (h : ReadsBack r q) :
    (unitsOfRank (r - 1) + unitsOfRank r : ℚ) ≤ q ∧ q ≤ unitsOfRank r + unitsOfRank (r + 1) := by
  unfold ReadsBack at h
  split_ifs at h with heven
  · exact h
  · exact ⟨h.1.le, h.2.le⟩

theorem le (h : ReadsBack r q) (h' : ReadsBack r' q) : r' ≤ r := by
  by_contra hlt
  have hbelow : (unitsOfRank r : ℚ) ≤ unitsOfRank (r' - 1) := by
    exact_mod_cast unitsOfRank_strictMono.monotone (by omega : r ≤ r' - 1)
  have hr := h.bounds.2
  have hr' := h'.bounds.1
  -- only a midpoint of neighbours is left, and it belongs to one of them
  have hsucc : r' = r + 1 := by
    by_contra hne
    have habove : (unitsOfRank (r + 1) : ℚ) < unitsOfRank r' := by
      exact_mod_cast unitsOfRank_strictMono (by omega : r + 1 < r')
    linarith
  subst hsucc
  unfold ReadsBack at h h'
  rw [Nat.add_sub_cancel] at hr' h'
  split_ifs at h h' with heven heven'
  · omega
  · linarith [h'.1]
  · linarith [h.2]
  · linarith [h.2]

/-- **A number reads back as one double.** -/
theorem unique (h : ReadsBack r q) (h' : ReadsBack r' q) : r = r' :=
  Nat.le_antisymm (h'.le h) (h.le h')

end ReadsBack

/-! ## Grids -/

theorem pow_mul_pow_toNat_neg (e : Int) :
    (10 : ℚ) ^ e * (10 : ℚ) ^ (-e).toNat = (10 : ℚ) ^ e.toNat := by
  rw [← zpow_natCast, ← zpow_natCast, ← zpow_add₀ (by norm_num)]
  congr 1
  omega

/-- The scale on which a decimal and the midpoints are natural numbers. -/
theorem cast_mul_step (c : Nat) (e : Int) :
    ((c * (Nat.pow 10 e.toNat <<< 1075) : Nat) : ℚ) =
      halves ⟨c, e⟩ * (Nat.pow 10 (-e).toNat : Nat) := by
  have hstep : Nat.pow 10 e.toNat <<< 1075 = 10 ^ e.toNat * halvesPerOne :=
    Nat.shiftLeft_eq _ halvesExponent
  rw [hstep, Nat.pow_eq, halves]
  push_cast
  rw [← pow_mul_pow_toNat_neg]
  ring

section Scale

variable (a c : Nat) (e : Int)

theorem mul_times_le_iff :
    a * Nat.pow 10 (-e).toNat ≤ c * (Nat.pow 10 e.toNat <<< 1075) ↔ (a : ℚ) ≤ halves ⟨c, e⟩ := by
  have htimes : (0 : ℚ) < (Nat.pow 10 (-e).toNat : Nat) :=
    Nat.cast_pos.mpr (Nat.pow_pos (by decide))
  rw [← Nat.cast_le (α := ℚ), cast_mul_step, Nat.cast_mul, mul_le_mul_iff_left₀ htimes]

theorem le_mul_times_iff :
    c * (Nat.pow 10 e.toNat <<< 1075) ≤ a * Nat.pow 10 (-e).toNat ↔ halves ⟨c, e⟩ ≤ (a : ℚ) := by
  have htimes : (0 : ℚ) < (Nat.pow 10 (-e).toNat : Nat) :=
    Nat.cast_pos.mpr (Nat.pow_pos (by decide))
  rw [← Nat.cast_le (α := ℚ), cast_mul_step, Nat.cast_mul, mul_le_mul_iff_left₀ htimes]

end Scale

theorem readsBack_iff (r c : Nat) (e : Int) :
    (if r % 2 = 0 then
        decide ((unitsOfRank (r - 1) + unitsOfRank r) * Nat.pow 10 (-e).toNat ≤
            c * (Nat.pow 10 e.toNat <<< 1075)) &&
          decide (c * (Nat.pow 10 e.toNat <<< 1075) ≤
            (unitsOfRank r + unitsOfRank (r + 1)) * Nat.pow 10 (-e).toNat)
      else
        decide ((unitsOfRank (r - 1) + unitsOfRank r) * Nat.pow 10 (-e).toNat <
            c * (Nat.pow 10 e.toNat <<< 1075)) &&
          decide (c * (Nat.pow 10 e.toNat <<< 1075) <
            (unitsOfRank r + unitsOfRank (r + 1)) * Nat.pow 10 (-e).toNat)) = true ↔
      ReadsBack r (halves ⟨c, e⟩) := by
  unfold ReadsBack
  split_ifs with heven
  · rw [Bool.and_eq_true, decide_eq_true_iff, decide_eq_true_iff, mul_times_le_iff,
      le_mul_times_iff, Nat.cast_add, Nat.cast_add]
  · rw [Bool.and_eq_true, decide_eq_true_iff, decide_eq_true_iff, ← not_le, ← not_le,
      mul_times_le_iff, le_mul_times_iff, not_le, not_le, Nat.cast_add, Nat.cast_add]

theorem readsBack_of_onGrid? (h : onGrid? tie r e = some d) : d.exponent = e ∧ ReadsBack r d.halves := by
  unfold onGrid? at h
  extract_lets times step value least greatest below readsBack fromBelow fromAbove tieBelow
    chooseBelow nearer farther at h
  have hreads : ∀ c, readsBack c = true ↔ ReadsBack r (halves ⟨c, e⟩) := readsBack_iff r (e := e)
  split_ifs at h with hnearer hfarther
  · obtain rfl := Option.some.inj h
    exact ⟨rfl, (hreads nearer).mp hnearer⟩
  · obtain rfl := Option.some.inj h
    exact ⟨rfl, (hreads farther).mp hfarther⟩

/-- The nearer of the two candidates is half a step away at most. -/
theorem nearer_bounds {value step : Nat} (hstep : 0 < step) (preferBelow : Bool) :
    let below := value / step
    let fromBelow := value - below * step
    let fromAbove := (below + 1) * step - value
    let nearer := if fromBelow < fromAbove || (fromBelow == fromAbove && preferBelow) then below
      else below + 1
    2 * value ≤ 2 * (nearer * step) + step ∧ 2 * (nearer * step) ≤ 2 * value + step := by
  intro below fromBelow fromAbove nearer
  have hbelow : below * step ≤ value := Nat.div_mul_le_self value step
  have habove : value < (below + 1) * step := by
    rw [Nat.mul_comm]
    exact Nat.lt_mul_div_succ value hstep
  have hsucc : (below + 1) * step = below * step + step := Nat.succ_mul below step
  by_cases hchoose : (fromBelow < fromAbove || (fromBelow == fromAbove && preferBelow)) = true
  · have hle : fromBelow ≤ fromAbove := by
      rcases Bool.or_eq_true _ _ ▸ hchoose with h | h
      · exact (of_decide_eq_true h).le
      · rw [Bool.and_eq_true] at h
        exact (beq_iff_eq.mp h.1).le
    have hnearer : nearer = below := if_pos hchoose
    rw [hnearer]
    simp only [fromBelow, fromAbove] at hle
    omega
  · have hle : fromAbove ≤ fromBelow := by
      rw [Bool.or_eq_true, not_or] at hchoose
      exact not_lt.mp fun h => hchoose.1 (decide_eq_true h)
    have hnearer : nearer = below + 1 := if_neg hchoose
    rw [hnearer]
    simp only [fromBelow, fromAbove] at hle
    omega

/-- **On a grid whose step is a `10 ^ 16`-th of a double at most there is a decimal that reads back
as the double.** -/
theorem exists_onGrid? (tie : Tie) (hr : r ≠ 0)
    (hfine : halves ⟨10 ^ 16, e⟩ ≤ ((2 * unitsOfRank r : Nat) : ℚ)) :
    ∃ d, onGrid? tie r e = some d := by
  obtain ⟨p, rfl⟩ := Nat.exists_eq_succ_of_ne_zero hr
  rw [← le_mul_times_iff] at hfine
  unfold onGrid?
  extract_lets times step value least greatest below readsBack fromBelow fromAbove tieBelow
    chooseBelow nearer farther
  have hstep : 0 < step := by
    have heq : step = Nat.pow 10 e.toNat * 2 ^ halvesExponent :=
      Nat.shiftLeft_eq _ halvesExponent
    rw [heq]
    exact Nat.mul_pos (Nat.pow_pos (by decide)) (Nat.two_pow_pos _)
  have htimes : 0 < times := Nat.pow_pos (by decide)
  obtain ⟨hlow, hhigh⟩ : 2 * value ≤ 2 * (nearer * step) + step ∧
      2 * (nearer * step) ≤ 2 * value + step := nearer_bounds hstep tieBelow
  -- both neighbours are farther away than half a step
  have hgap : ∀ k, 0 < k → unitsOfRank (p + 1) ≤ 2 ^ 53 * k → step < 2 * (k * times) := by
    intro k hk hunits
    have hvalue : value ≤ 2 ^ 54 * (k * times) := by
      calc value = 2 * (unitsOfRank (p + 1) * times) := Nat.mul_assoc 2 _ _
        _ ≤ 2 * (2 ^ 53 * k * times) := Nat.mul_le_mul_left 2 (Nat.mul_le_mul_right times hunits)
        _ = 2 ^ 54 * (k * times) := by ring
    have hpos : 0 < k * times := Nat.mul_pos hk htimes
    have hfine : 10 ^ 16 * step ≤ value := hfine
    omega
  have hbelow := hgap _ (Nat.two_pow_pos _) (Binary64.unitsOfRank_succ_le p)
  have habove := hgap _ (Nat.two_pow_pos _) ((unitsOfRank_strictMono (Nat.lt_succ_self _)).le.trans
    (Binary64.unitsOfRank_succ_le (p + 1)))
  have hleast : least + 2 ^ Binary64.shiftOfRank p * times = value := by
    simp only [least, value, Nat.succ_eq_add_one, Nat.add_sub_cancel, Binary64.unitsOfRank_succ p]
    ring
  have hgreatest : greatest = value + 2 ^ Binary64.shiftOfRank (p + 1) * times := by
    simp only [greatest, value, Nat.succ_eq_add_one, Binary64.unitsOfRank_succ (p + 1)]
    ring
  have hreads : readsBack nearer = true := by
    have hlt : least < nearer * step ∧ nearer * step < greatest := by omega
    simp only [readsBack]
    split_ifs
    · simp [hlt.1.le, hlt.2.le]
    · simp [hlt]
  rw [if_pos hreads]
  exact ⟨_, rfl⟩

/-! ## Leading digits -/

theorem lt_pow_digitCount (n : Nat) : n < 10 ^ digitCount n := by
  unfold digitCount
  split_ifs with hn
  · rw [hn]
    norm_num
  · exact (Nat.length_toDigits_le_iff (by decide) Nat.length_toDigits_pos).mp le_rfl

theorem pow_digitCount_le {n : Nat} (hn : n ≠ 0) : 10 ^ (digitCount n - 1) ≤ n := by
  unfold digitCount
  rw [if_neg hn]
  by_contra hlt
  rcases Nat.eq_zero_or_pos ((Nat.toDigits 10 n).length - 1) with hzero | hpos
  · rw [hzero] at hlt
    omega
  · have := (Nat.length_toDigits_le_iff (by decide) hpos).mpr (not_le.mp hlt)
    omega

theorem pow_leadingExponent_le {num den : Nat} (hnum : 0 < num) (hden : 0 < den) :
    (10 : ℚ) ^ leadingExponent num den * den ≤ num := by
  unfold leadingExponent
  split_ifs with hle
  · have hquotient : num / den ≠ 0 := (Nat.div_pos hle hden).ne'
    have hpow : 10 ^ (digitCount (num / den) - 1) * den ≤ num :=
      (Nat.mul_le_mul_right _ (pow_digitCount_le hquotient)).trans (Nat.div_mul_le_self _ _)
    have hcount : 0 < digitCount (num / den) := by
      unfold digitCount
      rw [if_neg hquotient]
      exact Nat.length_toDigits_pos
    have hexponent : (digitCount (num / den) : Int) - 1 = (digitCount (num / den) - 1 : Nat) := by
      omega
    rw [hexponent, zpow_natCast]
    exact_mod_cast hpow
  · have hpow : den ≤ num * 10 ^ digitCount ((den - 1) / num) := by
      have := Nat.lt_mul_of_div_lt (lt_pow_digitCount ((den - 1) / num)) hnum
      rw [Nat.mul_comm] at this
      omega
    rw [zpow_neg, zpow_natCast, inv_mul_le_iff₀ (by positivity), mul_comm]
    exact_mod_cast hpow

/-! ## The search -/

theorem exists_shortestFrom {leading : Int} {last : Nat} (digits count : Nat)
    (hfirst : digits ≤ last) (hlast : last < digits + count)
    (h : ∃ d, onGrid? tie r (leading + 1 - last) = some d) :
    ∃ e, onGrid? tie r e = some (shortestFrom tie r leading digits count) := by
  induction count generalizing digits with
  | zero => omega
  | succ count ih =>
    unfold shortestFrom
    cases hgrid : onGrid? tie r (leading + 1 - digits) with
    | some d => exact ⟨_, hgrid⟩
    | none =>
      have hne : digits ≠ last := by
        rintro rfl
        obtain ⟨d, hd⟩ := h
        rw [hgrid] at hd
        cases hd
      exact ih (digits + 1) (by omega) (by omega)

theorem pow_mul_pow_leading (leading : Int) :
    (10 : ℚ) ^ 16 * (10 : ℚ) ^ (leading + 1 - (17 : Nat)) = (10 : ℚ) ^ leading := by
  rw [← zpow_natCast, ← zpow_add₀ (by norm_num)]
  congr 1
  omega

/-- **17 digits are enough.** -/
theorem exists_onGrid?_seventeen (tie : Tie) (hr : r ≠ 0) :
    ∃ d, onGrid? tie r (leadingExponent (unitsOfRank r) (1 <<< 1074) + 1 - (17 : Nat)) = some d := by
  refine exists_onGrid? tie hr ?_
  have hhalves : halvesPerOne = 2 * 1 <<< 1074 := by decide +kernel
  have hone : 0 < 1 <<< 1074 := by decide +kernel
  generalize 1 <<< 1074 = one at *
  have hleading := pow_leadingExponent_le (Binary64.unitsOfRank_pos hr) hone
  generalize leadingExponent (unitsOfRank r) one = leading at *
  calc halves ⟨10 ^ 16, leading + 1 - (17 : Nat)⟩
      = 10 ^ leading * halvesPerOne := by
        rw [halves, ← pow_mul_pow_leading leading, Nat.cast_pow, Nat.cast_ofNat]
    _ = 2 * (10 ^ leading * one) := by
        rw [hhalves]
        push_cast
        ring
    _ ≤ ((2 * unitsOfRank r : Nat) : ℚ) := by
        push_cast
        linarith

/-! ## Trailing zeros -/

theorem halves_zero (exponent : Int) : halves ⟨0, exponent⟩ = 0 := by
  rw [halves, Nat.cast_zero, zero_mul, zero_mul]

theorem halves_trim (d : Decimal) : d.trim.halves = d.halves := by
  fun_induction trim d with
  | case1 d h =>
    obtain ⟨coefficient, exponent⟩ := d
    obtain rfl : coefficient = 0 := h
    rw [halves_zero, halves_zero]
  | case2 d h h' ih =>
    have hcoefficient : (d.coefficient : ℚ) = (d.coefficient / 10 : Nat) * 10 := by
      exact_mod_cast (by omega : d.coefficient = d.coefficient / 10 * 10)
    rw [ih, halves, halves, hcoefficient, zpow_add₀ (by norm_num)]
    ring
  | case3 d h h' => rfl

/-! ## Shortest decimals -/

/-- **The shortest decimal of a double reads back as it.** -/
theorem shortest_readsBack (tie : Tie) (x : Binary64) :
    ReadsBack x.rank (shortest tie x).halves := by
  unfold shortest
  split_ifs with hx
  · rw [hx, halves_zero]
    simp [ReadsBack, Binary64.unitsOfRank, Binary64.shiftOfRank]
  · rw [halves_trim]
    obtain ⟨e, he⟩ := exists_shortestFrom 1 17 (by omega) (by omega)
      (exists_onGrid?_seventeen tie hx)
    exact (readsBack_of_onGrid? he).2

end Decimal

end EntityQuery
