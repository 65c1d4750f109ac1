import EntityQuery.Proofs.Scalar.Order

/-! # Scalars that rounding blurs

A double that is equal to two integers blurs them: the integers are told apart from each other, but
not from the double. Without such a double, listed scalars are in one order, however large their
integers are. Numbers stand where they are rounded to, and integers that are rounded to one double
stand there by their size; if the double itself is listed, there is just one of them.

* `Scalar.Blurred`: a listed double is equal to two listed integers.
* `Scalar.ordered_iff`: scalars are in one order just if none is blurred. -/

namespace EntityQuery.Scalar

variable {S : List Scalar} {x : Binary64} {m n : Int64} {a b : Scalar}

/-- A listed double is equal to two listed integers. -/
def Blurred (S : List Scalar) : Prop :=
  ∃ x m n, float x ∈ S ∧ int m ∈ S ∧ int n ∈ S ∧ m ≠ n ∧
    (int m).compare (float x) = some .eq ∧ (int n).compare (float x) = some .eq

theorem Blurred.exists_gt (h : Blurred S) :
    ∃ x m n, float x ∈ S ∧ int m ∈ S ∧ int n ∈ S ∧ Ord.compare m n = .gt ∧
      (int m).compare (float x) = some .eq ∧ (int n).compare (float x) = some .eq := by
  obtain ⟨x, m, n, hx, hm, hn, hne, hmx, hnx⟩ := h
  cases hmn : Ord.compare m n with
  | lt => exact ⟨x, n, m, hx, hn, hm, Std.OrientedCmp.gt_of_lt hmn, hnx, hmx⟩
  | eq => exact absurd (Std.compare_eq_iff_eq.mp hmn) hne
  | gt => exact ⟨x, m, n, hx, hm, hn, hmn, hmx, hnx⟩

/-- Where an integer stands when it is compared with a double. -/
def rounded (n : Int64) : Int := (Binary64.ofInt64 n).ordinal

theorem compare_int_float_eq_iff :
    (int n).compare (float x) = some .eq ↔ rounded n = x.ordinal := by
  show some (Ord.compare (rounded n) x.ordinal) = some .eq ↔ rounded n = x.ordinal
  rw [Option.some.injEq, Std.compare_eq_iff_eq]

theorem compare_float_int (h : (int n).compare (float x) = some .eq) :
    (float x).compare (int n) = some .eq := by
  rw [compare_swap, h]
  rfl

theorem sortCompare_int_float (h : (int n).compare (float x) = some .eq) :
    (int n).sortCompare (float x) = .eq := by
  rw [sortCompare, h]
  rfl

theorem sortCompare_float_int (h : (int n).compare (float x) = some .eq) :
    (float x).sortCompare (int n) = .eq := by
  rw [sortCompare_swap, sortCompare_int_float h]
  rfl

/-! ## The order without blurred scalars -/

/-- A scalar that is an integer to which a double is equal. -/
def equalInteger? (x : Binary64) : Scalar → Option Int
  | int n => if rounded n = x.ordinal then some n.toInt else none
  | _ => none

/-- The integer that a scalar is, or to which it is equal among those listed. -/
def integer (S : List Scalar) : Scalar → Int
  | int n => n.toInt
  | float x => (S.findSome? (equalInteger? x)).getD 0
  | _ => 0

/-- The order by kind, by the rounded number or the text, and then by the integer. -/
def compareAmong (S : List Scalar) : Scalar → Scalar → Ordering :=
  compareLex (compareBy rounded) (compareOn (integer S))

instance (S : List Scalar) : Std.TransCmp (compareAmong S) :=
  inferInstanceAs (Std.TransCmp (compareLex _ _))

theorem compareAmong_eq (S : List Scalar) (a b : Scalar) : compareAmong S a b =
    (compareBy rounded a b).then (Ord.compare (integer S a) (integer S b)) := rfl

theorem integer_float (hS : ¬ Blurred S) (hx : float x ∈ S) (hn : int n ∈ S)
    (heq : rounded n = x.ordinal) : integer S (float x) = n.toInt := by
  have hsome : (S.findSome? (equalInteger? x)).isSome :=
    List.findSome?_isSome_iff.mpr ⟨int n, hn, by simp [equalInteger?, heq]⟩
  obtain ⟨i, hi⟩ := Option.isSome_iff_exists.mp hsome
  obtain ⟨a, ha, hai⟩ := List.exists_of_findSome?_eq_some hi
  rw [integer, hi, Option.getD_some]
  cases a with
  | int m =>
    simp only [equalInteger?] at hai
    split_ifs at hai with hm
    by_contra hne
    refine hS ⟨x, m, n, hx, ha, hn, ?_, compare_int_float_eq_iff.mpr hm,
      compare_int_float_eq_iff.mpr heq⟩
    rintro rfl
    exact hne (Option.some.inj hai).symm
  | _ => cases hai

/-- Rounding does not turn the order of integers round, and their size settles it. -/
theorem compareAmong_int_of_lt (h : m.toInt < n.toInt) :
    compareAmong S (int m) (int n) = .lt := by
  have hle : rounded m ≤ rounded n := Binary64.ordinal_ofInt64_le (Int.le_of_lt h)
  have hsplit : compareAmong S (int m) (int n) =
      (Ord.compare (rounded m) (rounded n)).then (Ord.compare m.toInt n.toInt) := by
    simp [compareAmong, compareBy, compareLex, compareOn, kindRank, measure, letters, integer]
  rw [hsplit, Std.compare_eq_lt.mpr h]
  rcases Int.lt_or_eq_of_le hle with hlt | heq
  · rw [Std.compare_eq_lt.mpr hlt]
    rfl
  · rw [heq, Std.compare_self]
    rfl

theorem compareAmong_int (S : List Scalar) (m n : Int64) :
    compareAmong S (int m) (int n) = Ord.compare m n := by
  rw [compare_toInt]
  rcases Int.lt_trichotomy m.toInt n.toInt with hlt | heq | hgt
  · rw [compareAmong_int_of_lt hlt, Std.compare_eq_lt.mpr hlt]
  · rw [Int64.toInt_inj.mp heq, Std.compare_self]
    exact Std.ReflCmp.compare_self
  · rw [Std.OrientedCmp.gt_of_lt (compareAmong_int_of_lt hgt), Std.compare_eq_gt.mpr hgt]

theorem measure_eq_of_compareBy_eq {ofInt : Int64 → Int} (h : compareBy ofInt a b = .eq) :
    measure ofInt a = measure ofInt b := by
  rw [compareBy, compareLex_eq_eq, compareLex_eq_eq] at h
  exact Std.compare_eq_iff_eq.mp h.2.1

theorem integer_eq (hS : ¬ Blurred S) (ha : Among S a) (hb : Among S b)
    (hkind : a.kindRank = b.kindRank) (hints : ∀ m n, a = int m → b ≠ int n)
    (heq : measure rounded a = measure rounded b) : integer S a = integer S b := by
  cases a with
  | bool p =>
    cases b with
    | bool q => rfl
    | _ => cases hkind
  | string s =>
    cases b with
    | string t => rfl
    | _ => cases hkind
  | int m =>
    cases b with
    | int n => exact absurd rfl (hints m n rfl)
    | float x => exact (integer_float hS (hb.mem (by simp)) (ha.mem (by simp)) heq).symm
    | _ => cases hkind
  | float x =>
    cases b with
    | int n => exact integer_float hS (ha.mem (by simp)) (hb.mem (by simp)) heq.symm
    | float y =>
      have hxy : equalInteger? x = equalInteger? y := by
        funext a
        cases a with
        | int n => simp only [equalInteger?, show x.ordinal = y.ordinal from heq]
        | _ => rfl
      simp only [integer, hxy]
    | _ => cases hkind

/-- Two scalars that are not both integers compare as the numbers do to which they are rounded. -/
theorem compare_eq_of_not_ints (hints : ∀ m n, a = int m → b ≠ int n) :
    a.compare b = if a.kindRank = b.kindRank then some (compareBy rounded a b) else none := by
  have hpair : Measures rounded [a, b] := by
    refine ⟨fun m n hm hn => ?_, fun _ _ _ _ => rfl⟩
    have hmn : m = n := by
      simp only [List.mem_cons, List.not_mem_nil, or_false] at hm hn
      rcases hm with rfl | rfl
      · rcases hn with hn | rfl
        · exact (int.inj hn).symm
        · exact absurd rfl (hints m n rfl)
      · rcases hn with rfl | hn
        · exact absurd rfl (hints n m rfl)
        · exact (int.inj hn).symm
    rw [hmn, Std.compare_self, Std.compare_self]
  exact compare_eq_compareBy hpair (.inl (by simp)) (.inl (by simp))

theorem compare_eq_compareAmong (hS : ¬ Blurred S) (ha : Among S a) (hb : Among S b) :
    a.compare b = if a.kindRank = b.kindRank then some (compareAmong S a b) else none := by
  by_cases hints : ∃ m n, a = int m ∧ b = int n
  · obtain ⟨m, n, rfl, rfl⟩ := hints
    rw [compareAmong_int]
    rfl
  · have hints : ∀ m n, a = int m → b ≠ int n := fun m n hm hn => hints ⟨m, n, hm, hn⟩
    rw [compare_eq_of_not_ints hints]
    split_ifs with hkind
    · rw [compareAmong_eq]
      cases hby : compareBy rounded a b with
      | eq =>
        rw [integer_eq hS ha hb hkind hints (measure_eq_of_compareBy_eq hby), Std.compare_self]
        rfl
      | _ => rfl
    · rfl

/-- **Scalars are in one order just if none is blurred.** -/
theorem ordered_iff : Ordered S ↔ ¬ Blurred S := by
  constructor
  · rintro ⟨cmp, hcmp, horder⟩ ⟨x, m, n, hx, hm, hn, hne, hmx, hnx⟩
    have heq : ∀ k, int k ∈ S → (int k).compare (float x) = some .eq → cmp (int k) (float x) = .eq := by
      intro k hk hkx
      rw [(horder _ _ (.inl hk) (.inl hx)).1] at hkx
      exact Option.some.inj hkx
    have hmn : cmp (int m) (int n) = .eq :=
      Std.TransCmp.eq_trans (heq m hm hmx) (Std.OrientedCmp.eq_symm (heq n hn hnx))
    have hcompare : (int m).compare (int n) = some .eq := by
      rw [(horder _ _ (.inl hm) (.inl hn)).1, hmn]
      rfl
    exact hne (Std.compare_eq_iff_eq.mp (Option.some.inj hcompare))
  · intro hS
    refine ⟨compareAmong S, inferInstance, fun a b ha hb => ?_⟩
    have hcompare := compare_eq_compareAmong hS ha hb
    refine ⟨hcompare, sortCompare_eq hcompare fun hkind => ?_⟩
    rw [compareAmong_eq, compareBy_of_kindRank_ne hkind]
    exact then_of_kindRank_ne hkind _

end EntityQuery.Scalar
