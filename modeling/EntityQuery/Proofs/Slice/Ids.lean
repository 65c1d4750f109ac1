import EntityQuery.Proofs.Number.Rounding
import EntityQuery.Proofs.Scalar.Order
import EntityQuery.Proofs.Slice.Narrow

/-! # Ranges of ids

An id is a natural number, and the bounds of a slice over ids are integers and doubles, so it is a
matter of exact numbers whether an id lies between them. Slices decide it in another way: ids up to
`2 ^ 63` are rounded before they are compared with a double, and the others are taken to lie beyond
every number.

* `Slice.Spans`: an exact number lies between the bounds of a slice.
* `Slice.judgesIds_iff`: **slices over ids are exact just if no double among their bounds stands for
  an integer beside its own value**, be it by rounding or by being beyond the integers that have a
  literal. -/

namespace EntityQuery

/-! ## Exact bounds -/

/-- The exact number that a scalar is, if it is one. -/
def Scalar.number? : Scalar → Option ℚ
  | int n => some n.toInt
  | float x => some x.value
  | bool _ | string _ => none

namespace Bound

/-- An exact number is above a lower bound. -/
def Below (b : Bound) (q : ℚ) : Prop :=
  ∃ v ∈ b.value.number?, v < q ∨ v = q ∧ b.inclusive = true

/-- An exact number is below an upper bound. -/
def Above (b : Bound) (q : ℚ) : Prop :=
  ∃ v ∈ b.value.number?, q < v ∨ q = v ∧ b.inclusive = true

end Bound

namespace Slice

/-- An exact number lies between the bounds of a slice. -/
structure Spans (s : Slice) (q : ℚ) : Prop where
  start : ∀ b ∈ s.start, b.Below q
  finish : ∀ b ∈ s.finish, b.Above q

theorem spans_iff {s : Slice} {q : ℚ} :
    s.Spans q ↔ (∀ b ∈ s.start, b.Below q) ∧ ∀ b ∈ s.finish, b.Above q :=
  ⟨fun h => ⟨h.start, h.finish⟩, fun h => ⟨h.1, h.2⟩⟩

/-- Slices whose bounds are among the listed values contain the ids that lie between the bounds. -/
def JudgesIds (S : List Scalar) : Prop :=
  ∀ s : Slice, (∀ b ∈ s.bounds, b.value ∈ S) → ∀ id : EntityId,
    s.containsId id = true ↔ s.Spans id.toNat

end Slice

/-! ## Ids that have a literal -/

section Literal

variable {id : EntityId} {v : Scalar} {b : Bound} {q : ℚ} {n : Nat} {m : Int64}

theorem Scalar.ofId?_of_lt (h : id.toNat < 2 ^ 63) :
    ofId? id = some (.int id.toInt64) ∧ id.toInt64.toInt = id.toNat := by
  have hlt : id < 0x8000000000000000 := UInt64.lt_iff_toNat_lt.mpr h
  refine ⟨by rw [ofId?, signedOfWord?, if_pos hlt, Option.map_some], ?_⟩
  have hmsb : 2 * id.toBitVec.toNat < 2 ^ 64 := by
    rw [UInt64.toNat_toBitVec]
    omega
  exact BitVec.toInt_eq_toNat_of_lt hmsb

theorem Scalar.ofId?_of_le (h : 2 ^ 63 ≤ id.toNat) : ofId? id = none := by
  have hle : ¬ id < 0x8000000000000000 := by
    rw [UInt64.lt_iff_toNat_lt]
    exact Nat.not_lt.mpr h
  rw [ofId?, signedOfWord?, if_neg hle, Option.map_none]

theorem Binary64.ordinal_ofInt64_of_eq (h : m.toInt = n) :
    (ofInt64 m).ordinal = nearestRank n 1 := by
  rw [ordinal_ofInt64, h, if_neg (Int.not_lt.mpr (Int.natCast_nonneg n)), Int.natAbs_natCast]

/-- A natural number compares with a scalar as exact numbers do, unless the scalar is a double that
stands for other integers too. -/
theorem Scalar.compare_int (hm : m.toInt = n) (hv : ∀ x, v = float x → x.IsAlone) :
    (int m).compare v = v.number?.map (Ord.compare (n : ℚ)) := by
  cases v with
  | bool _ => rfl
  | string _ => rfl
  | int k =>
    have hcast : Ord.compare (n : ℤ) k.toInt = Ord.compare (n : ℚ) (k.toInt : ℚ) := by
      rw [← cmp_eq_compare, ← cmp_eq_compare, ← (Int.cast_strictMono (R := ℚ)).cmp_map_eq,
        Int.cast_natCast]
    rw [compare, compare_toInt, hm, hcast]
    rfl
  | float x =>
    have hrounded : Ord.compare (Binary64.ofInt64 m).ordinal x.ordinal =
        Ord.compare (n : ℚ) x.value := by
      rw [Binary64.ordinal_ofInt64_of_eq hm, (hv x rfl).compare_eq]
    exact congrArg some hrounded

theorem Bound.admitsAbove_iff (h : v.compare b.value = b.value.number?.map (Ord.compare q)) :
    b.admitsAbove v = true ↔ b.Below q := by
  unfold admitsAbove Below
  rw [h]
  cases b.value.number? with
  | none => simp
  | some w =>
    rcases lt_trichotomy q w with hlt | rfl | hgt
    · simp [compare_lt_iff_lt.mpr hlt, hlt.ne', hlt.not_gt]
    · simp
    · simp [compare_gt_iff_gt.mpr hgt, hgt]

theorem Bound.admitsBelow_iff (h : v.compare b.value = b.value.number?.map (Ord.compare q)) :
    b.admitsBelow v = true ↔ b.Above q := by
  unfold admitsBelow Above
  rw [h]
  cases b.value.number? with
  | none => simp
  | some w =>
    rcases lt_trichotomy q w with hlt | rfl | hgt
    · simp [compare_lt_iff_lt.mpr hlt, hlt]
    · simp
    · simp [compare_gt_iff_gt.mpr hgt, hgt.ne', hgt.not_gt]

theorem Slice.contains_iff_spans {s : Slice}
    (h : ∀ b ∈ s.bounds, v.compare b.value = b.value.number?.map (Ord.compare q)) :
    s.contains v = true ↔ s.Spans q := by
  have hstart : ∀ b ∈ s.start, b.admitsAbove v = true ↔ b.Below q := fun b hb =>
    Bound.admitsAbove_iff (h b (by simp [bounds, Option.mem_def.mp hb]))
  have hfinish : ∀ b ∈ s.finish, b.admitsBelow v = true ↔ b.Above q := fun b hb =>
    Bound.admitsBelow_iff (h b (by simp [bounds, Option.mem_def.mp hb]))
  rw [contains, Bool.and_eq_true, Option.all_eq_true, Option.all_eq_true, spans_iff]
  exact and_congr (forall₂_congr hstart) (forall₂_congr hfinish)

end Literal

/-! ## Ids beyond the literals -/

section Beyond

variable {id : EntityId} {v : Scalar} {b : Bound} (hid : 2 ^ 63 ≤ id.toNat)
include hid

theorem Scalar.number_lt (hv : ∀ x, v = float x → x.IsAlone) : ∀ q ∈ v.number?, q < id.toNat := by
  have hbeyond : (2 ^ 63 : ℚ) ≤ id.toNat := by exact_mod_cast hid
  intro q hq
  refine lt_of_lt_of_le ?_ hbeyond
  cases v with
  | bool _ => cases hq
  | string _ => cases hq
  | int n =>
    obtain rfl := Option.some.inj hq
    exact_mod_cast n.toInt_lt
  | float x =>
    obtain rfl := Option.some.inj hq
    rcases hv x rfl with hlt | ⟨hlt, -⟩
    · linarith
    · linarith

theorem Bound.below_iff (hb : ∀ x, b.value = .float x → x.IsAlone) :
    b.Below id.toNat ↔ b.value.isNumber = true := by
  have hlt := Scalar.number_lt hid hb
  unfold Below
  cases hv : b.value with
  | bool _ => simp [Scalar.number?, Scalar.isNumber]
  | string _ => simp [Scalar.number?, Scalar.isNumber]
  | int n =>
    simp only [Scalar.isNumber, iff_true]
    exact ⟨_, rfl, .inl (hlt _ (by rw [hv]; rfl))⟩
  | float x =>
    simp only [Scalar.isNumber, iff_true]
    exact ⟨_, rfl, .inl (hlt _ (by rw [hv]; rfl))⟩

theorem Bound.not_above (hb : ∀ x, b.value = .float x → x.IsAlone) : ¬ b.Above id.toNat := by
  rintro ⟨q, hq, hle⟩
  have hlt := Scalar.number_lt hid hb q hq
  rcases hle with hgt | ⟨heq, -⟩
  · exact hlt.not_gt hgt
  · exact hlt.ne' heq

theorem Slice.containsId_of_le {s : Slice}
    (hs : ∀ b ∈ s.bounds, ∀ x, b.value = .float x → x.IsAlone) :
    s.containsId id = true ↔ s.Spans id.toNat := by
  have hstart : ∀ b ∈ s.start, b.value.isNumber = true ↔ b.Below id.toNat := fun b hb =>
    (Bound.below_iff hid (hs b (by simp [bounds, Option.mem_def.mp hb]))).symm
  have hfinish : ∀ b ∈ s.finish, ¬ b.Above id.toNat := fun b hb =>
    Bound.not_above hid (hs b (by simp [bounds, Option.mem_def.mp hb]))
  have hnone : s.finish.isNone = true ↔ ∀ b ∈ s.finish, b.Above id.toNat := by
    cases hsome : s.finish with
    | none => simp
    | some b => simp [hfinish b hsome]
  rw [containsId, Scalar.ofId?_of_le hid]
  simp only [Bool.and_eq_true]
  rw [Option.all_eq_true, spans_iff]
  exact and_congr (forall₂_congr hstart) hnone

end Beyond

/-! ## All ids -/

namespace Slice

variable {S : List Scalar} {s : Slice} {id : EntityId} {x : Binary64}

/-- **Ids are judged exactly** by a slice whose doubles are alone. -/
theorem containsId_iff_spans (hs : ∀ b ∈ s.bounds, ∀ x, b.value = .float x → x.IsAlone) :
    s.containsId id = true ↔ s.Spans id.toNat := by
  rcases Nat.lt_or_ge id.toNat (2 ^ 63) with hlt | hle
  · obtain ⟨hsome, htoInt⟩ := Scalar.ofId?_of_lt hlt
    rw [containsId, hsome]
    exact contains_iff_spans fun b hb => Scalar.compare_int htoInt (hs b hb)
  · exact containsId_of_le hle hs

/-- The slice of the ids above a double. -/
def above (x : Binary64) : Slice := ⟨idProperty, some ⟨.float x, false⟩, none, false⟩

theorem spans_above {q : ℚ} : (above x).Spans q ↔ x.value < q := by
  simp [spans_iff, above, Bound.Below, Scalar.number?]

theorem containsId_above_of_rounded {n : Nat} (hid : id.toNat = n) (hn : n < 2 ^ 63)
    (hrank : (Binary64.nearestRank n 1 : ℤ) = x.ordinal) : (above x).containsId id = false := by
  obtain ⟨hsome, htoInt⟩ := Scalar.ofId?_of_lt (hid ▸ hn)
  have hequal : (Scalar.int id.toInt64).compare (.float x) = some .eq := by
    have hrounded : Ord.compare (Binary64.ofInt64 id.toInt64).ordinal x.ordinal = .eq := by
      rw [Binary64.ordinal_ofInt64_of_eq htoInt, hid, hrank, Std.compare_self]
    exact congrArg some hrounded
  rw [containsId, hsome]
  simp [contains, above, Bound.admitsAbove, hequal]

/-- A double that is not alone misjudges an id. -/
theorem exists_misjudged (hx : ¬ x.IsAlone) :
    ∃ id : EntityId, ¬ ((above x).containsId id = true ↔ (above x).Spans id.toNat) := by
  rcases lt_or_ge x.value (2 ^ 63) with hlt | hle
  · obtain ⟨n, hvalue, hn, hrank⟩ := Binary64.exists_rounded hx hlt
    have hid : (UInt64.ofNat n).toNat = n := UInt64.toNat_ofNat_of_lt' (Nat.lt_trans hn (by decide))
    refine ⟨.ofNat n, ?_⟩
    rw [containsId_above_of_rounded hid hn hrank, spans_above, hid]
    simp [hvalue]
  · have hid : (0x8000000000000000 : UInt64).toNat = 2 ^ 63 := rfl
    have hcontains : (above x).containsId 0x8000000000000000 = true := rfl
    refine ⟨0x8000000000000000, ?_⟩
    rw [hcontains, spans_above, hid, eq_self, true_iff, not_lt]
    exact_mod_cast hle

/-- **Slices over ids are exact just if no double among their bounds stands for an integer beside
its own value.** -/
theorem judgesIds_iff : JudgesIds S ↔ ∀ x, .float x ∈ S → x.IsAlone := by
  constructor
  · intro h x hx
    by_contra halone
    obtain ⟨id, hid⟩ := exists_misjudged halone
    exact hid (h (above x) (by simp [above, bounds, hx]) id)
  · intro h s hs id
    refine containsId_iff_spans fun b hb x hbx => h x ?_
    rw [← hbx]
    exact hs b hb

/-- The ids `2 ^ 53 + 1` and `2 ^ 63` lie between the doubles `2 ^ 53` and `10 ^ 19`, but the first
is rounded to the lower bound, and the second is taken to lie beyond the upper one. -/
theorem containsId_misjudged :
    let s : Slice := ⟨idProperty, some ⟨.float (.ofInt64 9007199254740992), false⟩,
      some ⟨.float (.ofUInt64 10000000000000000000), false⟩, false⟩
    (s.Spans (9007199254740993 : UInt64).toNat ∧ s.containsId 9007199254740993 = false) ∧
      s.Spans (9223372036854775808 : UInt64).toNat ∧ s.containsId 9223372036854775808 = false := by
  intro s
  have hlow : (Binary64.ofInt64 9007199254740992).value = (9007199254740992 : Nat) :=
    Binary64.value_eq_of_units (by decide +kernel) (by decide +kernel)
  have hhigh : (Binary64.ofUInt64 10000000000000000000).value = (10000000000000000000 : Nat) :=
    Binary64.value_eq_of_units (by decide +kernel) (by decide +kernel)
  have hspans : ∀ q : ℚ, s.Spans q ↔
      (9007199254740992 : Nat) < q ∧ q < (10000000000000000000 : Nat) := by
    intro q
    rw [← hlow, ← hhigh]
    simp [spans_iff, s, Bound.Below, Bound.Above, Scalar.number?]
  refine ⟨⟨(hspans _).mpr ?_, by decide +kernel⟩, (hspans _).mpr ?_, by decide +kernel⟩
  · exact_mod_cast (by decide : 9007199254740992 < (9007199254740993 : UInt64).toNat ∧
      (9007199254740993 : UInt64).toNat < 10000000000000000000)
  · exact_mod_cast (by decide : 9007199254740992 < (9223372036854775808 : UInt64).toNat ∧
      (9223372036854775808 : UInt64).toNat < 10000000000000000000)

end Slice

end EntityQuery
