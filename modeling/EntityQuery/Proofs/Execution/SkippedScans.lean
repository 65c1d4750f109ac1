import EntityQuery.Proofs.Execution.CrossedBounds
import EntityQuery.Proofs.Scalar.Blurred

/-! # Scans that may be left out

A slice whose bounds cross is not scanned, on the ground that no value is between them. This is so
just if no double is equal to two integers among the values that are compared, be they bounds or
values of entities: between two integers that cross, such a double is still in range.

* `Slice.SkipsSafely`: what leaving scans out takes for granted.
* `Slice.skipsSafely_iff`: **scans may be left out just if no value is blurred**. -/

namespace EntityQuery.Slice

/-- Among listed values, none is between bounds that cross. So the stream of a slice, scanned or
not, brings the entities that the slice selects when it is asked value by value. -/
structure SkipsSafely (S : List Scalar) : Prop where
  apart : ∀ s : Slice, (∀ b ∈ s.bounds, b.value ∈ S) → s.isEmptyRange = true →
    ∀ v ∈ S, s.contains v = false
  brings : ∀ (x : Executor) (d : Direction) (after : Option EntityId) (s : Slice),
    x.store.unavailable = false → 0 < x.limits.scanPageSize → (∀ b ∈ s.bounds, b.value ∈ S) →
      (∀ id doc, x.store.Holds id doc → propertyValues id doc s.property ⊆ S) →
        ∃ stream, x.streamOfSlice d after s = .ok stream ∧
          stream.Brings d (x.store.selectAfter d after s.selects)

variable {S : List Scalar}

theorem skipsSafely_of_ordered (hS : Scalar.Ordered S) : SkipsSafely S where
  apart _ hbounds hempty _ hv :=
    contains_of_isEmptyRange hS (fun b hb => .inl (hbounds b hb)) (.inl hv) hempty
  brings x d after s havail hsize hbounds hvalues := by
    have hfinds : x.store.selectAfter d after s.finds = x.store.selectAfter d after s.selects :=
      EntityStore.selectAfter_congr_of_holds fun id doc hheld =>
        finds_eq_selects_of_ordered hS (fun b hb => .inl (hbounds b hb))
          fun v hv => .inl (hvalues id doc hheld hv)
    rw [← hfinds]
    exact Executor.brings_streamOfSlice havail hsize s

/-- The slice from one integer up to another. -/
def between (m n : Int64) : Slice :=
  ⟨idProperty, some ⟨.int m, true⟩, some ⟨.int n, true⟩, false⟩

variable {x : Binary64} {m n : Int64}

theorem isEmptyRange_between (h : Ord.compare m n = .gt) : (between m n).isEmptyRange = true := by
  simp [between, isEmptyRange, Scalar.compare, h]

/-- A double that is equal to two integers is in range between them, even where they cross. -/
theorem contains_between (hmx : (Scalar.int m).compare (.float x) = some .eq)
    (hnx : (Scalar.int n).compare (.float x) = some .eq) :
    (between m n).contains (.float x) = true := by
  simp [between, contains, Bound.admitsAbove, Bound.admitsBelow, Scalar.compare_float_int hmx,
    Scalar.compare_float_int hnx]

/-- **Scans may be left out just if no value is blurred.** -/
theorem skipsSafely_iff : SkipsSafely S ↔ ¬ Scalar.Blurred S := by
  constructor
  · intro h hS
    obtain ⟨x, m, n, hx, hm, hn, hgt, hmx, hnx⟩ := hS.exists_gt
    have hbounds : ∀ b ∈ (between m n).bounds, b.value ∈ S := by
      simp [between, bounds, hm, hn]
    have hout := h.apart (between m n) hbounds (isEmptyRange_between hgt) (.float x) hx
    rw [contains_between hmx hnx] at hout
    cases hout
  · exact fun hS => skipsSafely_of_ordered (Scalar.ordered_iff.mpr hS)

/-- The bounds `2 ^ 53 + 1` and `2 ^ 53` cross, but the double `2 ^ 53` is between them. -/
theorem contains_crossed :
    let crossed : Slice :=
      ⟨"x", some ⟨.int 9007199254740993, true⟩, some ⟨.int 9007199254740992, true⟩, false⟩
    crossed.isEmptyRange = true ∧ crossed.contains (.float (.ofInt64 9007199254740992)) = true := by
  decide +kernel

end EntityQuery.Slice
