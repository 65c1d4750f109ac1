import EntityQuery.Proofs.Plan.Meaning

/-! # The parts of compiled filters

A compiled filter is made of the slices and areas that its predicates are compiled to. Groups are
merged on the way, which narrows slices over one property, and a complement brings in the scan of all
ids. So what the slices and areas of single predicates have in common, and narrowing keeps, holds of
all slices and areas of the selector.

* `Selector.Parts`: a property of all slices and one of all areas.
* `Predicate.Gives`: such properties of what a predicate is compiled to.
* `Selector.parts_ofFilterUnder`: **what holds of the parts of a compiled filter**. -/

namespace EntityQuery

namespace SliceGroup

variable {P : Slice → Prop} (hnarrow : ∀ s t, P s → P t → s.property = t.property → P (s.narrow t))
  {g earlier later : SliceGroup}
include hnarrow

theorem forall_absorb (hg : ∀ s ∈ g.slices, P s) (hlater : ∀ s ∈ later.slices, P s) :
    ∀ s ∈ (g.absorb later).slices, P s := by
  rw [slices_absorb]
  exact forall_foldl_upsert hg hlater hnarrow

theorem forall_absorbEarlier (hg : ∀ s ∈ g.slices, P s) (hearlier : ∀ s ∈ earlier.slices, P s) :
    ∀ s ∈ (g.absorbEarlier earlier).slices, P s := by
  rw [slices_absorbEarlier]
  exact forall_foldl_upsert hg hearlier fun s t hs ht hst => hnarrow t s ht hs hst.symm

end SliceGroup

/-- The slice or the area that a predicate is compiled to has a property. -/
def Predicate.Gives (P : Slice → Prop) (Q : GeoArea → Prop) : Predicate → Prop
  | .compare property comparison value => P (.ofComparison property comparison value)
  | .contains property text => P (.ofWord property text)
  | .within area => Q area

namespace Selector

variable {catalog : Catalog} {negated : Bool} {selector left right : Selector}
  {P : Slice → Prop} {Q : GeoArea → Prop}

/-- All slices of a selector have a property, and all its areas; complements are taken within all
ids. -/
def Parts (P : Slice → Prop) (Q : GeoArea → Prop) : Selector → Prop
  | and left right | or left right => left.Parts P Q ∧ right.Parts P Q
  | not subtract keep => subtract.Parts P Q ∧ keep = .fullScan
  | slices group => ∀ s ∈ group.slices, P s
  | within area => Q area

theorem parts_single {s : Slice} (hs : P s) : (slices (.single s)).Parts P Q :=
  fun _ ht => List.mem_singleton.mp ht ▸ hs

theorem Parts.conjoin (hnarrow : ∀ s t, P s → P t → s.property = t.property → P (s.narrow t))
    (hleft : left.Parts P Q) (hright : right.Parts P Q) (rightIsLeaf : Bool) :
    (Selector.conjoin left right rightIsLeaf).Parts P Q := by
  unfold Selector.conjoin
  split
  · split_ifs
    · exact SliceGroup.forall_absorb hnarrow hleft hright
    · exact ⟨hleft, hright⟩
    · exact SliceGroup.forall_absorbEarlier hnarrow hright hleft
    · exact ⟨hleft, hright⟩
  · exact ⟨hleft, hright⟩

theorem parts_of_slice? {predicate : Predicate} {s : Slice} (h : predicate.slice? = some s)
    (hgives : predicate.Gives P Q) : (slices (.single s)).Parts P Q := by
  cases predicate with
  | compare property comparison value =>
    obtain rfl := Option.some.inj h
    exact parts_single hgives
  | contains property text =>
    obtain rfl := Option.some.inj h
    exact parts_single hgives
  | within area => cases h

theorem Compiled.parts {filter : Filter} (h : Compiled negated filter selector)
    (hnarrow : ∀ s t, P s → P t → s.property = t.property → P (s.narrow t))
    (hgives : ∀ predicate ∈ filter.predicates, predicate.Gives P Q) : selector.Parts P Q := by
  induction h with
  | slice h => exact parts_of_slice? h (hgives _ List.mem_cons_self)
  | area => exact hgives _ List.mem_cons_self
  | not _ ih => exact ⟨ih hgives, rfl⟩
  | or _ _ ihl ihr =>
    obtain ⟨hleft, hright⟩ := List.forall_mem_append.mp hgives
    exact ⟨ihl hleft, ihr hright⟩
  | and _ _ ihl ihr =>
    obtain ⟨hleft, hright⟩ := List.forall_mem_append.mp hgives
    exact (ihl hleft).conjoin hnarrow (ihr hright) _

/-- **What holds of the slices and areas of all predicates of a filter holds of the parts of the
selector that the filter is compiled to**, if narrowing keeps it. -/
theorem parts_ofFilterUnder {filter : Filter}
    (h : ofFilterUnder catalog negated filter = .ok selector)
    (hnarrow : ∀ s t, P s → P t → s.property = t.property → P (s.narrow t))
    (hgives : ∀ predicate ∈ filter.predicates, predicate.Gives P Q) : selector.Parts P Q :=
  (compiled_of_ofFilterUnder h).parts hnarrow hgives

end Selector

end EntityQuery
