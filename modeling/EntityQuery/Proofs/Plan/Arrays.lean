import EntityQuery.Proofs.Paging.Token
import EntityQuery.Proofs.Plan.Keywords
import EntityQuery.Proofs.Scalar.Blurred
import EntityQuery.Proofs.Slice.Lookup

/-! # Comparisons of arrays

A property that holds an array has the scalars in it as values, and each of two comparisons under
`and` may be met by a value of its own. But two comparisons of one property are compiled to the
common part of their ranges, which asks for one value in both. With a single value that is what the
filter means; with arrays it is so just if one of the ranges lies within the other. Words, of which
a text has many as well, are sought apart.

* `Filter.AsMeant`: what a filter is compiled to selects an entity just if the filter holds of it.
* `Filter.asMeant_contains`: so it is with two words of one property.
* `Filter.asMeant_arrays_iff`: **what two comparisons of one property select, and when that is as
  meant for arrays**. -/

namespace EntityQuery

variable {catalog : Catalog} {p x y : String} {c d : Comparison} {a b v : Scalar} {s t : Slice}
  {id : EntityId} {doc : Json}

/-- A filter is compiled to a selector that selects an entity just if the filter holds of it. -/
def Filter.AsMeant (filter : Filter) (catalog : Catalog) (id : EntityId) (doc : Json) : Prop :=
  ∃ selector, Selector.ofFilter catalog filter = .ok selector ∧
    selector.selects id doc = filter.holds catalog id doc

/-! ## Words -/

theorem ofFilter_contains (hp : catalog.isFullText p = true) :
    Selector.ofFilter catalog (.leaf (.contains p x)) = .ok (.slices (.single (.ofWord p x))) :=
  if_pos hp

/-- **Two words of one property are sought apart**, so a text or an array may have them anywhere. -/
theorem Filter.asMeant_contains (hp : catalog.isFullText p = true) :
    (Filter.and (.leaf (.contains p x)) (.leaf (.contains p y))).AsMeant catalog id doc := by
  have hapart : (SliceGroup.single (.ofWord p x)).canAbsorb (.single (.ofWord p y)) = false := by
    rw [Bool.eq_false_iff, ne_eq, SliceGroup.canAbsorb_iff]
    intro hwords
    have hnone := hwords (p ++ keywordsSuffix)
    simp [SliceGroup.properties, SliceGroup.single, Slice.ofWord, Slice.property_ofPattern,
      keywordsBase?_append] at hnone
  have hx := ofFilter_contains (x := x) hp
  have hy := ofFilter_contains (x := y) hp
  refine ⟨_, Selector.ofFilterUnder_and hx hy, ?_⟩
  rw [holds, holds, holds, hx, hy]
  simp [Selector.conjoin, isRangeLeaf, hapart, Selector.selects]

/-! ## Entities with given values -/

theorem Scalar.exists_ofJson? (v : Scalar) : ∃ item, ofJson? item = some v := by
  cases v with
  | bool b => exact ⟨.bool b, rfl⟩
  | float x => exact ⟨.number (.real x), rfl⟩
  | string s => exact ⟨.string s, rfl⟩
  | int n =>
    by_cases hn : n < 0
    · exact ⟨.number (.negative n), rfl⟩
    · exact ⟨.number (.natural n.toUInt64), by rw [ofJson?, ofUInt64, signedOfWord?_toUInt64 hn]⟩

section Ordinary

variable (hid : p ≠ idProperty) (hwords : keywordsBase? p = none)
include hid hwords

theorem propertyValues_of_ordinary :
    propertyValues id doc p = (doc.fieldAt? p).elim [] Json.scalars := by
  rw [propertyValues, if_neg hid, hwords]

theorem exists_array (values : List Scalar) : ∃ (doc : Json) (items : List Json),
    doc.fieldAt? p = some (.array items) ∧ items.length = values.length ∧
      ∀ id, propertyValues id doc p = values := by
  choose item hitem using Scalar.exists_ofJson?
  obtain ⟨doc, hdoc⟩ := Json.exists_fieldAt? (.array (values.map item)) p
  refine ⟨doc, values.map item, hdoc, List.length_map _, fun id => ?_⟩
  rw [propertyValues_of_ordinary hid hwords, hdoc, Option.elim_some, Json.scalars,
    List.filterMap_map]
  simp [hitem]

end Ordinary

/-! ## Comparisons -/

theorem Slice.fits_ofComparison {S : List Scalar} (ha : a ∈ S) :
    (ofComparison p c a).Fits S a.kindRank := by
  have hwithin : (ofComparison p c a).Within fun _ => [a] :=
    Selector.within_ofComparison (List.mem_singleton_self a)
  intro b hb
  rcases hwithin.2 b hb with hb | ⟨x, y, hx, hy⟩
  · rw [List.mem_singleton.mp hb]
    exact ⟨.inl ha, rfl⟩
  · rw [hx, ← List.mem_singleton.mp hy]
    exact ⟨.inr ⟨x, rfl⟩, rfl⟩

theorem SliceGroup.selects_single (hid : s.property ≠ idProperty) :
    (single s).selects id doc = (propertyValues id doc s.property).any s.contains := by
  simp [selects, single, Slice.selects, hid]

section Compare

variable (hp : catalog.isIndexed p = true)
include hp

theorem ofFilter_compare : Selector.ofFilter catalog (.leaf (.compare p c a)) =
    .ok (.slices (.single (.ofComparison p c a))) := if_pos hp

/-- **Two comparisons of one property are compiled to the common part of their slices.** -/
theorem ofFilter_and_compare (hwords : keywordsBase? p = none) :
    Selector.ofFilter catalog (.and (.leaf (.compare p c a)) (.leaf (.compare p d b))) =
      .ok (.slices (.single ((Slice.ofComparison p c a).narrow (.ofComparison p d b)))) := by
  have hmerge : (SliceGroup.single (.ofComparison p c a)).canAbsorb
      (.single (.ofComparison p d b)) = true := by
    rw [SliceGroup.canAbsorb_iff]
    simp [SliceGroup.ShareNoWords, SliceGroup.properties, SliceGroup.single,
      Slice.property_ofComparison, hwords]
  rw [Selector.ofFilter, Selector.ofFilterUnder_and (ofFilter_compare hp) (ofFilter_compare hp),
    Selector.conjoin]
  simp only [Filter.isRangeLeaf, if_true, hmerge]
  simp [SliceGroup.absorb, SliceGroup.push, SliceGroup.single, SliceGroup.upsert,
    Slice.property_ofComparison]

variable (hid : p ≠ idProperty)
include hid

theorem holds_compare : (Filter.leaf (.compare p c a)).holds catalog id doc =
    (propertyValues id doc p).any (Slice.ofComparison p c a).contains := by
  have hne : (Slice.ofComparison p c a).property ≠ idProperty := by
    rwa [Slice.property_ofComparison]
  rw [Filter.holds, ofFilter_compare hp]
  simp only [Selector.selects, SliceGroup.selects_single hne, Slice.property_ofComparison]

/-- Two comparisons of one property are as meant for an entity just if some value is in the common
part of their ranges whenever each range has a value. -/
theorem asMeant_compare_iff (hwords : keywordsBase? p = none) :
    (Filter.and (.leaf (.compare p c a)) (.leaf (.compare p d b))).AsMeant catalog id doc ↔
      (propertyValues id doc p).any
          ((Slice.ofComparison p c a).narrow (.ofComparison p d b)).contains =
        ((propertyValues id doc p).any (Slice.ofComparison p c a).contains &&
          (propertyValues id doc p).any (Slice.ofComparison p d b).contains) := by
  have hproperty : ((Slice.ofComparison p c a).narrow (.ofComparison p d b)).property = p :=
    Slice.property_ofComparison p c a
  have hne : ((Slice.ofComparison p c a).narrow (.ofComparison p d b)).property ≠ idProperty := by
    rwa [hproperty]
  unfold Filter.AsMeant
  rw [ofFilter_and_compare hp hwords, Filter.holds, holds_compare hp hid, holds_compare hp hid]
  simp only [Except.ok.injEq, exists_eq_left', Selector.selects,
    SliceGroup.selects_single hne, hproperty]

end Compare

/-- **What two comparisons of one property select, and when it is what they mean for arrays.** They
select the entities that have a value in both ranges. That is as meant for all arrays of at least
two just if it is so for single values and one of the ranges lies within the other. -/
theorem Filter.asMeant_arrays_iff (hp : catalog.isIndexed p = true) (hid : p ≠ idProperty)
    (hwords : keywordsBase? p = none) (hcomparable : (a.compare b).isSome = true) :
    let filter := Filter.and (.leaf (.compare p c a)) (.leaf (.compare p d b))
    let s := Slice.ofComparison p c a
    let t := Slice.ofComparison p d b
    (∀ id doc, ¬ Scalar.Blurred ([a, b] ++ propertyValues id doc p) →
      ∃ selector, Selector.ofFilter catalog filter = .ok selector ∧
        (selector.selects id doc = true ↔
          ∃ v ∈ propertyValues id doc p, s.contains v = true ∧ t.contains v = true)) ∧
    ((∀ id doc items, doc.fieldAt? p = some (.array items) → 2 ≤ items.length →
        filter.AsMeant catalog id doc) ↔
      (∀ id doc v, propertyValues id doc p = [v] → filter.AsMeant catalog id doc) ∧
        ((∀ v, s.contains v = true → t.contains v = true) ∨
          ∀ v, t.contains v = true → s.contains v = true)) := by
  intro filter s t
  have hmeant : ∀ id doc, filter.AsMeant catalog id doc ↔
      (propertyValues id doc p).any (s.narrow t).contains =
        ((propertyValues id doc p).any s.contains && (propertyValues id doc p).any t.contains) :=
    fun id doc => asMeant_compare_iff hp hid hwords
  refine ⟨fun id doc hblurred => ⟨_, ofFilter_and_compare hp hwords, ?_⟩, fun harrays => ?_, ?_⟩
  · have hproperty : (s.narrow t).property = p := Slice.property_ofComparison p c a
    have hS := Scalar.ordered_iff.mpr hblurred
    have hs : s.Fits ([a, b] ++ propertyValues id doc p) a.kindRank :=
      Slice.fits_ofComparison (by simp)
    have ht : t.Fits ([a, b] ++ propertyValues id doc p) a.kindRank := by
      rw [Slice.kindRank_eq_of_compare hcomparable]
      exact Slice.fits_ofComparison (by simp)
    rw [Selector.selects, SliceGroup.selects_single (hproperty.symm ▸ hid), hproperty,
      List.any_eq_true]
    refine exists_congr fun v => and_congr_right fun hv => ?_
    rw [Slice.contains_narrow hS hs ht (.inl (by simp [hv])), Bool.and_eq_true]
  · -- Arrays of one value twice tell about single values, those of two values about nesting.
    have hpair : ∀ v w, ((s.narrow t).contains v || (s.narrow t).contains w) =
        ((s.contains v || s.contains w) && (t.contains v || t.contains w)) := by
      intro v w
      obtain ⟨doc, items, hitems, hlength, hvalues⟩ := exists_array hid hwords [v, w]
      have hboth := (hmeant 1 doc).mp (harrays 1 doc items hitems (hlength ▸ Nat.le_refl 2))
      simpa [hvalues 1] using hboth
    have hsingle : ∀ v, (s.narrow t).contains v = (s.contains v && t.contains v) := fun v => by
      simpa using hpair v v
    refine ⟨fun id doc v hv => (hmeant id doc).mpr (by simp [hv, hsingle]), ?_⟩
    by_contra! hnested
    obtain ⟨⟨v, hsv, htv⟩, w, htw, hsw⟩ := hnested
    have hboth := hpair v w
    simp [hsingle, hsv, htv, hsw, htw] at hboth
  · rintro ⟨hsingles, hnested⟩ id doc items - -
    have hsingle : ∀ v, (s.narrow t).contains v = (s.contains v && t.contains v) := by
      intro v
      obtain ⟨doc, -, -, -, hvalues⟩ := exists_array hid hwords [v]
      simpa [hvalues 1] using (hmeant 1 doc).mp (hsingles 1 doc v (hvalues 1))
    refine (hmeant id doc).mpr ?_
    rw [Bool.eq_iff_iff]
    simp only [hsingle, List.any_eq_true, Bool.and_eq_true]
    constructor
    · rintro ⟨v, hv, hs, ht⟩
      exact ⟨⟨v, hv, hs⟩, v, hv, ht⟩
    · rintro ⟨⟨v, hv, hs⟩, w, hw, ht⟩
      rcases hnested with hnested | hnested
      · exact ⟨v, hv, hs, hnested v hs⟩
      · exact ⟨w, hw, hnested w ht, ht⟩

/-- Two ranges that overlap: an array with a value in both is selected, but not every array of which
the comparisons hold. -/
theorem Filter.asMeant_arrays_overlapping :
    let filter := Filter.and (.leaf (.compare "p" .greater (.int 5)))
      (.leaf (.compare "p" .less (.int 8)))
    let doc : Json := .object [("p", .array [.number (.natural 1), .number (.natural 6)])]
    (Catalog.everything.isIndexed "p" = true ∧ "p" ≠ idProperty ∧ keywordsBase? "p" = none ∧
        ((Scalar.int 5).compare (.int 8)).isSome = true) ∧
      (∃ selector, Selector.ofFilter .everything filter = .ok selector ∧
        selector.selects 1 doc = true) ∧
      ¬ ∀ id doc items, doc.fieldAt? "p" = some (.array items) → 2 ≤ items.length →
        filter.AsMeant .everything id doc := by
  intro filter doc
  have hid : "p" ≠ idProperty := by decide
  have hwords : keywordsBase? "p" = none := by decide +kernel
  have hcomparable : ((Scalar.int 5).compare (.int 8)).isSome = true := rfl
  obtain ⟨hselects, harrays⟩ :=
    @asMeant_arrays_iff .everything "p" .greater .less (.int 5) (.int 8) rfl hid hwords hcomparable
  refine ⟨⟨rfl, hid, hwords, hcomparable⟩, ?_, fun hall => ?_⟩
  · have hvalues : propertyValues 1 doc "p" = [.int 1, .int 6] := by decide +kernel
    have hblurred : ¬ Scalar.Blurred ([.int 5, .int 8] ++ propertyValues 1 doc "p") := by
      rintro ⟨x, m, n, hx, -⟩
      simp [hvalues] at hx
    obtain ⟨selector, hselector, hiff⟩ := hselects 1 doc hblurred
    exact ⟨selector, hselector, hiff.mpr ⟨.int 6, by simp [hvalues], by decide, by decide⟩⟩
  · rcases (harrays.mp hall).2 with hnested | hnested
    · exact absurd (hnested (.int 10) (by decide)) (by decide)
    · exact absurd (hnested (.int 1) (by decide)) (by decide)

/-- An array of which two comparisons hold, but which they do not select together. -/
theorem Filter.not_asMeant_array :
    let doc : Json := .object [("p", .array [.number (.natural 1), .number (.natural 10)])]
    let above := Filter.leaf (.compare "p" .greater (.int 5))
    let below := Filter.leaf (.compare "p" .less (.int 3))
    above.holds .everything 1 doc = true ∧ below.holds .everything 1 doc = true ∧
      ∃ selector, Selector.ofFilter .everything (.and above below) = .ok selector ∧
        selector.selects 1 doc = false :=
  ⟨by decide +kernel, by decide +kernel, _, rfl, by decide +kernel⟩

end EntityQuery
