import EntityQuery.Proofs.Plan.Shape
import EntityQuery.Proofs.Slice.Associativity
import EntityQuery.Proofs.Slice.Lookup

/-! # Parentheses around conjunctions

Two ways to put parentheses around three filters under `and` narrow the same slices in another
order, and either the one group takes in the other or the other way round. If all three are groups
that share no words, all of them are merged, and the parentheses matter only to bounds of different
kinds. Otherwise a filter is merged with its neighbour inside of the parentheses or not at all, and
then the slices of two such neighbours must mean the same narrowed and apart; where no neighbours
are merged, the parentheses matter to nothing.

* `Selector.Merges`: two selectors are groups that are merged.
* `Selector.conjoin_of_merges`: what a merged selector has over each property.
* `Selector.conjoin_assoc_iff`: three groups that are merged, and `Selector.Yields`, which tells
  when the order does not matter to them.
* `Selector.conjoin_conjoin_of_not_merges`: three selectors not all of which are merged.
* `Selector.selects_conjoin_conjoin`: any three selectors whose slices are level.
* `Selector.selects_grouped`: **parentheses around conjunctions do not change what is selected**. -/

namespace EntityQuery

/-! ## Groups -/

namespace SliceGroup

variable {g l r : SliceGroup} {id : EntityId} {doc : Json}

theorem selects_congr (hg : g.WellFormed) (hl : l.WellFormed)
    (h : ∀ property, g.get? property = l.get? property) : g.selects id doc = l.selects id doc := by
  rw [Bool.eq_iff_iff, selects_iff_get? hg.distinct, selects_iff_get? hl.distinct]
  simp only [h]

/-- A merged group selects what both groups select, if each narrowed slice selects what both slices
select. -/
theorem selects_of_get?_eq_merge (hg : g.WellFormed) (hl : l.WellFormed) (hr : r.WellFormed)
    (h : ∀ property, g.get? property =
      Option.merge Slice.narrow (l.get? property) (r.get? property))
    (hnarrow : ∀ property, ∀ s ∈ l.get? property, ∀ t ∈ r.get? property,
      (s.narrow t).selects id doc = (s.selects id doc && t.selects id doc)) :
    g.selects id doc = (l.selects id doc && r.selects id doc) := by
  rw [Bool.eq_iff_iff, Bool.and_eq_true, selects_iff_get? hg.distinct, selects_iff_get? hl.distinct,
    selects_iff_get? hr.distinct, ← forall_and]
  refine forall_congr' fun property => ?_
  rw [h]
  have hnarrow := hnarrow property
  cases hs : l.get? property with
  | none => simp
  | some s =>
    cases ht : r.get? property with
    | none => simp
    | some t => simp [hnarrow s hs t ht]

theorem mem_properties_iff_of_merge {property : String}
    (h : g.get? property = Option.merge Slice.narrow (l.get? property) (r.get? property)) :
    property ∈ g.properties ↔ property ∈ l.properties ∨ property ∈ r.properties := by
  rw [← not_iff_not, not_or, ← get?_eq_none_iff, ← get?_eq_none_iff, ← get?_eq_none_iff, h,
    Option.merge_eq_none_iff]

end SliceGroup

/-! ## Selectors -/

namespace Selector

variable {catalog : Catalog} {left right P Q R : Selector} {property : String} {s : Slice}
  {id : EntityId} {doc : Json}

/-- The slice over a property of a selector that is a group. -/
def slice? (s : Selector) (property : String) : Option Slice :=
  s.group?.bind (·.get? property)

/-- Two selectors are groups that share no words, so that they are merged under `and`. -/
def Merges (left right : Selector) : Prop :=
  ∃ l r, left = slices l ∧ right = slices r ∧ l.ShareNoWords r

theorem property_of_slice? (hs : left.slice? property = some s) : s.property = property := by
  obtain ⟨group, -, hs⟩ := Option.bind_eq_some_iff.mp hs
  exact SliceGroup.property_of_get? hs

theorem conjoin_of_not_merges (h : ¬ Merges left right) (rightIsLeaf : Bool) :
    conjoin left right rightIsLeaf = and left right := by
  unfold conjoin
  split
  · rename_i l r
    have hwords : ¬ l.ShareNoWords r := fun hwords => h ⟨l, r, rfl, rfl, hwords⟩
    have hl : ¬ l.canAbsorb r = true := fun hcan => hwords (SliceGroup.canAbsorb_iff.mp hcan)
    have hr : ¬ r.canAbsorb l = true := fun hcan => hwords (SliceGroup.canAbsorb_iff.mp hcan).symm
    rw [if_neg hl, if_neg hr, ite_self]
  · rfl

/-- **What is merged has over each property what is left of both sides**, whichever takes in the
other. -/
theorem conjoin_of_merges (hleft : left.WellFormed) (hright : right.WellFormed)
    (h : Merges left right) (rightIsLeaf : Bool) :
    ∃ g : SliceGroup, conjoin left right rightIsLeaf = slices g ∧ g.WellFormed ∧
      ∀ property, g.get? property =
        Option.merge Slice.narrow (left.slice? property) (right.slice? property) := by
  obtain ⟨l, r, rfl, rfl, hwords⟩ := h
  have hl : l.WellFormed := hleft
  have hr : r.WellFormed := hright
  have hcan : l.canAbsorb r = true := SliceGroup.canAbsorb_iff.mpr hwords
  have hcan' : r.canAbsorb l = true := SliceGroup.canAbsorb_iff.mpr hwords.symm
  cases rightIsLeaf with
  | true =>
    exact ⟨l.absorb r, by simp [conjoin, hcan], hl.absorb r,
      fun property => SliceGroup.get?_absorb hr.distinct⟩
  | false =>
    exact ⟨r.absorbEarlier l, by simp [conjoin, hcan'], hr.absorbEarlier l,
      fun property => SliceGroup.get?_absorbEarlier hl.distinct⟩

/-- A slice of a conjunction is one of either side, or that of one narrowed by that of the other. -/
theorem slice?_conjoin (hleft : left.WellFormed) (hright : right.WellFormed) {rightIsLeaf : Bool}
    (hs : (conjoin left right rightIsLeaf).slice? property = some s) :
    Option.merge Slice.narrow (left.slice? property) (right.slice? property) = some s := by
  by_cases h : Merges left right
  · obtain ⟨g, hg, -, hget⟩ := conjoin_of_merges hleft hright h rightIsLeaf
    rw [← hget]
    rwa [hg] at hs
  · rw [conjoin_of_not_merges h] at hs
    cases hs

theorem selects_conjoin_of_narrow (hleft : left.WellFormed) (hright : right.WellFormed)
    (hnarrow : ∀ property, keywordsBase? property = none → ∀ s ∈ left.slice? property,
      ∀ t ∈ right.slice? property,
        (s.narrow t).selects id doc = (s.selects id doc && t.selects id doc))
    (rightIsLeaf : Bool) : (conjoin left right rightIsLeaf).selects id doc =
      (left.selects id doc && right.selects id doc) := by
  by_cases h : Merges left right
  · obtain ⟨g, hg, hwellFormed, hget⟩ := conjoin_of_merges hleft hright h rightIsLeaf
    obtain ⟨l, r, rfl, rfl, hwords⟩ := h
    rw [hg]
    refine SliceGroup.selects_of_get?_eq_merge hwellFormed hleft hright hget
      fun property s hs t ht => hnarrow property (hwords property ?_ ?_) s hs t ht
    · rw [← SliceGroup.property_of_get? hs]
      exact List.mem_map_of_mem (SliceGroup.mem_of_get? hs)
    · rw [← SliceGroup.property_of_get? ht]
      exact List.mem_map_of_mem (SliceGroup.mem_of_get? ht)
  · rw [conjoin_of_not_merges h]
    rfl

/-! ### Three groups -/

theorem Merges.symm (h : Merges left right) : Merges right left := by
  obtain ⟨l, r, rfl, rfl, hwords⟩ := h
  exact ⟨r, l, rfl, rfl, hwords.symm⟩

/-- A merged selector can be merged with just what both sides can be merged with. -/
theorem Merges.conjoin_iff (hP : P.WellFormed) (hQ : Q.WellFormed) (hPQ : Merges P Q)
    (rightIsLeaf : Bool) :
    Merges (conjoin P Q rightIsLeaf) R ↔ Merges P R ∧ Merges Q R := by
  obtain ⟨g, hg, -, hget⟩ := conjoin_of_merges hP hQ hPQ rightIsLeaf
  obtain ⟨p, q, rfl, rfl, -⟩ := hPQ
  have hmem := fun property => SliceGroup.mem_properties_iff_of_merge (hget property)
  rw [hg]
  constructor
  · rintro ⟨g', r, hgroup, rfl, hwords⟩
    obtain rfl := slices.inj hgroup
    exact ⟨⟨p, r, rfl, rfl, fun property hp => hwords property ((hmem property).mpr (.inl hp))⟩,
      ⟨q, r, rfl, rfl, fun property hq => hwords property ((hmem property).mpr (.inr hq))⟩⟩
  · rintro ⟨⟨p', r, hp, rfl, hpr⟩, q', r', hq, hr, hqr⟩
    obtain rfl := slices.inj hp
    obtain rfl := slices.inj hq
    obtain rfl := slices.inj hr
    exact ⟨g, r, rfl, rfl, fun property hproperty hr =>
      ((hmem property).mp hproperty).elim (hpr property · hr) (hqr property · hr)⟩

/-- The bound of a selector on one side of a property. -/
def bound? (side : Slice → Option Bound) (s : Selector) (property : String) : Option Bound :=
  (s.slice? property).bind side

/-- Over each property and on either side, no double among the bounds of three selectors blurs the
integers. -/
def Unblurred (P Q R : Selector) : Prop := ∀ property, ∀ side ∈ [Slice.start, Slice.finish],
  Bound.Unblurred (P.bound? side property) (Q.bound? side property) (R.bound? side property)

/-- Over each property and on either side, the first of three bounds yields to the third whenever it
does not compare with the second. -/
def Yields (P Q R : Selector) : Prop := ∀ property,
  Bound.Yields Bound.tighterStart (P.bound? Slice.start property) (Q.bound? Slice.start property)
      (R.bound? Slice.start property) ∧
    Bound.Yields Bound.tighterFinish (P.bound? Slice.finish property)
      (Q.bound? Slice.finish property) (R.bound? Slice.finish property)

theorem slice?_conjoin_conjoin (hP : P.WellFormed) (hQ : Q.WellFormed) (hR : R.WellFormed)
    (hPQ : Merges P Q) (hPR : Merges P R) (hQR : Merges Q R) (b b' c c' : Bool) :
    ∃ g h : SliceGroup, conjoin (conjoin P Q b) R b' = slices g ∧ g.WellFormed ∧
      conjoin P (conjoin Q R c) c' = slices h ∧ h.WellFormed ∧
      ∀ property,
        g.get? property = Option.merge Slice.narrow
          (Option.merge Slice.narrow (P.slice? property) (Q.slice? property))
          (R.slice? property) ∧
        h.get? property = Option.merge Slice.narrow (P.slice? property)
          (Option.merge Slice.narrow (Q.slice? property) (R.slice? property)) := by
  have hPQR : Merges (conjoin P Q b) R := (hPQ.conjoin_iff hP hQ b).mpr ⟨hPR, hQR⟩
  have hQRP : Merges P (conjoin Q R c) :=
    ((hQR.conjoin_iff hQ hR c).mpr ⟨hPQ.symm, hPR.symm⟩).symm
  obtain ⟨g, hg, hgwell, hgget⟩ := conjoin_of_merges (wellFormed_conjoin hP hQ b) hR hPQR b'
  obtain ⟨h, hh, hhwell, hhget⟩ := conjoin_of_merges hP (wellFormed_conjoin hQ hR c) hQRP c'
  obtain ⟨l, hl, -, hlget⟩ := conjoin_of_merges hP hQ hPQ b
  obtain ⟨r, hr, -, hrget⟩ := conjoin_of_merges hQ hR hQR c
  refine ⟨g, h, hg, hgwell, hh, hhwell, fun property => ⟨?_, ?_⟩⟩
  · rw [hgget, hl, ← hlget]
    rfl
  · rw [hhget, hr, ← hrget]
    rfl

/-- **Three groups are merged to the same slices in either order just if their bounds yield**, and
then they select the same. -/
theorem conjoin_assoc_iff (hP : P.WellFormed) (hQ : Q.WellFormed) (hR : R.WellFormed)
    (hPQ : Merges P Q) (hPR : Merges P R) (hQR : Merges Q R) (hblurred : Unblurred P Q R)
    (b b' c c' : Bool) :
    ((∀ property, (conjoin (conjoin P Q b) R b').slice? property =
        (conjoin P (conjoin Q R c) c').slice? property) ↔ Yields P Q R) ∧
      (Yields P Q R → ∀ id doc, (conjoin (conjoin P Q b) R b').selects id doc =
        (conjoin P (conjoin Q R c) c').selects id doc) := by
  obtain ⟨g, h, hg, hgwell, hh, hhwell, hget⟩ :=
    slice?_conjoin_conjoin hP hQ hR hPQ hPR hQR b b' c c'
  have hiff : (∀ property, g.get? property = h.get? property) ↔ Yields P Q R := by
    refine forall_congr' fun property => ?_
    rw [(hget property).1, (hget property).2, merge_assoc_iff]
    have hstart := hblurred property Slice.start (by simp)
    have hfinish := hblurred property Slice.finish (by simp)
    unfold bound? at hstart hfinish ⊢
    cases hp : P.slice? property with
    | none => simp [Bound.Yields]
    | some s =>
      cases hq : Q.slice? property with
      | none => simp [Bound.Yields]
      | some t =>
        cases hr : R.slice? property with
        | none => simp [Bound.Yields]
        | some u =>
          rw [hp, hq, hr] at hstart hfinish
          simpa using Slice.narrow_assoc_iff hstart hfinish
  rw [hg, hh]
  exact ⟨hiff, fun hyields id doc => SliceGroup.selects_congr hgwell hhwell (hiff.mpr hyields)⟩

/-! ### Any three selectors -/

/-- The slices over a property of selectors that are groups. -/
def slicesOver (property : String) (selectors : List Selector) : List Slice :=
  selectors.filterMap (·.slice? property)

/-- Over each property that no words are in, the slices of some selectors are level for an entity,
if there are two of them. -/
def LevelFor (selectors : List Selector) (id : EntityId) (doc : Json) : Prop :=
  ∀ property, keywordsBase? property = none → 2 ≤ (slicesOver property selectors).length →
    Slice.Level (slicesOver property selectors) (propertyValues id doc property)

theorem two_le_length_slicesOver : 2 ≤ (slicesOver property [P, Q, R]).length ↔
    (P.slice? property).isSome = true ∧ (Q.slice? property).isSome = true ∨
      (P.slice? property).isSome = true ∧ (R.slice? property).isSome = true ∨
      (Q.slice? property).isSome = true ∧ (R.slice? property).isSome = true := by
  cases hP : P.slice? property <;> cases hQ : Q.slice? property <;>
    cases hR : R.slice? property <;> simp [slicesOver, hP, hQ, hR]

theorem isSome_slice?_conjoin (hleft : left.WellFormed) (hright : right.WellFormed)
    {rightIsLeaf : Bool}
    (h : ((conjoin left right rightIsLeaf).slice? property).isSome = true) :
    (left.slice? property).isSome = true ∨ (right.slice? property).isSome = true := by
  obtain ⟨s, hs⟩ := Option.isSome_iff_exists.mp h
  have hmerge := slice?_conjoin hleft hright hs
  cases hl : left.slice? property with
  | some t => exact .inl rfl
  | none =>
    rw [hl, Option.merge_none_left] at hmerge
    exact .inr (Option.isSome_of_mem hmerge)

theorem spannedBy_slice? {selectors : List Selector} (hleft : left ∈ selectors) :
    ∀ property, ∀ s ∈ left.slice? property, s.SpannedBy (slicesOver property selectors) :=
  fun _ _ hs => Slice.spannedBy_of_mem (List.mem_filterMap.mpr ⟨left, hleft, hs⟩)

theorem spannedBy_slice?_conjoin {slices : String → List Slice} (hleft : left.WellFormed)
    (hright : right.WellFormed)
    (hl : ∀ property, ∀ s ∈ left.slice? property, s.SpannedBy (slices property))
    (hr : ∀ property, ∀ s ∈ right.slice? property, s.SpannedBy (slices property))
    (rightIsLeaf : Bool) : ∀ property, ∀ s ∈ (conjoin left right rightIsLeaf).slice? property,
      s.SpannedBy (slices property) := by
  intro property s hs
  have hmerge := slice?_conjoin hleft hright hs
  cases hls : left.slice? property with
  | none =>
    rw [hls, Option.merge_none_left] at hmerge
    exact hr property s hmerge
  | some t =>
    cases hrs : right.slice? property with
    | none =>
      rw [hrs, Option.merge_none_right] at hmerge
      exact hl property s hmerge
    | some u =>
      rw [hls, hrs, Option.merge_some_some] at hmerge
      rw [← Option.some.inj hmerge]
      exact (hl property t hls).narrow (hr property u hrs)

theorem selects_conjoin_of_level {slices : String → List Slice} (hleft : left.WellFormed)
    (hright : right.WellFormed)
    (hl : ∀ property, ∀ s ∈ left.slice? property, s.SpannedBy (slices property))
    (hr : ∀ property, ∀ s ∈ right.slice? property, s.SpannedBy (slices property))
    (hlevel : ∀ property, keywordsBase? property = none → (left.slice? property).isSome = true →
      (right.slice? property).isSome = true →
      Slice.Level (slices property) (propertyValues id doc property)) (rightIsLeaf : Bool) :
    (conjoin left right rightIsLeaf).selects id doc =
      (left.selects id doc && right.selects id doc) := by
  refine selects_conjoin_of_narrow hleft hright (fun property hwords s hs t ht => ?_) rightIsLeaf
  obtain rfl := property_of_slice? ht
  have hlevel := hlevel t.property hwords (Option.isSome_of_mem hs) (Option.isSome_of_mem ht)
  exact hlevel.selects_narrow (hl _ s hs) (hr _ t ht) (property_of_slice? hs)

/-- **Three selectors select together what each of them selects, in either order**, if their slices
are level. -/
theorem selects_conjoin_conjoin (hP : P.WellFormed) (hQ : Q.WellFormed) (hR : R.WellFormed)
    (hlevel : LevelFor [P, Q, R] id doc) (b b' c c' : Bool) :
    (conjoin (conjoin P Q b) R b').selects id doc =
        (P.selects id doc && Q.selects id doc && R.selects id doc) ∧
      (conjoin P (conjoin Q R c) c').selects id doc =
        (P.selects id doc && Q.selects id doc && R.selects id doc) := by
  have hPspan := spannedBy_slice? (show P ∈ [P, Q, R] by simp)
  have hQspan := spannedBy_slice? (show Q ∈ [P, Q, R] by simp)
  have hRspan := spannedBy_slice? (show R ∈ [P, Q, R] by simp)
  have hPQspan := spannedBy_slice?_conjoin hP hQ hPspan hQspan b
  have hQRspan := spannedBy_slice?_conjoin hQ hR hQspan hRspan c
  have htwo := fun property => @two_le_length_slicesOver P Q R property
  have hPQ := selects_conjoin_of_level hP hQ hPspan hQspan (fun property hwords hs ht =>
    hlevel property hwords ((htwo property).mpr (.inl ⟨hs, ht⟩))) b
  have hQR := selects_conjoin_of_level hQ hR hQspan hRspan (fun property hwords hs ht =>
    hlevel property hwords ((htwo property).mpr (.inr (.inr ⟨hs, ht⟩)))) c
  have hPQR := selects_conjoin_of_level (wellFormed_conjoin hP hQ b) hR hPQspan hRspan
    (fun property hwords hs ht => hlevel property hwords ((htwo property).mpr
      ((isSome_slice?_conjoin hP hQ hs).elim (fun hs => .inr (.inl ⟨hs, ht⟩))
        fun hs => .inr (.inr ⟨hs, ht⟩)))) b'
  have hPQR' := selects_conjoin_of_level hP (wellFormed_conjoin hQ hR c) hPspan hQRspan
    (fun property hwords hs ht => hlevel property hwords ((htwo property).mpr
      ((isSome_slice?_conjoin hQ hR ht).elim (fun ht => .inl ⟨hs, ht⟩)
        fun ht => .inr (.inl ⟨hs, ht⟩)))) c'
  rw [hPQR, hPQR', hPQ, hQR, Bool.and_assoc]
  exact ⟨rfl, rfl⟩

/-! ### Three selectors not all of which are merged -/

/-- **Of three selectors that are not all merged, one always stays apart.** -/
theorem conjoin_conjoin_of_not_merges (hP : P.WellFormed) (hQ : Q.WellFormed) (hR : R.WellFormed)
    (h : ¬ (Merges P Q ∧ Merges P R ∧ Merges Q R)) (b b' c c' : Bool) :
    conjoin (conjoin P Q b) R b' = and (conjoin P Q b) R ∧
      conjoin P (conjoin Q R c) c' = and P (conjoin Q R c) := by
  constructor
  · refine conjoin_of_not_merges (fun hmerges => ?_) b'
    by_cases hPQ : Merges P Q
    · obtain ⟨hPR, hQR⟩ := (hPQ.conjoin_iff hP hQ b).mp hmerges
      exact h ⟨hPQ, hPR, hQR⟩
    · rw [conjoin_of_not_merges hPQ] at hmerges
      obtain ⟨_, _, hgroup, -⟩ := hmerges
      cases hgroup
  · refine conjoin_of_not_merges (fun hmerges => ?_) c'
    by_cases hQR : Merges Q R
    · obtain ⟨hPQ, hPR⟩ := (hQR.conjoin_iff hQ hR c).mp hmerges.symm
      exact h ⟨hPQ.symm, hPR.symm, hQR⟩
    · rw [conjoin_of_not_merges hQR] at hmerges
      obtain ⟨_, _, -, hgroup, -⟩ := hmerges
      cases hgroup

/-- Two selectors select together what both select, if their slices are level where they are
merged. -/
theorem selects_conjoin_of_levelFor (hP : P.WellFormed) (hQ : Q.WellFormed)
    (hlevel : Merges P Q → LevelFor [P, Q] id doc) (b : Bool) :
    (conjoin P Q b).selects id doc = (P.selects id doc && Q.selects id doc) := by
  by_cases h : Merges P Q
  · refine selects_conjoin_of_level hP hQ (spannedBy_slice? (show P ∈ [P, Q] by simp))
      (spannedBy_slice? (show Q ∈ [P, Q] by simp))
      (fun property hwords hs ht => hlevel h property hwords ?_) b
    obtain ⟨s, hs⟩ := Option.isSome_iff_exists.mp hs
    obtain ⟨t, ht⟩ := Option.isSome_iff_exists.mp ht
    simp [slicesOver, hs, ht]
  · rw [conjoin_of_not_merges h]
    rfl

/-! ### Three filters -/

/-- **Parentheses around conjunctions do not change what is selected**: where three groups are
merged and their bounds yield, which is when they are merged to the same slices; where not all three
are merged, for the entities for which the slices of each two neighbours that are merged are level,
and so for all entities if no neighbours are; and for the entities for which all slices are
level. -/
theorem selects_grouped {p q r : Filter} (hp : ofFilter catalog p = .ok P)
    (hq : ofFilter catalog q = .ok Q) (hr : ofFilter catalog r = .ok R) :
    ∃ L M, ofFilter catalog (.and (.and p q) r) = .ok L ∧
      ofFilter catalog (.and p (.and q r)) = .ok M ∧
      (Merges P Q → Merges P R → Merges Q R → Unblurred P Q R →
        ((∀ property, L.slice? property = M.slice? property) ↔ Yields P Q R) ∧
          (Yields P Q R → ∀ id doc, L.selects id doc = M.selects id doc)) ∧
      (¬ (Merges P Q ∧ Merges P R ∧ Merges Q R) → ∀ id doc,
        (Merges P Q → LevelFor [P, Q] id doc) → (Merges Q R → LevelFor [Q, R] id doc) →
          L.selects id doc = M.selects id doc) ∧
      ∀ id doc, LevelFor [P, Q, R] id doc → L.selects id doc = M.selects id doc := by
  have hP := wellFormed_ofFilter hp
  have hQ := wellFormed_ofFilter hq
  have hR := wellFormed_ofFilter hr
  refine ⟨_, _, ofFilterUnder_and (ofFilterUnder_and hp hq) hr,
    ofFilterUnder_and hp (ofFilterUnder_and hq hr), ?_, ?_, fun id doc hlevel => ?_⟩
  · exact fun hPQ hPR hQR hblurred =>
      conjoin_assoc_iff hP hQ hR hPQ hPR hQR hblurred _ _ _ _
  · intro hnot id doc hPQ hQR
    obtain ⟨hleft, hright⟩ := conjoin_conjoin_of_not_merges hP hQ hR hnot q.isRangeLeaf
      r.isRangeLeaf r.isRangeLeaf (Filter.and q r).isRangeLeaf
    rw [hleft, hright, selects, selects, selects_conjoin_of_levelFor hP hQ hPQ,
      selects_conjoin_of_levelFor hQ hR hQR, Bool.and_assoc]
  · obtain ⟨hleft, hright⟩ := selects_conjoin_conjoin hP hQ hR hlevel q.isRangeLeaf r.isRangeLeaf
      r.isRangeLeaf (Filter.and q r).isRangeLeaf
    rw [hleft, hright]

theorem merges_single {s t : Slice} (hs : keywordsBase? s.property = none) :
    Merges (slices (.single s)) (slices (.single t)) := by
  refine ⟨_, _, rfl, rfl, fun property hproperty _ => ?_⟩
  rwa [List.mem_singleton.mp hproperty]

theorem not_merges_or : ¬ Merges P (or Q R) := by
  rintro ⟨_, _, -, hgroup, -⟩
  cases hgroup

theorem bound?_single {side : Slice → Option Bound} :
    (slices (.single s)).bound? side property = if s.property = property then side s else none := by
  by_cases hs : s.property = property <;>
    simp [bound?, slice?, group?, SliceGroup.get?, SliceGroup.single, hs]

/-- A number that gives way to two texts, whatever the values are; a range that is narrowed or not
next to alternatives, for a value in it; and alternatives between a number and a text, whatever the
values are. -/
theorem selects_grouped_apart :
    let number := Filter.leaf (.compare "a" .greaterEqual (.int 5))
    let text := Filter.leaf (.compare "a" .greaterEqual (.string "x"))
    let text' := Filter.leaf (.compare "a" .greaterEqual (.string "y"))
    let below := Filter.leaf (.compare "a" .less (.int 8))
    let either := Filter.or (.leaf (.compare "b" .equal (.int 1)))
      (.leaf (.compare "c" .equal (.int 1)))
    let doc := Json.object [("a", .number (.natural 6)), ("b", .number (.natural 1))]
    (∃ L M, ofFilter .everything (.and (.and number text) text') = .ok L ∧
      ofFilter .everything (.and number (.and text text')) = .ok M ∧
      ∀ id doc, L.selects id doc = M.selects id doc) ∧
    (∃ L M, ofFilter .everything (.and (.and number below) either) = .ok L ∧
      ofFilter .everything (.and number (.and below either)) = .ok M ∧
      L.selects 1 doc = M.selects 1 doc) ∧
    ∃ L M, ofFilter .everything (.and (.and number either) text) = .ok L ∧
      ofFilter .everything (.and number (.and either text)) = .ok M ∧
      ∀ id doc, L.selects id doc = M.selects id doc := by
  intro number text text' below either doc
  have hwords : keywordsBase? "a" = none := by decide +kernel
  have hnumber : ofFilter .everything number =
      .ok (slices (.single (.ofComparison "a" .greaterEqual (.int 5)))) := rfl
  have htext : ofFilter .everything text =
      .ok (slices (.single (.ofComparison "a" .greaterEqual (.string "x")))) := rfl
  have heither : ofFilter .everything either =
      .ok (.or (slices (.single (.ofComparison "b" .equal (.int 1))))
        (slices (.single (.ofComparison "c" .equal (.int 1))))) := rfl
  refine ⟨?_, ?_, ?_⟩
  · have htext' : ofFilter .everything text' =
        .ok (slices (.single (.ofComparison "a" .greaterEqual (.string "y")))) := rfl
    obtain ⟨L, M, hL, hM, hmerged, -⟩ := selects_grouped hnumber htext htext'
    refine ⟨L, M, hL, hM, (hmerged (merges_single hwords) (merges_single hwords)
      (merges_single hwords) fun property side hside => ?_).2 fun property => ?_⟩
    · rcases eq_or_ne "a" property with hproperty | hproperty
      · simp only [List.mem_cons, List.not_mem_nil, or_false] at hside
        rcases hside with rfl | rfl <;>
          simp [bound?_single, hproperty, Slice.ofComparison, Bound.Unblurred, Scalar.Blurred]
      · simp [bound?_single, Slice.property_ofComparison, hproperty, Bound.Unblurred]
    · rcases eq_or_ne "a" property with hproperty | hproperty
      · simp [bound?_single, hproperty, Slice.ofComparison, Bound.Yields, Bound.tighterStart,
          Scalar.compare]
      · simp [bound?_single, Slice.property_ofComparison, hproperty, Bound.Yields]
  · have hbelow : ofFilter .everything below =
        .ok (slices (.single (.ofComparison "a" .less (.int 8)))) := rfl
    obtain ⟨L, M, hL, hM, -, hapart, -⟩ := selects_grouped hnumber hbelow heither
    refine ⟨L, M, hL, hM, hapart (fun h => not_merges_or h.2.1) 1 doc
      (fun _ property _ htwo => ?_) fun h => absurd h not_merges_or⟩
    by_cases hproperty : "a" = property
    · subst hproperty
      have hvalues : propertyValues 1 doc "a" = [.int 6] := by decide +kernel
      have hlevel : ∀ n m : Int64, Scalar.Level [.int n] [.int m] := fun n m =>
        ⟨by simp [Scalar.compare], by simp [Scalar.Blurred]⟩
      rw [hvalues]
      exact ⟨by decide, hlevel 5 6, hlevel 8 6⟩
    · simp [slicesOver, slice?, group?, SliceGroup.get?, SliceGroup.single, Slice.ofComparison,
        hproperty] at htwo
  · obtain ⟨L, M, hL, hM, -, hapart, -⟩ := selects_grouped hnumber heither htext
    exact ⟨L, M, hL, hM, fun id doc => hapart (fun h => not_merges_or h.1) id doc
      (fun h => absurd h not_merges_or) fun h => absurd h.symm not_merges_or⟩

/-- Filters that select an entity or not by their parentheses: a number comes back behind a text,
and a text takes the place of a number or not next to alternatives. -/
theorem grouped_kinds :
    let number := Filter.leaf (.compare "a" .greaterEqual (.int 5))
    let text := Filter.leaf (.compare "a" .greaterEqual (.string "x"))
    let less := Filter.leaf (.compare "a" .greaterEqual (.int 3))
    let either := Filter.or (.leaf (.compare "b" .equal (.int 1)))
      (.leaf (.compare "c" .equal (.int 1)))
    (∃ L M, ofFilter .everything (.and (.and number text) less) = .ok L ∧
      ofFilter .everything (.and number (.and text less)) = .ok M ∧
      L.selects 1 (.object [("a", .number (.natural 4))]) = true ∧
      M.selects 1 (.object [("a", .number (.natural 4))]) = false) ∧
    ∃ L M, ofFilter .everything (.and (.and number text) either) = .ok L ∧
      ofFilter .everything (.and number (.and text either)) = .ok M ∧
      L.selects 1 (.object [("a", .string "x"), ("b", .number (.natural 1))]) = true ∧
      M.selects 1 (.object [("a", .string "x"), ("b", .number (.natural 1))]) = false := by
  refine ⟨⟨_, _, rfl, rfl, ?_, ?_⟩, _, _, rfl, rfl, ?_, ?_⟩ <;> decide +kernel

end Selector

end EntityQuery
