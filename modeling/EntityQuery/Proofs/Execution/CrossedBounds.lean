import EntityQuery.Proofs.Execution.Results
import EntityQuery.Proofs.Plan.Parts

/-! # Slices whose bounds cross

A slice whose bounds cross is not scanned, while whether it selects an entity is asked value by
value. The two agree where values are in one order, in which nothing lies between bounds that cross.
Exact values are, so what is found by scans is what is selected, as long as the literals that a
property is compared with and its values are exact.

* `Slice.contains_of_isEmptyRange`: no value is between bounds that cross.
* `Selector.StemsFrom`: where the bounds of a compiled filter come from, at any depth.
* `Plan.finds_eq_selects`: **a plan finds the entities that it selects**. -/

namespace EntityQuery

/-! ## Slices -/

namespace Bound

variable {cmp : Scalar → Scalar → Ordering} {b : Bound} {v : Scalar}

theorem eq_or_lt_of_admitsAbove [Std.TransCmp cmp]
    (hcompare : v.compare b.value = if v.kindRank = b.value.kindRank then some (cmp v b.value)
      else none) (h : b.admitsAbove v = true) :
    v.kindRank = b.value.kindRank ∧
      (cmp b.value v = .lt ∨ cmp b.value v = .eq ∧ b.inclusive = true) := by
  unfold admitsAbove at h
  rw [hcompare] at h
  split_ifs at h with hkind
  · refine ⟨hkind, ?_⟩
    cases hv : cmp v b.value with
    | lt => simp [hv] at h
    | eq => exact .inr ⟨Std.OrientedCmp.eq_symm hv, by simpa [hv] using h⟩
    | gt => exact .inl (Std.OrientedCmp.lt_of_gt hv)

theorem eq_or_lt_of_admitsBelow
    (hcompare : v.compare b.value = if v.kindRank = b.value.kindRank then some (cmp v b.value)
      else none) (h : b.admitsBelow v = true) :
    v.kindRank = b.value.kindRank ∧
      (cmp v b.value = .lt ∨ cmp v b.value = .eq ∧ b.inclusive = true) := by
  unfold admitsBelow at h
  rw [hcompare] at h
  split_ifs at h with hkind
  · refine ⟨hkind, ?_⟩
    cases hv : cmp v b.value with
    | lt => exact .inl rfl
    | eq => exact .inr ⟨rfl, by simpa [hv] using h⟩
    | gt => simp [hv] at h

end Bound

namespace Slice

variable {S : List Scalar} {s : Slice} {v : Scalar} {id : EntityId} {doc : Json}

/-- **No value is between bounds that cross**, if the value and the bounds are in one order. -/
theorem contains_of_isEmptyRange (hS : Scalar.Ordered S)
    (hbounds : ∀ b ∈ s.bounds, Scalar.Among S b.value) (hv : Scalar.Among S v)
    (hempty : s.isEmptyRange = true) : s.contains v = false := by
  obtain ⟨cmp, hcmp, horder⟩ := hS
  rw [Bool.eq_false_iff]
  intro hcontains
  obtain ⟨property, start, finish, reversed⟩ := s
  cases start with
  | none => cases hempty
  | some start =>
    cases finish with
    | none => cases hempty
    | some finish =>
      have hlow : Scalar.Among S start.value := hbounds start (by simp [bounds])
      have hhigh : Scalar.Among S finish.value := hbounds finish (by simp [bounds])
      have hadmits : start.admitsAbove v = true ∧ finish.admitsBelow v = true := by
        simpa [contains] using hcontains
      obtain ⟨hkind, hstart⟩ := Bound.eq_or_lt_of_admitsAbove (horder _ _ hv hlow).1 hadmits.1
      obtain ⟨hkind', hfinish⟩ := Bound.eq_or_lt_of_admitsBelow (horder _ _ hv hhigh).1 hadmits.2
      have hcompare : start.value.compare finish.value = some (cmp start.value finish.value) := by
        rw [(horder _ _ hlow hhigh).1, if_pos (hkind.symm.trans hkind')]
      simp only [isEmptyRange, hcompare] at hempty
      -- The value is between the bounds, so the bounds themselves compare, and do not cross.
      rcases hstart with hlt | ⟨heq, hinclusive⟩
      · have hless : cmp start.value finish.value = .lt := by
          rcases hfinish with hlt' | ⟨heq', -⟩
          · exact Std.TransCmp.lt_trans hlt hlt'
          · exact Std.TransCmp.lt_of_lt_of_eq hlt heq'
        simp [hless] at hempty
      · rcases hfinish with hlt' | ⟨heq', hinclusive'⟩
        · simp [Std.TransCmp.lt_of_eq_of_lt heq hlt'] at hempty
        · simp [Std.TransCmp.eq_trans heq heq', hinclusive, hinclusive'] at hempty

/-- A slice whose bounds cross selects no entity; an id without a value is below no bound. -/
theorem selects_of_isEmptyRange (hS : Scalar.Ordered S)
    (hbounds : ∀ b ∈ s.bounds, Scalar.Among S b.value)
    (hvalues : ∀ v ∈ propertyValues id doc s.property, Scalar.Among S v)
    (hempty : s.isEmptyRange = true) : s.selects id doc = false := by
  unfold selects
  split_ifs with hid
  · unfold containsId
    cases hv : Scalar.ofId? id with
    | some v =>
      refine contains_of_isEmptyRange hS hbounds (hvalues v ?_) hempty
      rw [propertyValues, if_pos hid, hv]
      exact List.mem_singleton_self v
    | none =>
      have hfinish : s.finish.isNone = false := by
        unfold isEmptyRange at hempty
        cases hstart : s.start <;> cases hfinish : s.finish <;> simp_all
      simp [hfinish]
  · refine List.any_eq_false.mpr fun v hv => ?_
    rw [contains_of_isEmptyRange hS hbounds (hvalues v hv) hempty]
    exact Bool.false_ne_true

theorem finds_eq_selects_of_ordered (hS : Scalar.Ordered S)
    (hbounds : ∀ b ∈ s.bounds, Scalar.Among S b.value)
    (hvalues : ∀ v ∈ propertyValues id doc s.property, Scalar.Among S v) :
    s.finds id doc = s.selects id doc := by
  unfold finds
  cases hempty : s.isEmptyRange with
  | false => rfl
  | true => exact (selects_of_isEmptyRange hS hbounds hvalues hempty).symm

variable {literals : String → List Scalar}

theorem finds_eq_selects (hs : s.Within literals)
    (hexact : Scalar.Exact (literals s.property ++ propertyValues id doc s.property)) :
    s.finds id doc = s.selects id doc := by
  refine finds_eq_selects_of_ordered hexact.ordered (fun b hb => ?_) fun v hv => ?_
  · rcases hs.2 b hb with hliteral | ⟨text, -, heq, -⟩
    · exact .inl (List.mem_append_left _ hliteral)
    · exact .inr ⟨text, heq⟩
  · exact .inl (List.mem_append_right _ hv)

end Slice

/-! ## Selectors -/

namespace Selector

variable {catalog : Catalog} {negated : Bool} {selector : Selector}
  {literals : String → List Scalar} {id : EntityId} {doc : Json}

/-- The bounds of all slices of a selector stem from the literals. -/
def StemsFrom (literals : String → List Scalar) (s : Selector) : Prop :=
  s.Parts (Slice.Within literals) fun _ => True

/-- **The bounds of a compiled filter stem from its literals.** -/
theorem stemsFrom_ofFilterUnder {filter : Filter}
    (h : ofFilterUnder catalog negated filter = .ok selector) :
    selector.StemsFrom filter.literals := by
  refine parts_ofFilterUnder h (fun s t hs ht hst => hs.narrow ht hst) fun predicate hp => ?_
  cases predicate with
  | compare property comparison value =>
    refine within_ofComparison (List.mem_flatMap.mpr ⟨_, hp, ?_⟩)
    simp
  | contains property text =>
    refine within_ofPattern ⟨text, List.mem_flatMap.mpr ⟨_, hp, ?_⟩⟩
    simp
  | within area => trivial

theorem finds_eq_selects (hselector : selector.StemsFrom literals)
    (hexact : ∀ p, literals p ≠ [] → Scalar.Exact (literals p ++ propertyValues id doc p)) :
    selector.finds id doc = selector.selects id doc := by
  induction selector with
  | and left right ihl ihr => rw [finds, selects, ihl hselector.1, ihr hselector.2]
  | or left right ihl ihr => rw [finds, selects, ihl hselector.1, ihr hselector.2]
  | not subtract keep ih =>
    rw [finds, selects, ih hselector.1, hselector.2, SliceGroup.finds_fullScan,
      SliceGroup.selects_fullScan]
  | slices group =>
    have hslices : ∀ s ∈ group.slices, s.finds id doc = s.selects id doc := fun s hs =>
      Slice.finds_eq_selects (hselector s hs) (hexact s.property (hselector s hs).1)
    rw [finds, selects, SliceGroup.finds, SliceGroup.selects, Bool.eq_iff_iff, List.all_eq_true,
      List.all_eq_true]
    exact forall₂_congr fun s hs => by rw [hslices s hs]
  | within area => rfl

end Selector

/-! ## Plans -/

/-- The literals that a query compares a property with. -/
def Query.literals (q : Query) (property : String) : List Scalar :=
  q.filter.elim [] (·.literals property)

/-- **A plan finds the entities that it selects**, if the literals and the values of each property
that is compared are exact. -/
theorem Plan.finds_eq_selects {catalog : Catalog} {q : Query} {plan : Plan}
    (h : Plan.ofQuery catalog q = .ok plan) {id : EntityId} {doc : Json}
    (hexact : ∀ p, q.literals p ≠ [] → Scalar.Exact (q.literals p ++ propertyValues id doc p)) :
    plan.selector.finds id doc = plan.selector.selects id doc := by
  have hselector := (eq_of_ofQuery h).1
  unfold Query.literals at hexact
  cases hfilter : q.filter with
  | none =>
    rw [hfilter] at hselector
    rw [← Except.ok.inj hselector]
    exact (SliceGroup.finds_fullScan id doc).trans (SliceGroup.selects_fullScan id doc).symm
  | some filter =>
    rw [hfilter] at hselector hexact
    exact Selector.finds_eq_selects (Selector.stemsFrom_ofFilterUnder hselector) hexact

end EntityQuery
