import EntityQuery.Plan.Request
import EntityQuery.Proofs.Steps
import EntityQuery.Store.Matching
import Mathlib.Data.List.Nodup

/-! # The shape of compiled selectors

Groups of slices are made by adding one slice after another, so a group never has two slices over
one property. What compiling makes of a filter is well formed: no group is without slices, and every
complement is taken within the scan of all ids.

* `SliceGroup.properties_upsert`: adding a slice keeps the properties of a group in place and adds
  at most its own.
* `SliceGroup.WellFormed.absorb`, `SliceGroup.WellFormed.absorbEarlier`: so does taking in a group.
* `Selector.Compiled`: how a filter and what it is compiled to belong together, part by part.
* `Selector.wellFormed_ofFilter`, `Plan.wellFormed_ofText`: compiled selectors are well formed. -/

namespace EntityQuery

/-! ## Groups -/

namespace SliceGroup

variable {g : SliceGroup} {change : Slice → Slice} {slice : Slice}

/-- The properties that a group has slices over. -/
def properties (g : SliceGroup) : List String := g.slices.map Slice.property

/-- A group has a slice, and not two over one property. -/
structure WellFormed (g : SliceGroup) : Prop where
  nonempty : g.slices ≠ []
  distinct : g.properties.Nodup

theorem wellFormed_single (slice : Slice) : (single slice).WellFormed where
  nonempty := by simp [single]
  distinct := by simp [single, properties]

theorem upsert_ne_nil (l : List Slice) : upsert change slice l ≠ [] := by
  cases l with
  | nil => simp [upsert]
  | cons s rest => unfold upsert; split <;> simp

/-- Properties stay in place; that of the new slice comes last if it was not there. -/
theorem properties_upsert (hchange : ∀ s, s.property = slice.property →
      (change s).property = slice.property) (l : List Slice) :
    (upsert change slice l).map Slice.property =
      if slice.property ∈ l.map Slice.property then l.map Slice.property
      else l.map Slice.property ++ [slice.property] := by
  induction l with
  | nil => simp [upsert]
  | cons s rest ih =>
    by_cases hs : s.property = slice.property
    · simp [upsert, hs, hchange s hs]
    · have hs' : ¬ slice.property = s.property := fun h => hs h.symm
      simp only [upsert, hs, if_false, List.map_cons, ih, List.mem_cons, hs', false_or]
      split <;> rfl

theorem WellFormed.upsert (hg : g.WellFormed) (hchange : ∀ s, s.property = slice.property →
      (change s).property = slice.property) : WellFormed ⟨upsert change slice g.slices⟩ where
  nonempty := upsert_ne_nil _
  distinct := by
    unfold properties
    rw [properties_upsert hchange]
    split
    · exact hg.distinct
    · rename_i hnew
      exact List.nodup_append.mpr ⟨hg.distinct, by simp, by
        rintro p hp q hq rfl
        exact hnew (by rwa [List.mem_singleton.mp hq] at hp)⟩

theorem WellFormed.push (hg : g.WellFormed) (later : Slice) : (g.push later).WellFormed :=
  hg.upsert fun _ hs => hs

theorem WellFormed.pushEarlier (hg : g.WellFormed) (earlier : Slice) :
    (g.pushEarlier earlier).WellFormed :=
  hg.upsert fun _ _ => rfl

theorem WellFormed.absorb (hg : g.WellFormed) (later : SliceGroup) : (g.absorb later).WellFormed := by
  unfold SliceGroup.absorb
  induction later.slices generalizing g with
  | nil => exact hg
  | cons s rest ih => exact ih (hg.push s)

theorem WellFormed.absorbEarlier (hg : g.WellFormed) (earlier : SliceGroup) :
    (g.absorbEarlier earlier).WellFormed := by
  unfold SliceGroup.absorbEarlier
  induction earlier.slices generalizing g with
  | nil => exact hg
  | cons s rest ih => exact ih (hg.pushEarlier s)

theorem selects_fullScan (id : EntityId) (doc : Json) : fullScan.selects id doc = true := by
  have hid : (⟨idProperty, none, none, false⟩ : Slice).containsId id = true := by
    unfold Slice.containsId
    cases Scalar.ofId? id <;> rfl
  simp [selects, fullScan, single, Slice.selects, hid]

end SliceGroup

/-! ## Selectors -/

theorem Slice.property_ofPattern (property text : String) :
    (Slice.ofPattern property text).property = property := by
  unfold ofPattern
  split <;> rfl

theorem Slice.property_ofComparison (property : String) (comparison : Comparison)
    (value : Scalar) : (Slice.ofComparison property comparison value).property = property := by
  unfold ofComparison
  split
  · exact property_ofPattern property _
  all_goals rfl

/-- The slice that a predicate is compiled to, unless it is about an area. -/
def Predicate.slice? : Predicate → Option Slice
  | .compare property comparison value => some (.ofComparison property comparison value)
  | .contains property text => some (.ofWord property text)
  | .within _ => none

namespace Selector

/-- All groups of a selector are well formed, and complements are taken within all ids. -/
def WellFormed : Selector → Prop
  | and left right | or left right => left.WellFormed ∧ right.WellFormed
  | not subtract keep => subtract.WellFormed ∧ keep = .fullScan
  | slices group => group.WellFormed
  | within _ => True

theorem wellFormed_conjoin {left right : Selector} (hleft : left.WellFormed)
    (hright : right.WellFormed) (rightIsLeaf : Bool) :
    (conjoin left right rightIsLeaf).WellFormed := by
  unfold conjoin
  split
  · rename_i l r
    have hl : l.WellFormed := hleft
    have hr : r.WellFormed := hright
    split_ifs
    · exact hl.absorb r
    · exact ⟨hl, hr⟩
    · exact hr.absorbEarlier l
    · exact ⟨hl, hr⟩
  · exact ⟨hleft, hright⟩

variable {catalog : Catalog} {negated : Bool} {selector : Selector}

theorem ofFilterUnder_and {left right : Filter} {l r : Selector}
    (hl : ofFilterUnder catalog negated left = .ok l)
    (hr : ofFilterUnder catalog negated right = .ok r) :
    ofFilterUnder catalog negated (.and left right) = .ok (conjoin l r right.isRangeLeaf) := by
  rw [ofFilterUnder, hl, hr]
  rfl

/-! ### What filters are compiled to -/

/-- A selector is put together as compiling a filter does; `negated` says whether the filter stands
under a `not`. -/
inductive Compiled : Bool → Filter → Selector → Prop
  | slice {negated : Bool} {predicate : Predicate} {s : Slice} (h : predicate.slice? = some s) :
    Compiled negated (.leaf predicate) (slices (.single s))
  | area {a : GeoArea} : Compiled false (.leaf (.within a)) (within a)
  | not {negated : Bool} {operand : Filter} {subtract : Selector}
    (h : Compiled true operand subtract) : Compiled negated (.not operand) (complement subtract)
  | or {negated : Bool} {left right : Filter} {l r : Selector} (hl : Compiled negated left l)
    (hr : Compiled negated right r) : Compiled negated (.or left right) (.or l r)
  | and {negated : Bool} {left right : Filter} {l r : Selector} (hl : Compiled negated left l)
    (hr : Compiled negated right r) :
    Compiled negated (.and left right) (conjoin l r right.isRangeLeaf)

theorem compiled_of_ofPredicate {predicate : Predicate}
    (h : ofPredicate catalog negated predicate = .ok selector) :
    Compiled negated (.leaf predicate) selector := by
  cases predicate with
  | compare property comparison value =>
    simp only [ofPredicate] at h
    split_ifs at h
    obtain rfl := Except.ok.inj h
    exact .slice rfl
  | contains property text =>
    simp only [ofPredicate] at h
    split_ifs at h
    obtain rfl := Except.ok.inj h
    exact .slice rfl
  | within area =>
    simp only [ofPredicate] at h
    split_ifs at h with hnegated
    split at h
    · cases h
    · obtain rfl := Except.ok.inj h
      rw [Bool.eq_false_iff.mpr hnegated]
      exact .area

/-- **What a filter is compiled to is put together so.** -/
theorem compiled_of_ofFilterUnder {filter : Filter}
    (h : ofFilterUnder catalog negated filter = .ok selector) :
    Compiled negated filter selector := by
  induction filter generalizing negated selector with
  | leaf predicate => exact compiled_of_ofPredicate h
  | not operand ih =>
    obtain ⟨subtract, hsubtract, heq⟩ := bind_eq_ok_iff.mp h
    rw [← Except.ok.inj heq]
    exact .not (ih hsubtract)
  | or left right ihl ihr =>
    obtain ⟨l, hl, h⟩ := bind_eq_ok_iff.mp h
    obtain ⟨r, hr, heq⟩ := bind_eq_ok_iff.mp h
    rw [← Except.ok.inj heq]
    exact .or (ihl hl) (ihr hr)
  | and left right ihl ihr =>
    obtain ⟨l, hl, h⟩ := bind_eq_ok_iff.mp h
    obtain ⟨r, hr, heq⟩ := bind_eq_ok_iff.mp h
    rw [← Except.ok.inj heq]
    exact .and (ihl hl) (ihr hr)

theorem Compiled.wellFormed {filter : Filter} (h : Compiled negated filter selector) :
    selector.WellFormed := by
  induction h with
  | slice h => exact SliceGroup.wellFormed_single _
  | area => trivial
  | not h ih => exact ⟨ih, rfl⟩
  | or hl hr ihl ihr => exact ⟨ihl, ihr⟩
  | and hl hr ihl ihr => exact wellFormed_conjoin ihl ihr _

/-- **What a filter is compiled to is well formed.** -/
theorem wellFormed_ofFilterUnder {filter : Filter}
    (h : ofFilterUnder catalog negated filter = .ok selector) : selector.WellFormed :=
  (compiled_of_ofFilterUnder h).wellFormed

theorem wellFormed_ofFilter {filter : Filter} (h : ofFilter catalog filter = .ok selector) :
    selector.WellFormed :=
  wellFormed_ofFilterUnder h

theorem wellFormed_everything : everything.WellFormed := SliceGroup.wellFormed_single _

end Selector

namespace Plan

variable {catalog : Catalog} {plan : Plan}

theorem ofQuery_eq {q : Query} : Plan.ofQuery catalog q =
    (q.filter.elim (.ok .everything) (Selector.ofFilter catalog) >>= fun selector =>
      (unsortable? catalog q.order).elim (.ok ⟨selector, q.selection, q.order⟩) fun property =>
        .error (.noIndex property)) := by
  unfold Plan.ofQuery
  cases q.filter <;> cases unsortable? catalog q.order <;> rfl

theorem ofQuery_eq_ok_iff {q : Query} :
    Plan.ofQuery catalog q = .ok plan ↔
      (q.filter.elim (.ok .everything) (Selector.ofFilter catalog)) = .ok plan.selector ∧
        unsortable? catalog q.order = none ∧ plan = ⟨plan.selector, q.selection, q.order⟩ := by
  rw [ofQuery_eq, bind_eq_ok_iff]
  cases unsortable? catalog q.order with
  | some property => simp
  | none =>
    constructor
    · rintro ⟨selector, hselector, heq⟩
      obtain rfl := Except.ok.inj heq
      exact ⟨hselector, rfl, rfl⟩
    · rintro ⟨hselector, -, hplan⟩
      exact ⟨plan.selector, hselector, congrArg _ hplan.symm⟩

theorem eq_of_ofQuery {q : Query} (h : Plan.ofQuery catalog q = .ok plan) :
    (q.filter.elim (.ok .everything) (Selector.ofFilter catalog)) = .ok plan.selector ∧
      plan.selection = q.selection ∧ plan.sort = q.order := by
  obtain ⟨hselector, -, hplan⟩ := ofQuery_eq_ok_iff.mp h
  exact ⟨hselector, by rw [hplan], by rw [hplan]⟩

theorem wellFormed_ofQuery {q : Query} (h : Plan.ofQuery catalog q = .ok plan) :
    plan.selector.WellFormed := by
  have hselector := (eq_of_ofQuery h).1
  cases hfilter : q.filter with
  | none =>
    rw [hfilter] at hselector
    rw [← Except.ok.inj hselector]
    exact Selector.wellFormed_everything
  | some filter =>
    rw [hfilter] at hselector
    exact Selector.wellFormed_ofFilter hselector

/-- **The plan of a query text has a well-formed selector.** -/
theorem wellFormed_ofText {text : String} (h : Plan.ofText catalog text = .ok plan) :
    plan.selector.WellFormed := by
  obtain ⟨q, -, hq⟩ := bind_eq_ok_iff.mp h
  exact wellFormed_ofQuery (mapError_eq_ok_iff.mp hq)

end Plan

end EntityQuery
