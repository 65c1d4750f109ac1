import EntityQuery.Proofs.Number.Rounding
import EntityQuery.Proofs.Plan.Shape

/-! # Why a query does not compile

Every predicate of a filter has its demands: a comparison needs an index, a word needs an index of
words, and an area needs an index, a place outside every `not` and parameters that make sense. A
query compiles if all predicates have what they need and all that it sorts by has an index. If not,
compiling fails on the predicate furthest to the left that lacks something, and on a term to sort by
only if no predicate does.

* `Filter.leaves`: the predicates of a filter from left to right.
* `Leaf.Answerable`, `Leaf.Fault`: what a predicate needs, and the error if it lacks that.
* `Selector.ofFilterUnder_eq_error_iff`: compiling a filter fails on the first fault.
* `Plan.ofQuery_faults`: **when a query compiles, and what it fails on otherwise**. -/

namespace EntityQuery

/-! ## Areas -/

/-- The parameter of an area that a domain is about lies in it: it is finite, and the exact number
that it is keeps the bounds of the domain. Infinities and what is not a number lie in none. -/
def GeoArea.LiesIn (a : GeoArea) : GeoDomain → Prop
  | .distance => ∃ x, a.distance = .finite x ∧ 0 ≤ x.value
  | .latitude => ∃ x, a.latitude = .finite x ∧ -90 ≤ x.value ∧ x.value ≤ 90
  | .longitude => ∃ x, a.longitude = .finite x ∧ -180 ≤ x.value ∧ x.value ≤ 180

/-- The domains that are looked at before another one. -/
def GeoDomain.earlier : GeoDomain → List GeoDomain
  | distance => []
  | latitude => [distance]
  | longitude => [distance, latitude]

section

open Binary64

theorem Double.isBetween_iff {x : Double} {least greatest : Int64}
    (hleast : (ofInt64 least).units = least.toInt.natAbs * unitsPerOne)
    (hgreatest : (ofInt64 greatest).units = greatest.toInt.natAbs * unitsPerOne) :
    x.isBetween least greatest = true ↔
      ∃ y, x = .finite y ∧ (least.toInt : ℚ) ≤ y.value ∧ y.value ≤ greatest.toInt := by
  cases x with
  | finite y =>
    rw [isBetween, Bool.and_eq_true, decide_eq_true_eq, decide_eq_true_eq, finite_le_finite,
      finite_le_finite, le_iff_value_le, le_iff_value_le, value_ofInt64 hleast,
      value_ofInt64 hgreatest]
    simp
  | infinite negative =>
    -- Beyond one of the two bounds.
    have hout : (infinite negative).isBetween least greatest = false := by cases negative <;> rfl
    simp [hout]
  | nan =>
    have hout : nan.isBetween least greatest = false := rfl
    simp [hout]

end

namespace GeoArea

variable {a : GeoArea} {d : GeoDomain}

theorem not_liesIn_distance_iff : ¬ a.LiesIn .distance ↔
    (!a.distance.isFinite || decide (a.distance < Binary64.ofInt64 0)) = true := by
  unfold LiesIn
  cases a.distance with
  | finite x =>
    have hzero : (Binary64.ofInt64 0).value = 0 := Binary64.value_ofInt64 (by decide +kernel)
    simp [Double.isFinite, Binary64.le_iff_value_le, hzero]
  | infinite negative => simp [Double.isFinite]
  | nan => simp [Double.isFinite]

theorem not_liesIn_latitude_iff :
    ¬ a.LiesIn .latitude ↔ (!a.latitude.isBetween (-90) 90) = true := by
  rw [Bool.not_eq_true', ← Bool.not_eq_true,
    Double.isBetween_iff (by decide +kernel) (by decide +kernel)]
  exact Iff.rfl

theorem not_liesIn_longitude_iff :
    ¬ a.LiesIn .longitude ↔ (!a.longitude.isBetween (-180) 180) = true := by
  rw [Bool.not_eq_true', ← Bool.not_eq_true,
    Double.isBetween_iff (by decide +kernel) (by decide +kernel)]
  exact Iff.rfl

theorem invalid?_eq_some_iff :
    a.invalid? = some d ↔ ¬ a.LiesIn d ∧ ∀ d' ∈ d.earlier, a.LiesIn d' := by
  have hdistance := not_liesIn_distance_iff (a := a)
  have hlatitude := not_liesIn_latitude_iff (a := a)
  have hlongitude := not_liesIn_longitude_iff (a := a)
  unfold invalid?
  cases d <;>
    simp only [GeoDomain.earlier, List.mem_cons, List.not_mem_nil, forall_eq_or_imp, or_false,
      forall_eq] <;>
    split_ifs <;> simp_all

theorem invalid?_eq_none_iff : a.invalid? = none ↔ ∀ d, a.LiesIn d := by
  constructor
  · intro h d
    -- A domain that is missed has a first one like it, which the area is refused for.
    have hnot : ∀ d, ¬ (¬ a.LiesIn d ∧ ∀ d' ∈ d.earlier, a.LiesIn d') := by
      intro d hd
      rw [← invalid?_eq_some_iff, h] at hd
      cases hd
    have hdistance : a.LiesIn .distance := by simpa [GeoDomain.earlier] using hnot .distance
    have hlatitude : a.LiesIn .latitude := by
      simpa [GeoDomain.earlier, hdistance] using hnot .latitude
    have hlongitude : a.LiesIn .longitude := by
      simpa [GeoDomain.earlier, hdistance, hlatitude] using hnot .longitude
    cases d
    · exact hdistance
    · exact hlatitude
    · exact hlongitude
  · intro h
    cases hd : a.invalid? with
    | none => rfl
    | some d => exact absurd (h d) (invalid?_eq_some_iff.mp hd).1

end GeoArea

/-! ## Predicates -/

/-- A predicate in a filter. -/
structure Leaf where
  predicate : Predicate
  /-- Whether it stands under a `not`, at any depth. -/
  negated : Bool

/-- The predicates of a part of a filter from left to right; `negated` says whether the part stands
under a `not`. -/
def Filter.leavesUnder (negated : Bool) : Filter → List Leaf
  | and left right | or left right => left.leavesUnder negated ++ right.leavesUnder negated
  | not operand => operand.leavesUnder true
  | leaf predicate => [⟨predicate, negated⟩]

/-- The predicates of a query from left to right. -/
def Query.leaves (q : Query) : List Leaf := q.filter.elim [] (·.leavesUnder false)

namespace Leaf

variable {catalog : Catalog} {predicate : Predicate} {negated : Bool} {e : CompileError}

/-- A predicate has what it needs. -/
def Answerable (catalog : Catalog) : Leaf → Prop
  | ⟨.compare property _ _, _⟩ => catalog.isIndexed property = true
  | ⟨.contains property _, _⟩ => catalog.isFullText property = true
  | ⟨.within area, negated⟩ =>
    negated = false ∧ catalog.isIndexed area.property = true ∧ ∀ d, area.LiesIn d

/-- What a predicate lacks. Of an area it is asked first where it stands, then whether it has an
index, and then domain by domain. -/
inductive Fault (catalog : Catalog) : Leaf → CompileError → Prop
  | comparison {property comparison value negated} (h : catalog.isIndexed property = false) :
    Fault catalog ⟨.compare property comparison value, negated⟩ (.noIndex property)
  | word {property text negated} (h : catalog.isFullText property = false) :
    Fault catalog ⟨.contains property text, negated⟩ (.noFullTextIndex property)
  | negatedArea {area} : Fault catalog ⟨.within area, true⟩ (.negatedWithin area.property)
  | area {area} (h : catalog.isIndexed area.property = false) :
    Fault catalog ⟨.within area, false⟩ (.noIndex area.property)
  | domain {area d} (h : catalog.isIndexed area.property = true) (hd : ¬ area.LiesIn d)
    (hearlier : ∀ d' ∈ d.earlier, area.LiesIn d') :
    Fault catalog ⟨.within area, false⟩ (.invalidGeo area.property d)

theorem exists_ofPredicate_iff :
    (∃ s, Selector.ofPredicate catalog negated predicate = .ok s) ↔
      Answerable catalog ⟨predicate, negated⟩ := by
  cases predicate with
  | compare property comparison value =>
    cases h : catalog.isIndexed property <;> simp [Selector.ofPredicate, Answerable, h]
  | contains property text =>
    cases h : catalog.isFullText property <;> simp [Selector.ofPredicate, Answerable, h]
  | within area =>
    simp only [Selector.ofPredicate, Answerable, ← GeoArea.invalid?_eq_none_iff]
    cases negated <;> cases catalog.isIndexed area.property <;> cases area.invalid? <;> simp

theorem ofPredicate_eq_error_iff :
    Selector.ofPredicate catalog negated predicate = .error e ↔
      Fault catalog ⟨predicate, negated⟩ e := by
  constructor
  · intro h
    cases predicate with
    | compare property comparison value =>
      simp only [Selector.ofPredicate] at h
      split_ifs at h with hindexed
      obtain rfl := Except.error.inj h
      exact .comparison (Bool.eq_false_iff.mpr hindexed)
    | contains property text =>
      simp only [Selector.ofPredicate] at h
      split_ifs at h with hindexed
      obtain rfl := Except.error.inj h
      exact .word (Bool.eq_false_iff.mpr hindexed)
    | within area =>
      simp only [Selector.ofPredicate, Bool.not_eq_true'] at h
      split_ifs at h with hnegated hindexed
      · obtain rfl := Except.error.inj h
        rw [hnegated]
        exact .negatedArea
      · obtain rfl := Except.error.inj h
        rw [Bool.eq_false_iff.mpr hnegated]
        exact .area hindexed
      · split at h
        · rename_i d hd
          obtain rfl := Except.error.inj h
          obtain ⟨hout, hearlier⟩ := GeoArea.invalid?_eq_some_iff.mp hd
          rw [Bool.eq_false_iff.mpr hnegated]
          exact .domain (Bool.not_eq_false _ ▸ hindexed) hout hearlier
        · cases h
  · intro h
    cases h with
    | comparison h => simp [Selector.ofPredicate, h]
    | word h => simp [Selector.ofPredicate, h]
    | negatedArea => simp [Selector.ofPredicate]
    | area h => simp [Selector.ofPredicate, h]
    | domain h hd hearlier =>
      simp [Selector.ofPredicate, h, GeoArea.invalid?_eq_some_iff.mpr ⟨hd, hearlier⟩]

end Leaf

/-! ## The first fault -/

/-- An error of the first element of a list that is at fault: those in front of it are sound. -/
def FirstFault {α ε : Type} (sound : α → Prop) (fault : α → ε → Prop) (l : List α) (e : ε) : Prop :=
  ∃ before a after, l = before ++ a :: after ∧ (∀ b ∈ before, sound b) ∧ fault a e

namespace FirstFault

variable {α ε : Type} {sound : α → Prop} {fault : α → ε → Prop} {l r : List α} {a : α} {e : ε}

theorem singleton_iff : FirstFault sound fault [a] e ↔ fault a e := by
  constructor
  · rintro ⟨before, b, after, heq, -, hb⟩
    cases before with
    | nil =>
      obtain ⟨rfl, -⟩ := List.cons.inj heq
      exact hb
    | cons c before => simp at heq
  · intro h
    exact ⟨[], a, [], rfl, by simp, h⟩

/-- The first fault of two lists is in the first one, or that is sound and it is in the second. -/
theorem append_iff : FirstFault sound fault (l ++ r) e ↔
    FirstFault sound fault l e ∨ (∀ a ∈ l, sound a) ∧ FirstFault sound fault r e := by
  constructor
  · rintro ⟨before, a, after, heq, hbefore, ha⟩
    rcases List.append_eq_append_iff.mp heq with ⟨mid, rfl, rfl⟩ | ⟨mid, rfl, hmid⟩
    · refine .inr ⟨fun b hb => hbefore b (by simp [hb]), mid, a, after, rfl, ?_, ha⟩
      exact fun b hb => hbefore b (by simp [hb])
    · cases mid with
      | nil =>
        refine .inr ⟨fun b hb => hbefore b (by simpa using hb), [], a, after, hmid.symm, ?_, ha⟩
        simp
      | cons b mid =>
        obtain ⟨rfl, rfl⟩ := List.cons.inj hmid
        exact .inl ⟨before, a, mid, rfl, hbefore, ha⟩
  · rintro (⟨before, a, after, rfl, hbefore, ha⟩ | ⟨hl, before, a, after, rfl, hbefore, ha⟩)
    · exact ⟨before, a, after ++ r, by simp, hbefore, ha⟩
    · refine ⟨l ++ before, a, after, by simp, fun b hb => ?_, ha⟩
      exact (List.mem_append.mp hb).elim (hl b) (hbefore b)

end FirstFault

namespace Selector

variable {catalog : Catalog} {negated : Bool} {filter : Filter} {e : CompileError}

theorem exists_ofFilterUnder_iff : (∃ s, ofFilterUnder catalog negated filter = .ok s) ↔
    ∀ leaf ∈ filter.leavesUnder negated, leaf.Answerable catalog := by
  induction filter generalizing negated with
  | leaf predicate =>
    rw [Filter.leavesUnder, List.forall_mem_singleton]
    exact Leaf.exists_ofPredicate_iff
  | not operand ih =>
    rw [Filter.leavesUnder, ← ih]
    exact exists_bind_pure_iff
  | or left right ihl ihr =>
    rw [Filter.leavesUnder, List.forall_mem_append, ← ihl, ← ihr]
    exact exists_bind_bind_pure_iff
  | and left right ihl ihr =>
    rw [Filter.leavesUnder, List.forall_mem_append, ← ihl, ← ihr]
    exact exists_bind_bind_pure_iff

/-- **Compiling a filter fails on its first fault.** -/
theorem ofFilterUnder_eq_error_iff : ofFilterUnder catalog negated filter = .error e ↔
    FirstFault (Leaf.Answerable catalog) (Leaf.Fault catalog) (filter.leavesUnder negated) e := by
  induction filter generalizing negated with
  | leaf predicate =>
    rw [Filter.leavesUnder, FirstFault.singleton_iff]
    exact Leaf.ofPredicate_eq_error_iff
  | not operand ih =>
    rw [Filter.leavesUnder, ← ih]
    exact bind_pure_eq_error_iff
  | or left right ihl ihr =>
    rw [Filter.leavesUnder, FirstFault.append_iff, ← ihl, ← ihr, ← exists_ofFilterUnder_iff]
    exact bind_bind_pure_eq_error_iff
  | and left right ihl ihr =>
    rw [Filter.leavesUnder, FirstFault.append_iff, ← ihl, ← ihr, ← exists_ofFilterUnder_iff]
    exact bind_bind_pure_eq_error_iff

end Selector

/-! ## Queries -/

namespace SortTerm

variable {catalog : Catalog} {order : List SortTerm} {property : String}

/-- A query can be sorted by a term. -/
def Sortable (catalog : Catalog) (term : SortTerm) : Prop :=
  catalog.isIndexed term.property = true

/-- What a term to sort by lacks. -/
inductive Fault (catalog : Catalog) (term : SortTerm) : CompileError → Prop
  | unindexed (h : catalog.isIndexed term.property = false) :
    Fault catalog term (.noIndex term.property)

theorem unsortable?_eq_none_iff :
    unsortable? catalog order = none ↔ ∀ term ∈ order, term.Sortable catalog := by
  simp [unsortable?, Sortable]

theorem firstFault_iff {e : CompileError} :
    FirstFault (Sortable catalog) (Fault catalog) order e ↔
      ∃ property, unsortable? catalog order = some property ∧ e = .noIndex property := by
  simp only [unsortable?, Option.map_eq_some_iff, List.find?_eq_some_iff_append]
  constructor
  · rintro ⟨before, term, after, heq, hbefore, ⟨h⟩⟩
    refine ⟨_, ⟨term, ⟨by simp [h], before, after, heq, fun t ht => ?_⟩, rfl⟩, rfl⟩
    simp [show catalog.isIndexed t.property = true from hbefore t ht]
  · rintro ⟨-, ⟨term, ⟨h, before, after, heq, hbefore⟩, rfl⟩, rfl⟩
    refine ⟨before, term, after, heq, fun t ht => ?_, ⟨by simpa using h⟩⟩
    simpa [Sortable] using hbefore t ht

end SortTerm

namespace Plan

variable {catalog : Catalog} {q : Query} {e : CompileError}

theorem exists_elim_ofFilter_iff :
    (∃ s, q.filter.elim (.ok .everything) (Selector.ofFilter catalog) = .ok s) ↔
      ∀ leaf ∈ q.leaves, leaf.Answerable catalog := by
  unfold Query.leaves
  cases q.filter with
  | none => simp
  | some filter => exact Selector.exists_ofFilterUnder_iff

theorem elim_ofFilter_eq_error_iff :
    q.filter.elim (.ok .everything) (Selector.ofFilter catalog) = .error e ↔
      FirstFault (Leaf.Answerable catalog) (Leaf.Fault catalog) q.leaves e := by
  unfold Query.leaves
  cases q.filter with
  | none => simp [FirstFault]
  | some filter => exact Selector.ofFilterUnder_eq_error_iff

/-- **A query compiles just if all its predicates have what they need and all that it sorts by has
an index. Otherwise it fails on the predicate furthest to the left that lacks something, and on the
first term to sort by that lacks an index only if no predicate does.** -/
theorem ofQuery_faults (catalog : Catalog) (q : Query) :
    ((∃ plan, Plan.ofQuery catalog q = .ok plan) ↔
      (∀ leaf ∈ q.leaves, leaf.Answerable catalog) ∧
        ∀ term ∈ q.order, term.Sortable catalog) ∧
    ∀ e, Plan.ofQuery catalog q = .error e ↔
      FirstFault (Leaf.Answerable catalog) (Leaf.Fault catalog) q.leaves e ∨
        (∀ leaf ∈ q.leaves, leaf.Answerable catalog) ∧
          FirstFault (SortTerm.Sortable catalog) (SortTerm.Fault catalog) q.order e := by
  constructor
  · simp only [ofQuery_eq_ok_iff, ← exists_elim_ofFilter_iff, ← SortTerm.unsortable?_eq_none_iff]
    constructor
    · rintro ⟨plan, hselector, hsort, -⟩
      exact ⟨⟨_, hselector⟩, hsort⟩
    · rintro ⟨⟨selector, hselector⟩, hsort⟩
      exact ⟨⟨selector, q.selection, q.order⟩, hselector, hsort, rfl⟩
  · intro e
    rw [ofQuery_eq, bind_eq_error_iff, elim_ofFilter_eq_error_iff, ← exists_elim_ofFilter_iff,
      SortTerm.firstFault_iff]
    refine or_congr_right ?_
    cases unsortable? catalog q.order <;> simp [eq_comm]

/-- A radius without end is refused before a latitude that is no number. -/
example :
    let query (distance : Double) : Query :=
      ⟨.all, some (.leaf (.within ⟨"g", distance, .nan, .finite (.ofInt64 0)⟩)), []⟩
    Plan.ofQuery .everything (query (.infinite false)) = .error (.invalidGeo "g" .distance) ∧
      Plan.ofQuery .everything (query (.finite (.ofInt64 5))) =
        .error (.invalidGeo "g" .latitude) := by
  decide +kernel

end Plan

end EntityQuery
