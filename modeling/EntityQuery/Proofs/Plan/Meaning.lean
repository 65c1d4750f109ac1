import EntityQuery.Proofs.Slice.Group

/-! # What compiled filters mean

A filter holds of an entity as its connectives say, where each predicate is asked on its own. What a
filter is compiled to selects the entities of which it holds: to merge groups of slices is to take
what both select.

This asks something of the properties that are compared with literals, those that hold words apart,
since slices over these are never merged: they are settled.

* `Filter.holds`: the meaning of a filter, predicate by predicate.
* `Selector.selects_conjoin`: what both sides select.
* `Selector.selects_ofFilter`: a compiled filter selects what the filter holds of. -/

namespace EntityQuery

namespace Filter

/-- The predicates of a filter. -/
def predicates : Filter → List Predicate
  | and left right | or left right => left.predicates ++ right.predicates
  | not operand => operand.predicates
  | leaf predicate => [predicate]

/-- The literals that a filter compares a property with; a word is compared with the words of a
text. -/
def literals (filter : Filter) (property : String) : List Scalar :=
  filter.predicates.flatMap fun
    | .compare p _ value => if p = property then [value] else []
    | .contains p text => if p ++ keywordsSuffix = property then [.string text] else []
    | .within _ => []

/-- Whether a filter holds of an entity: the connectives are those of truth values, and a predicate
holds if what it is compiled to on its own selects the entity. -/
def holds (catalog : Catalog) (id : EntityId) (doc : Json) : Filter → Bool
  | and left right => left.holds catalog id doc && right.holds catalog id doc
  | or left right => left.holds catalog id doc || right.holds catalog id doc
  | not operand => !operand.holds catalog id doc
  | leaf predicate =>
    match Selector.ofFilter catalog (leaf predicate) with
    | .ok selector => selector.selects id doc
    | .error _ => false

/-- The properties that a filter compares, those that hold words apart, are settled for an
entity. -/
def SettledFor (filter : Filter) (id : EntityId) (doc : Json) : Prop :=
  ∀ p, keywordsBase? p = none → filter.literals p ≠ [] →
    Settled (filter.literals p) (propertyValues id doc p)

end Filter

namespace Selector

variable {catalog : Catalog} {negated : Bool} {selector left right : Selector}
  {literals : String → List Scalar} {id : EntityId} {doc : Json}

/-- If a selector is a group, its bounds stem from the literals. -/
def Within (literals : String → List Scalar) : Selector → Prop
  | slices group => group.Within literals
  | _ => True

section Conjoin

variable (hsettled : ∀ p, keywordsBase? p = none → literals p ≠ [] →
  Settled (literals p) (propertyValues id doc p))
include hsettled

/-- **What is selected by both sides**, whether they are merged or not. -/
theorem selects_conjoin (hleft : left.WellFormed) (hright : right.WellFormed)
    (hl : left.Within literals) (hr : right.Within literals) (rightIsLeaf : Bool) :
    (conjoin left right rightIsLeaf).selects id doc =
        (left.selects id doc && right.selects id doc) ∧
      (conjoin left right rightIsLeaf).Within literals := by
  unfold conjoin
  split
  · rename_i l r
    have hlgroup : l.WellFormed := hleft
    have hrgroup : r.WellFormed := hright
    split_ifs with _ hcan hcan
    · exact ⟨SliceGroup.selects_absorb hsettled hrgroup hcan hl hr, hl.absorb hr⟩
    · exact ⟨rfl, trivial⟩
    · exact ⟨SliceGroup.selects_absorbEarlier hsettled hlgroup hcan hr hl, hr.absorbEarlier hl⟩
    · exact ⟨rfl, trivial⟩
  · exact ⟨rfl, trivial⟩

end Conjoin

/-! ### Predicates -/

theorem within_ofPattern {property text : String} (hliterals : ∃ t, .string t ∈ literals property) :
    (Slice.ofPattern property text).Within literals := by
  obtain ⟨t, ht⟩ := hliterals
  unfold Slice.ofPattern
  split
  · refine ⟨List.ne_nil_of_mem ht, fun b hb => .inr ?_⟩
    simp only [Slice.bounds, Slice.startingWith, Option.toList_some, List.cons_append,
      List.nil_append, List.mem_cons, List.not_mem_nil, or_false] at hb
    rcases hb with rfl | rfl
    · exact ⟨_, t, rfl, ht⟩
    · exact ⟨_, t, rfl, ht⟩
  · refine ⟨List.ne_nil_of_mem ht, fun b hb => .inr ?_⟩
    simp only [Slice.bounds, Slice.exact, Option.toList_some, List.cons_append, List.nil_append,
      List.mem_cons, List.not_mem_nil, or_false, or_self] at hb
    exact ⟨_, t, by rw [hb], ht⟩

theorem within_ofComparison {property : String} {comparison : Comparison} {value : Scalar}
    (hvalue : value ∈ literals property) :
    (Slice.ofComparison property comparison value).Within literals := by
  unfold Slice.ofComparison
  split
  · exact within_ofPattern ⟨_, hvalue⟩
  all_goals
    refine ⟨List.ne_nil_of_mem hvalue, fun b hb => .inl ?_⟩
    have hb : b.value = value := by
      simp only [Slice.bounds, Slice.exact, Option.toList_some, Option.toList_none,
        List.append_nil, List.nil_append, List.mem_cons, List.mem_append, List.not_mem_nil,
        or_false, or_self] at hb
      rw [hb]
    rw [hb]
    exact hvalue

/-- A predicate is compiled to the same under `not` and outside. -/
theorem ofPredicate_of_negated {predicate : Predicate}
    (h : ofPredicate catalog negated predicate = .ok selector) :
    ofPredicate catalog false predicate = .ok selector := by
  cases negated with
  | false => exact h
  | true =>
    cases predicate with
    | within area => simp [ofPredicate] at h
    | _ => exact h

theorem within_ofPredicate {predicate : Predicate}
    (h : ofPredicate catalog negated predicate = .ok selector)
    (hliterals : ∀ p, (Filter.leaf predicate).literals p ⊆ literals p) :
    selector.Within literals := by
  cases predicate with
  | compare property comparison value =>
    simp only [ofPredicate] at h
    split_ifs at h
    obtain rfl := Except.ok.inj h
    intro s hs
    obtain rfl := List.mem_singleton.mp hs
    exact within_ofComparison (hliterals property (by simp [Filter.literals, Filter.predicates]))
  | contains property text =>
    simp only [ofPredicate] at h
    split_ifs at h
    obtain rfl := Except.ok.inj h
    intro s hs
    obtain rfl := List.mem_singleton.mp hs
    exact within_ofPattern
      ⟨text, hliterals _ (by simp [Filter.literals, Filter.predicates])⟩
  | within area =>
    simp only [ofPredicate] at h
    split_ifs at h
    split at h
    · cases h
    · obtain rfl := Except.ok.inj h
      trivial

/-! ### Filters -/

theorem exists_ofFilter_leaf {filter : Filter} {predicate : Predicate}
    (h : ofFilterUnder catalog negated filter = .ok selector)
    (hpredicate : predicate ∈ filter.predicates) :
    ∃ alone, ofFilter catalog (.leaf predicate) = .ok alone := by
  induction filter generalizing negated selector with
  | leaf p =>
    obtain rfl := List.mem_singleton.mp hpredicate
    exact ⟨selector, ofPredicate_of_negated h⟩
  | not operand ih =>
    obtain ⟨subtract, hsubtract, -⟩ := bind_eq_ok_iff.mp h
    exact ih hsubtract hpredicate
  | or left right ihl ihr =>
    obtain ⟨l, hl, h⟩ := bind_eq_ok_iff.mp h
    obtain ⟨r, hr, -⟩ := bind_eq_ok_iff.mp h
    exact (List.mem_append.mp hpredicate).elim (ihl hl) (ihr hr)
  | and left right ihl ihr =>
    obtain ⟨l, hl, h⟩ := bind_eq_ok_iff.mp h
    obtain ⟨r, hr, -⟩ := bind_eq_ok_iff.mp h
    exact (List.mem_append.mp hpredicate).elim (ihl hl) (ihr hr)

theorem literals_append (left right : Filter) {filter : Filter}
    (hfilter : filter.predicates = left.predicates ++ right.predicates)
    (hliterals : ∀ p, filter.literals p ⊆ literals p) :
    (∀ p, left.literals p ⊆ literals p) ∧ ∀ p, right.literals p ⊆ literals p := by
  have hsplit : ∀ p, left.literals p ++ right.literals p ⊆ literals p := by
    intro p
    have hp := hliterals p
    rwa [Filter.literals, hfilter, List.flatMap_append] at hp
  exact ⟨fun p => (List.append_subset.mp (hsplit p)).1, fun p => (List.append_subset.mp (hsplit p)).2⟩

/-- What a part of a filter is compiled to selects what the part holds of, and can be merged with
its neighbours. -/
theorem selects_ofFilterUnder {filter : Filter}
    (h : ofFilterUnder catalog negated filter = .ok selector)
    (hsettled : ∀ p, keywordsBase? p = none → literals p ≠ [] →
      Settled (literals p) (propertyValues id doc p))
    (hliterals : ∀ p, filter.literals p ⊆ literals p) :
    selector.selects id doc = filter.holds catalog id doc ∧ selector.Within literals := by
  induction filter generalizing negated selector with
  | leaf predicate =>
    refine ⟨?_, within_ofPredicate h hliterals⟩
    have halone : ofFilter catalog (.leaf predicate) = .ok selector := ofPredicate_of_negated h
    rw [Filter.holds, halone]
  | not operand ih =>
    obtain ⟨subtract, hsubtract, heq⟩ := bind_eq_ok_iff.mp h
    obtain rfl := Except.ok.inj heq
    refine ⟨?_, trivial⟩
    rw [Filter.holds, ← (ih hsubtract hliterals).1, complement, selects,
      SliceGroup.selects_fullScan, Bool.true_and]
  | or left right ihl ihr =>
    obtain ⟨hleft, hright⟩ := literals_append left right rfl hliterals
    obtain ⟨l, hl, h⟩ := bind_eq_ok_iff.mp h
    obtain ⟨r, hr, heq⟩ := bind_eq_ok_iff.mp h
    obtain rfl := Except.ok.inj heq
    refine ⟨?_, trivial⟩
    rw [Filter.holds, ← (ihl hl hleft).1, ← (ihr hr hright).1, selects]
  | and left right ihl ihr =>
    obtain ⟨hleft, hright⟩ := literals_append left right rfl hliterals
    obtain ⟨l, hl, h⟩ := bind_eq_ok_iff.mp h
    obtain ⟨r, hr, heq⟩ := bind_eq_ok_iff.mp h
    obtain rfl := Except.ok.inj heq
    obtain ⟨hlselects, hlwithin⟩ := ihl hl hleft
    obtain ⟨hrselects, hrwithin⟩ := ihr hr hright
    rw [Filter.holds, ← hlselects, ← hrselects]
    exact selects_conjoin hsettled (wellFormed_ofFilterUnder hl) (wellFormed_ofFilterUnder hr)
      hlwithin hrwithin _

/-- **A compiled filter selects the entities of which the filter holds**, if the properties that it
compares are settled. Each of its predicates can be compiled on its own, too. -/
theorem selects_ofFilter {filter : Filter} (h : ofFilter catalog filter = .ok selector)
    (hsettled : filter.SettledFor id doc) :
    (∀ predicate ∈ filter.predicates,
      ∃ alone, ofFilter catalog (.leaf predicate) = .ok alone) ∧
    selector.selects id doc = filter.holds catalog id doc :=
  ⟨fun _ hpredicate => exists_ofFilter_leaf h hpredicate,
    (selects_ofFilterUnder h hsettled fun _ => List.Subset.refl _).1⟩

/-- A comparison is merged into the group on its right, where it narrows a slice. -/
theorem selects_narrowed :
    let filter : Filter := .and (.leaf (.compare "a" .greater (.int 2)))
      (.and (.leaf (.compare "a" .lessEqual (.int 7))) (.leaf (.compare "b" .equal (.string "x*"))))
    let doc : Json := .object [("a", .number (.natural 5)), ("b", .string "xy")]
    ∃ selector, ofFilter .everything filter = .ok selector ∧ filter.SettledFor 1 doc ∧
      selector.selects 1 doc = filter.holds .everything 1 doc ∧
      filter.holds .everything 1 doc = true := by
  intro filter doc
  have hvalues : propertyValues 1 doc "a" = [.int 5] ∧ propertyValues 1 doc "b" = [.string "xy"] := by
    decide +kernel
  have hsettled : filter.SettledFor 1 doc := by
    intro p _ hne
    by_cases ha : "a" = p
    · subst ha
      have hliterals : filter.literals "a" = [.int 2, .int 7] := by decide +kernel
      rw [hvalues.1, hliterals]
      exact ⟨by decide, by decide, .inl (by simp)⟩
    · by_cases hb : "b" = p
      · subst hb
        have hliterals : filter.literals "b" = [.string "x*"] := by decide +kernel
        rw [hvalues.2, hliterals]
        exact ⟨by decide, by decide, .inl (by simp)⟩
      · simp [filter, Filter.literals, Filter.predicates, ha, hb] at hne
  exact ⟨_, rfl, hsettled, (selects_ofFilter rfl hsettled).2, by decide +kernel⟩

end Selector

end EntityQuery
