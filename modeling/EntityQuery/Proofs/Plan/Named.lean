import EntityQuery.Proofs.Plan.Parts
import EntityQuery.Proofs.Query.Names

/-! # Names in plans

All that a compiled query asks about is called by names. That is so of the words of a text property
too, which are kept under a name of their own, and of the ids that complements are taken within.

* `Slice.Named`: a slice over a name that is not scanned from the greatest id down.
* `Selector.named_ofFilterUnder`: compiling a filter over names.
* `Plan.named_ofText`: **the plan of a query text calls all by names**. -/

namespace EntityQuery

open Query

/-! ## Names -/

theorem Query.IsName.keywords {s : String} (hs : IsName s) : IsName (s ++ keywordsSuffix) where
  nonempty := by simp [keywordsSuffix]
  continues := by
    intro c hc
    rw [String.toList_append] at hc
    rcases List.mem_append.mp hc with hc | hc
    · exact hs.continues c hc
    · have hsuffix : keywordsSuffix.toList.all continuesName = true := by decide
      exact List.all_eq_true.mp hsuffix c hc

theorem isName_id : IsName idProperty := ⟨by decide, List.all_eq_true.mp (by decide)⟩

/-! ## Compiled selectors -/

/-- A slice over a name that is not scanned from the greatest id down. -/
structure Slice.Named (s : Slice) : Prop where
  isName : IsName s.property
  forward : s.reversed = false

theorem Slice.Named.narrow {s t : Slice} (hs : s.Named) (ht : t.Named) : (s.narrow t).Named where
  isName := hs.isName
  forward := by rw [Slice.narrow, hs.forward, ht.forward]; rfl

theorem Slice.named_ofPattern {property : String} (hproperty : IsName property) (text : String) :
    (Slice.ofPattern property text).Named := by
  unfold Slice.ofPattern
  split <;> exact ⟨hproperty, rfl⟩

theorem Predicate.gives_named {predicate : Predicate} (hname : IsName predicate.property) :
    predicate.Gives Slice.Named (IsName ·.property) := by
  cases predicate with
  | compare property comparison value =>
    show (Slice.ofComparison property comparison value).Named
    unfold Slice.ofComparison
    split
    · exact Slice.named_ofPattern hname _
    all_goals exact ⟨hname, rfl⟩
  | contains property text => exact Slice.named_ofPattern hname.keywords _
  | within area => exact hname

/-- All properties of a selector are names. -/
def Selector.Named (s : Selector) : Prop := s.Parts Slice.Named (IsName ·.property)

theorem Selector.named_ofFilterUnder {catalog : Catalog} {negated : Bool} {filter : Filter}
    {selector : Selector} (h : ofFilterUnder catalog negated filter = .ok selector)
    (hnames : ∀ p ∈ filter.predicates, IsName p.property) : selector.Named :=
  parts_ofFilterUnder h (fun _ _ hs ht _ => hs.narrow ht) fun p hp =>
    Predicate.gives_named (hnames p hp)

namespace Plan

variable {catalog : Catalog} {text : String} {p : Plan}

/-- What is selected and sorted by is called by names. -/
structure Named (p : Plan) : Prop where
  selector : p.selector.Named
  sort : ∀ term ∈ p.sort, IsName term.property

/-- **The plan of a query text calls all by names.** -/
theorem named_ofText (h : Plan.ofText catalog text = .ok p) : p.Named := by
  obtain ⟨query, hquery, hplan⟩ := bind_eq_ok_iff.mp h
  have hnames : ∀ s ∈ query.properties, IsName s :=
    fun s => isName_of_parse (mapError_eq_ok_iff.mp hquery)
  obtain ⟨hselector, -, hsort⟩ := eq_of_ofQuery (mapError_eq_ok_iff.mp hplan)
  constructor
  · cases hfilter : query.filter with
    | none =>
      rw [hfilter] at hselector
      rw [← Except.ok.inj hselector]
      exact Selector.parts_single ⟨isName_id, rfl⟩
    | some filter =>
      rw [hfilter] at hselector
      refine Selector.named_ofFilterUnder hselector fun p hp => hnames _ ?_
      simp only [properties, hfilter, Option.elim_some]
      exact List.mem_append_left _ (List.mem_map_of_mem hp)
  · intro term hterm
    rw [hsort] at hterm
    exact hnames _ (List.mem_append_right _ (List.mem_map_of_mem hterm))

end Plan

end EntityQuery
