import EntityQuery.Plan.Explain
import EntityQuery.Proofs.Plan.Shape

/-! # Redacted explanations

An explanation with its literals hidden shows nothing of them. To erase a query is to put one fixed
literal in the place of each of its literals and the equality in the place of each comparison; to
erase a selector is to open its ranges and to move its areas to one fixed place. Which slices are
merged, and in which order they come to stand, depends on their properties alone, so compiling goes
along with erasing, and a redacted explanation is that of the erased query.

* `Selector.explain_erased`: a redacted explanation is kept by erasing.
* `Selector.erased_conjoin`: so is the way in which groups of slices are merged.
* `Selector.exists_ofFilterUnder_erased`, `Plan.exists_ofQuery_erased`: what compiles still compiles
  when it is erased, to the same up to erasing.
* `Plan.explain_redacted`: queries that differ in literals and comparisons only have one redacted
  explanation. -/

namespace EntityQuery

/-! ## Erasing -/

/-- The area with its measures at zero. -/
def GeoArea.erased (area : GeoArea) : GeoArea :=
  ⟨area.property, Binary64.ofInt64 0, Binary64.ofInt64 0, Binary64.ofInt64 0⟩

/-- The predicate with a fixed comparison and fixed literals. -/
def Predicate.erased : Predicate → Predicate
  | compare property _ _ => compare property .equal (.bool false)
  | contains property _ => contains property ""
  | within area => within area.erased

/-- The filter with its predicates erased. -/
def Filter.erased : Filter → Filter
  | and left right => and left.erased right.erased
  | or left right => or left.erased right.erased
  | not operand => not operand.erased
  | leaf predicate => leaf predicate.erased

/-- The query with its filter erased; its fields and its terms to sort by are no literals. -/
def Query.erased (q : Query) : Query := { q with filter := q.filter.map Filter.erased }

/-- The slice without its bounds. -/
def Slice.erased (s : Slice) : Slice := ⟨s.property, none, none, false⟩

/-- The group with its slices erased. -/
def SliceGroup.erased (g : SliceGroup) : SliceGroup := ⟨g.slices.map Slice.erased⟩

/-- The selector with its groups erased and its areas at one place. -/
def Selector.erased : Selector → Selector
  | and left right => and left.erased right.erased
  | or left right => or left.erased right.erased
  | not subtract keep => not subtract.erased keep.erased
  | slices group => slices group.erased
  | within area => within area.erased

theorem GeoArea.property_erased (area : GeoArea) : area.erased.property = area.property := rfl

theorem GeoArea.invalid?_erased (area : GeoArea) : area.erased.invalid? = none := by
  have hdistance : Binary64.ofInt64 0 ≤ Binary64.ofInt64 0 := by decide +kernel
  have hlatitude : (Double.finite (.ofInt64 0)).isBetween (-90) 90 = true := by decide +kernel
  have hlongitude : (Double.finite (.ofInt64 0)).isBetween (-180) 180 = true := by decide +kernel
  simp [invalid?, erased, Double.isFinite, hdistance, hlatitude, hlongitude]

theorem Filter.isRangeLeaf_erased (filter : Filter) :
    filter.erased.isRangeLeaf = filter.isRangeLeaf := by
  cases filter with
  | leaf predicate => cases predicate <;> rfl
  | _ => rfl

/-! ## Merging -/

namespace Slice

@[simp]
theorem property_erased (s : Slice) : s.erased.property = s.property := rfl

@[simp]
theorem isKeywords_erased (s : Slice) : s.erased.isKeywords = s.isKeywords := rfl

theorem erased_narrow (earlier later : Slice) :
    (earlier.narrow later).erased = earlier.erased.narrow later.erased := rfl

end Slice

namespace SliceGroup

theorem isNone_get?_erased (g : SliceGroup) (property : String) :
    (g.erased.get? property).isNone = (g.get? property).isNone := by
  have hproperty : (fun s : Slice => decide (s.property = property)) ∘ Slice.erased =
      fun s => decide (s.property = property) := rfl
  rw [get?, erased, List.find?_map, hproperty, Option.isNone_map, get?]

theorem canAbsorb_erased (g other : SliceGroup) :
    g.erased.canAbsorb other.erased = g.canAbsorb other := by
  unfold canAbsorb
  rw [erased, List.all_map]
  refine List.all_congr rfl fun s => ?_
  rw [Function.comp_apply, Slice.isKeywords_erased, Slice.property_erased]
  exact congrArg _ (isNone_get?_erased g s.property)

theorem map_erased_upsert {change change' : Slice → Slice}
    (hchange : ∀ s, (change s).erased = change' s.erased) (slice : Slice) (l : List Slice) :
    (upsert change slice l).map Slice.erased = upsert change' slice.erased (l.map Slice.erased) := by
  induction l with
  | nil => rfl
  | cons s rest ih =>
    by_cases hs : s.property = slice.property
    · simp [upsert, hs, hchange]
    · simp [upsert, hs, ih]

theorem erased_absorb (g later : SliceGroup) :
    (g.absorb later).erased = g.erased.absorb later.erased := by
  unfold absorb
  rw [show later.erased.slices = later.slices.map Slice.erased from rfl, List.foldl_map]
  refine (List.foldl_hom erased fun g s => ?_).symm
  exact congrArg mk (map_erased_upsert (fun s => Slice.erased_narrow s _) _ _).symm

theorem erased_absorbEarlier (g earlier : SliceGroup) :
    (g.absorbEarlier earlier).erased = g.erased.absorbEarlier earlier.erased := by
  unfold absorbEarlier
  rw [show earlier.erased.slices = earlier.slices.map Slice.erased from rfl, List.foldl_map]
  refine (List.foldl_hom erased fun g s => ?_).symm
  exact congrArg mk (map_erased_upsert (fun s => Slice.erased_narrow _ s) _ _).symm

end SliceGroup

namespace Selector

/-- **Erased selectors are merged as they are themselves.** -/
theorem erased_conjoin (left right : Selector) (rightIsLeaf : Bool) :
    (conjoin left right rightIsLeaf).erased = conjoin left.erased right.erased rightIsLeaf := by
  cases left <;> cases right <;> try rfl
  case slices.slices l r =>
    simp only [conjoin, erased, SliceGroup.canAbsorb_erased]
    split_ifs
    · rw [erased, SliceGroup.erased_absorb]
    · rfl
    · rw [erased, SliceGroup.erased_absorbEarlier]
    · rfl

/-! ## Compiling -/

variable {catalog : Catalog} {negated : Bool} {selector : Selector}

theorem erased_ofWord (property text text' : String) :
    (Slice.ofWord property text).erased = (Slice.ofWord property text').erased := by
  rw [Slice.erased, Slice.erased, Slice.ofWord, Slice.ofWord, Slice.property_ofPattern,
    Slice.property_ofPattern]

theorem exists_ofPredicate_erased {predicate : Predicate}
    (h : ofPredicate catalog negated predicate = .ok selector) :
    ∃ alike, ofPredicate catalog negated predicate.erased = .ok alike ∧
      alike.erased = selector.erased := by
  cases predicate with
  | compare property comparison value =>
    simp only [ofPredicate] at h
    split_ifs at h with hindexed
    obtain rfl := Except.ok.inj h
    refine ⟨_, if_pos hindexed, ?_⟩
    simp only [erased, SliceGroup.erased, SliceGroup.single, List.map_cons, List.map_nil,
      Slice.erased, Slice.property_ofComparison]
  | contains property text =>
    simp only [ofPredicate] at h
    split_ifs at h with hindexed
    obtain rfl := Except.ok.inj h
    refine ⟨_, if_pos hindexed, ?_⟩
    simp only [erased, SliceGroup.erased, SliceGroup.single, List.map_cons, List.map_nil,
      erased_ofWord property "" text]
  | within area =>
    simp only [ofPredicate] at h
    split_ifs at h with hnegated hindexed
    split at h
    · cases h
    · obtain rfl := Except.ok.inj h
      refine ⟨within area.erased, ?_, rfl⟩
      simp only [Predicate.erased, ofPredicate, GeoArea.invalid?_erased, GeoArea.property_erased]
      rw [if_neg hnegated, if_neg hindexed]

/-- **What a filter compiles to is, up to erasing, what the erased filter compiles to.** -/
theorem exists_ofFilterUnder_erased {filter : Filter}
    (h : ofFilterUnder catalog negated filter = .ok selector) :
    ∃ alike, ofFilterUnder catalog negated filter.erased = .ok alike ∧
      alike.erased = selector.erased := by
  induction filter generalizing negated selector with
  | leaf predicate => exact exists_ofPredicate_erased h
  | not operand ih =>
    obtain ⟨subtract, hsubtract, heq⟩ := bind_eq_ok_iff.mp h
    obtain rfl := Except.ok.inj heq
    obtain ⟨alike, halike, herased⟩ := ih hsubtract
    refine ⟨complement alike, bind_eq_ok_iff.mpr ⟨alike, halike, rfl⟩, ?_⟩
    rw [complement, complement, erased, erased, herased]
  | or left right ihl ihr =>
    obtain ⟨l, hl, h⟩ := bind_eq_ok_iff.mp h
    obtain ⟨r, hr, heq⟩ := bind_eq_ok_iff.mp h
    obtain rfl := Except.ok.inj heq
    obtain ⟨l', hl', hlerased⟩ := ihl hl
    obtain ⟨r', hr', hrerased⟩ := ihr hr
    refine ⟨or l' r', bind_eq_ok_iff.mpr ⟨l', hl', bind_eq_ok_iff.mpr ⟨r', hr', rfl⟩⟩, ?_⟩
    rw [erased, erased, hlerased, hrerased]
  | and left right ihl ihr =>
    obtain ⟨l, hl, h⟩ := bind_eq_ok_iff.mp h
    obtain ⟨r, hr, heq⟩ := bind_eq_ok_iff.mp h
    obtain rfl := Except.ok.inj heq
    obtain ⟨l', hl', hlerased⟩ := ihl hl
    obtain ⟨r', hr', hrerased⟩ := ihr hr
    refine ⟨conjoin l' r' right.erased.isRangeLeaf,
      bind_eq_ok_iff.mpr ⟨l', hl', bind_eq_ok_iff.mpr ⟨r', hr', rfl⟩⟩, ?_⟩
    rw [erased_conjoin, erased_conjoin, hlerased, hrerased, Filter.isRangeLeaf_erased]

/-! ## Explaining -/

theorem operatorLine_congr {operator operator' : String} {parameters parameters' : List Parameter}
    (redact : Bool) (depth : Nat) (hoperator : operator = operator')
    (hparameters : parameters.map (Parameter.text redact) =
      parameters'.map (Parameter.text redact)) :
    operatorLine redact depth operator parameters =
      operatorLine redact depth operator' parameters' := by
  have hspaced : ∀ parameters : List Parameter,
      (parameters.map fun p => " " ++ p.text redact) =
        (parameters.map (Parameter.text redact)).map fun t => " " ++ t := fun parameters => by
    rw [List.map_map]
    rfl
  rw [operatorLine, operatorLine, hspaced, hspaced, hoperator, hparameters]

theorem operatorLine_erased (depth : Nat) (s : Selector) :
    operatorLine true depth s.erased.operator s.erased.parameters =
      operatorLine true depth s.operator s.parameters := by
  refine operatorLine_congr true depth (by cases s <;> rfl) ?_
  cases s with
  | slices group =>
    simp only [erased, parameters, SliceGroup.erased, List.map_map]
    rfl
  | _ => rfl

/-- **A redacted explanation is that of the erased selector.** -/
theorem explain_erased (depth : Nat) (s : Selector) :
    s.erased.explain true depth = s.explain true depth := by
  induction s generalizing depth with
  | and left right ihl ihr =>
    exact congrArg₂ (· ++ ·) (operatorLine_erased depth (and left right))
      (congrArg₂ (· ++ ·) (ihl (depth + 1)) (ihr (depth + 1)))
  | or left right ihl ihr =>
    exact congrArg₂ (· ++ ·) (operatorLine_erased depth (or left right))
      (congrArg₂ (· ++ ·) (ihl (depth + 1)) (ihr (depth + 1)))
  | not subtract keep ih =>
    exact congrArg₂ (· ++ ·) (operatorLine_erased depth (not subtract keep)) (ih (depth + 1))
  | slices group =>
    exact congrArg (· ++ "") (operatorLine_erased depth (slices group))
  | within area =>
    exact congrArg (· ++ "") (operatorLine_erased depth (within area))

end Selector

namespace Plan

variable {catalog : Catalog} {plan plan' : Plan} {q q' : Query}

/-- **A redacted explanation is that of the plan of the erased query**, which can be compiled, too. -/
theorem exists_ofQuery_erased (h : Plan.ofQuery catalog q = .ok plan) :
    ∃ alike, Plan.ofQuery catalog q.erased = .ok alike ∧
      alike.explain true = plan.explain true := by
  obtain ⟨hselector, hsortable, hplan⟩ := ofQuery_eq_ok_iff.mp h
  have hcompiles : ∃ selector, q.erased.filter.elim (.ok .everything) (Selector.ofFilter catalog) =
      .ok selector ∧ selector.erased = plan.selector.erased := by
    unfold Query.erased
    cases hfilter : q.filter with
    | none =>
      rw [hfilter] at hselector
      exact ⟨plan.selector, hselector, rfl⟩
    | some filter =>
      rw [hfilter] at hselector
      exact Selector.exists_ofFilterUnder_erased hselector
  obtain ⟨selector, hcompiles, herased⟩ := hcompiles
  refine ⟨⟨selector, q.selection, q.order⟩,
    ofQuery_eq_ok_iff.mpr ⟨hcompiles, hsortable, rfl⟩, ?_⟩
  have hexplain : ∀ depth, selector.explain true depth = plan.selector.explain true depth := by
    intro depth
    rw [← Selector.explain_erased, herased, Selector.explain_erased]
  rw [hplan, explain, explain, sortParameters, sortParameters, hexplain, hexplain]

/-- **Queries that differ in their literals and comparisons only have one redacted explanation.** -/
theorem explain_redacted (hq : Plan.ofQuery catalog q = .ok plan)
    (hq' : Plan.ofQuery catalog q' = .ok plan') (herased : q.erased = q'.erased) :
    plan.explain true = plan'.explain true := by
  obtain ⟨alike, halike, hexplain⟩ := exists_ofQuery_erased hq
  obtain ⟨alike', halike', hexplain'⟩ := exists_ofQuery_erased hq'
  rw [herased, halike'] at halike
  rw [← hexplain, ← hexplain', Except.ok.inj halike]

/-- Bounds that narrow to one range and bounds that do not compare are redacted alike. -/
theorem explain_redacted_narrowed :
    let area (distance : Int64) : GeoArea :=
      ⟨"g", .finite (.ofInt64 distance), .finite (.ofInt64 1), .finite (.ofInt64 2)⟩
    let query (comparison : Comparison) (low high : Scalar) (word : String) (distance : Int64) :
        Query :=
      { selection := .all
        filter := some (.or
          (.and (.leaf (.compare "a" comparison low))
            (.and (.leaf (.compare "a" .less high)) (.leaf (.contains "t" word))))
          (.and (.not (.leaf (.compare "b" .equal high))) (.leaf (.within (area distance)))))
        order := [⟨"b", .descending⟩] }
    let plan (a t b : Slice) (distance : Int64) : Plan :=
      { selector := .or (.slices ⟨[a, t]⟩)
          (.and (.not (.slices ⟨[b]⟩) .fullScan) (.within (area distance)))
        selection := .all
        sort := [⟨"b", .descending⟩] }
    let q := query .greater (.int 2) (.int 7) "x*" 10
    let p := plan ⟨"a", some ⟨.int 2, false⟩, some ⟨.int 7, false⟩, false⟩
      (.startingWith "t.keywords" ['x']) (.exact "b" (.int 7)) 10
    let q' := query .equal (.string "z*") (.bool true) "Word" 500
    let p' := plan ⟨"a", some ⟨.string "z", true⟩, some ⟨.bool true, false⟩, false⟩
      (.exact "t.keywords" (.string "word")) (.exact "b" (.bool true)) 500
    Plan.ofQuery .everything q = .ok p ∧ Plan.ofQuery .everything q' = .ok p' ∧
      q.erased = q'.erased ∧ p.explain true = p'.explain true ∧
      p.explain false ≠ p'.explain false := by
  intro area query plan q p q' p'
  have hq : Plan.ofQuery .everything q = .ok p := by decide +kernel
  have hq' : Plan.ofQuery .everything q' = .ok p' := by decide +kernel
  have herased : q.erased = q'.erased := by decide +kernel
  exact ⟨hq, hq', herased, explain_redacted hq hq' herased, by decide +kernel⟩

end Plan

end EntityQuery
