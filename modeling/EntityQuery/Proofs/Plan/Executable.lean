import EntityQuery.Proofs.Plan.Parts
import EntityQuery.Proofs.Slice.Lookup
import Mathlib.Data.List.Basic

/-! # What can be executed

Executing a selector takes things for granted that compiling sees to: a group without slices would
bring nothing though it selects everything, what a complement is taken within is not looked at next
to `and`, and no index enumerates what lies outside an area. The slices over words come through
unchanged, since groups that share words are not merged: each is that of a predicate on its own.

* `Selector.allSlices`, `Selector.areas`: what a selector consists of.
* `Selector.areasOutside_ofFilterUnder`: no area stands below a complement.
* `Selector.words_ofFilterUnder`: slices over words come from predicates, and each counts once.
* `Selector.executable_ofFilter`: **what a filter is compiled to can be executed**. -/

namespace EntityQuery

/-! ## Slices over words in merged groups -/

namespace SliceGroup

variable {g earlier later : SliceGroup} {t : Slice} {slices l : List Slice}

theorem filter_isKeywords_upsert {change : Slice → Slice}
    (hchange : ∀ s, s.property = t.property → (change s).property = t.property)
    (hnew : t.isKeywords = true → t.property ∉ l.map Slice.property) :
    (upsert change t l).filter Slice.isKeywords =
      l.filter Slice.isKeywords ++ [t].filter Slice.isKeywords := by
  induction l with
  | nil => rfl
  | cons s rest ih =>
    simp only [List.map_cons, List.mem_cons, not_or] at hnew
    by_cases hs : s.property = t.property
    · have ht : t.isKeywords = false := by
        rw [Bool.eq_false_iff]
        exact fun ht => (hnew ht).1 hs.symm
      have hold : s.isKeywords = false := by rw [Slice.isKeywords, hs]; exact ht
      have hchanged : (change s).isKeywords = false := by
        rw [Slice.isKeywords, hchange s hs]
        exact ht
      simp [upsert, hs, ht, hold, hchanged]
    · simp only [upsert, hs, if_false, List.filter_cons, ih fun ht => (hnew ht).2]
      split <;> simp

/-- Adding slices over different properties leaves the slices over words as they are, if all words
that are added are new. -/
theorem filter_isKeywords_foldl_upsert (change : Slice → Slice → Slice)
    (hchange : ∀ t s, s.property = t.property → (change t s).property = t.property)
    (hl : (l.map Slice.property).Nodup)
    (hnew : ∀ t ∈ l, t.isKeywords = true → t.property ∉ slices.map Slice.property) :
    (l.foldl (fun acc t => upsert (change t) t acc) slices).filter Slice.isKeywords =
      slices.filter Slice.isKeywords ++ l.filter Slice.isKeywords := by
  induction l generalizing slices with
  | nil => simp
  | cons t l ih =>
    rw [List.map_cons, List.nodup_cons] at hl
    rw [List.foldl_cons, ih hl.2, filter_isKeywords_upsert (hchange t) (hnew t (by simp)),
      List.append_assoc, ← List.filter_append, List.singleton_append]
    intro u hu hwords
    rw [properties_upsert (hchange t)]
    have hold := hnew u (by simp [hu]) hwords
    have hne : u.property ≠ t.property := fun heq => hl.1 (heq ▸ List.mem_map_of_mem hu)
    split
    · exact hold
    · simpa [hne] using hold

theorem not_mem_of_shareNoWords (h : g.ShareNoWords later) (ht : t ∈ later.slices)
    (hwords : t.isKeywords = true) : t.property ∉ g.properties := by
  intro hg
  have hnone := h t.property hg (List.mem_map_of_mem ht)
  rw [Slice.isKeywords, hnone] at hwords
  cases hwords

theorem filter_isKeywords_absorb (hlater : later.WellFormed) (h : g.canAbsorb later = true) :
    (g.absorb later).slices.filter Slice.isKeywords =
      g.slices.filter Slice.isKeywords ++ later.slices.filter Slice.isKeywords := by
  rw [slices_absorb]
  exact filter_isKeywords_foldl_upsert (fun t s => s.narrow t) (fun _ _ hs => hs) hlater.distinct
    fun t ht => not_mem_of_shareNoWords (canAbsorb_iff.mp h) ht

theorem filter_isKeywords_absorbEarlier (hearlier : earlier.WellFormed)
    (h : g.canAbsorb earlier = true) :
    (g.absorbEarlier earlier).slices.filter Slice.isKeywords =
      g.slices.filter Slice.isKeywords ++ earlier.slices.filter Slice.isKeywords := by
  rw [slices_absorbEarlier]
  exact filter_isKeywords_foldl_upsert (fun t s => t.narrow s) (fun _ _ _ => rfl) hearlier.distinct
    fun t ht => not_mem_of_shareNoWords (canAbsorb_iff.mp h) ht

end SliceGroup

namespace Selector

variable {catalog : Catalog} {negated : Bool} {selector left right : Selector} {filter : Filter}
  {P : Slice → Prop} {Q : GeoArea → Prop}

/-! ## Areas -/

/-- The areas of a selector, at any depth. -/
def areas : Selector → List GeoArea
  | and left right | or left right => left.areas ++ right.areas
  | not subtract _ => subtract.areas
  | slices _ => []
  | within area => [area]

/-- No area stands below a complement. -/
def AreasOutside : Selector → Prop
  | and left right | or left right => left.AreasOutside ∧ right.AreasOutside
  | not subtract _ => subtract.areas = []
  | slices _ | within _ => True

theorem areas_conjoin (rightIsLeaf : Bool) :
    (conjoin left right rightIsLeaf).areas = left.areas ++ right.areas := by
  unfold conjoin
  split
  · split_ifs <;> rfl
  · rfl

theorem AreasOutside.conjoin (hleft : left.AreasOutside) (hright : right.AreasOutside)
    (rightIsLeaf : Bool) : (Selector.conjoin left right rightIsLeaf).AreasOutside := by
  unfold Selector.conjoin
  split
  · split_ifs
    · trivial
    · exact ⟨trivial, trivial⟩
    · trivial
    · exact ⟨trivial, trivial⟩
  · exact ⟨hleft, hright⟩

theorem Compiled.areas_eq_nil (h : Compiled negated filter selector) (hnegated : negated = true) :
    selector.areas = [] := by
  induction h with
  | slice h => rfl
  | area => cases hnegated
  | not _ ih => exact ih rfl
  | or _ _ ihl ihr => rw [areas, ihl hnegated, ihr hnegated, List.append_nil]
  | and _ _ ihl ihr => rw [areas_conjoin, ihl hnegated, ihr hnegated, List.append_nil]

/-- **No area of a compiled filter stands below a complement.** -/
theorem Compiled.areasOutside (h : Compiled negated filter selector) : selector.AreasOutside := by
  induction h with
  | slice h => trivial
  | area => trivial
  | not h _ => exact h.areas_eq_nil rfl
  | or _ _ ihl ihr => exact ⟨ihl, ihr⟩
  | and _ _ ihl ihr => exact ihl.conjoin ihr _

/-! ## Slices -/

/-- The slices of a selector, at any depth, those that complements are taken within included. -/
def allSlices : Selector → List Slice
  | and left right | or left right => left.allSlices ++ right.allSlices
  | not subtract keep => subtract.allSlices ++ keep.slices
  | slices group => group.slices
  | within _ => []

/-- What holds of the parts of a selector holds of all its slices, if it holds of the scan of all
ids. -/
theorem Parts.forall_allSlices (hparts : selector.Parts P Q)
    (hfull : ∀ s ∈ SliceGroup.fullScan.slices, P s) : ∀ s ∈ selector.allSlices, P s := by
  induction selector with
  | and left right ihl ihr => exact List.forall_mem_append.mpr ⟨ihl hparts.1, ihr hparts.2⟩
  | or left right ihl ihr => exact List.forall_mem_append.mpr ⟨ihl hparts.1, ihr hparts.2⟩
  | not subtract keep ih => exact List.forall_mem_append.mpr ⟨ih hparts.1, hparts.2 ▸ hfull⟩
  | slices group => exact hparts
  | within area => exact fun s hs => absurd hs List.not_mem_nil

theorem reversed_of_gives (predicate : Predicate) :
    predicate.Gives (·.reversed = false) fun _ => True := by
  have hpattern : ∀ property text, (Slice.ofPattern property text).reversed = false := by
    intro property text
    unfold Slice.ofPattern
    split <;> rfl
  cases predicate with
  | compare property comparison value =>
    show (Slice.ofComparison property comparison value).reversed = false
    unfold Slice.ofComparison
    split
    · exact hpattern _ _
    all_goals rfl
  | contains property text => exact hpattern _ _
  | within area => trivial

/-- **All slices of a compiled filter go from the least id up.** -/
theorem Compiled.reversed_eq_false (h : Compiled negated filter selector) :
    ∀ s ∈ selector.allSlices, s.reversed = false := by
  have hparts : selector.Parts (·.reversed = false) fun _ => True :=
    h.parts (fun s t hs ht _ => by simp [Slice.narrow, hs, ht]) fun p _ => reversed_of_gives p
  exact hparts.forall_allSlices (by simp [SliceGroup.fullScan, SliceGroup.single])

/-! ## Words -/

/-- The slices of a selector over words. -/
def wordSlices (s : Selector) : List Slice := s.allSlices.filter Slice.isKeywords

theorem wordSlices_complement : (complement selector).wordSlices = selector.wordSlices := by
  have hfull : SliceGroup.fullScan.slices.filter Slice.isKeywords = [] := by decide +kernel
  rw [wordSlices, complement, allSlices, List.filter_append, hfull, List.append_nil, wordSlices]

theorem wordSlices_conjoin (hleft : left.WellFormed) (hright : right.WellFormed)
    (rightIsLeaf : Bool) :
    (conjoin left right rightIsLeaf).wordSlices.Perm (left.wordSlices ++ right.wordSlices) := by
  have hand : (and left right).wordSlices = left.wordSlices ++ right.wordSlices :=
    List.filter_append ..
  unfold conjoin
  split
  · rename_i l r
    split_ifs with _ hcan hcan
    · exact .of_eq (SliceGroup.filter_isKeywords_absorb hright hcan)
    · exact .of_eq hand
    · exact (List.Perm.of_eq (SliceGroup.filter_isKeywords_absorbEarlier hleft hcan)).trans
        List.perm_append_comm
    · exact .of_eq hand
  · exact .of_eq hand

/-- **The slices over words are those that the predicates are compiled to.** -/
theorem Compiled.wordSlices_perm (h : Compiled negated filter selector) :
    selector.wordSlices.Perm
      ((filter.predicates.filterMap Predicate.slice?).filter Slice.isKeywords) := by
  induction h with
  | slice h => simp [wordSlices, allSlices, SliceGroup.single, Filter.predicates, h]
  | area => simp [wordSlices, allSlices, Filter.predicates, Predicate.slice?]
  | not _ ih => rwa [wordSlices_complement]
  | or _ _ ihl ihr =>
    rw [Filter.predicates, List.filterMap_append, List.filter_append, wordSlices, allSlices,
      List.filter_append]
    exact ihl.append ihr
  | and hl hr ihl ihr =>
    rw [Filter.predicates, List.filterMap_append, List.filter_append]
    exact (wordSlices_conjoin hl.wellFormed hr.wellFormed _).trans (ihl.append ihr)

/-- The slices that a predicate is compiled to on its own. -/
def slicesAlone (catalog : Catalog) (predicate : Predicate) : List Slice :=
  match ofFilter catalog (.leaf predicate) with
  | .ok alone => alone.allSlices
  | .error _ => []

theorem slicesAlone_eq {predicate : Predicate}
    (h : ∃ alone, ofFilter catalog (.leaf predicate) = .ok alone) :
    slicesAlone catalog predicate = predicate.slice?.toList := by
  obtain ⟨alone, halone⟩ := h
  rw [slicesAlone, halone]
  cases compiled_of_ofFilterUnder halone with
  | slice h => simp [h, allSlices, SliceGroup.single]
  | area => rfl

/-- **What a filter is compiled to can be executed**: its groups are not empty and have no two
slices over one property, complements are taken within all ids and hold no areas, no slice goes from
the greatest id down, and its slices over words are those that the predicates are compiled to on
their own, which they all can be. -/
theorem executable_ofFilter (h : ofFilter catalog filter = .ok selector) :
    selector.WellFormed ∧ selector.AreasOutside ∧
      (∀ s ∈ selector.allSlices, s.reversed = false) ∧
      (∀ predicate ∈ filter.predicates, ∃ alone,
        ofFilter catalog (.leaf predicate) = .ok alone) ∧
      (selector.allSlices.filter Slice.isKeywords).Perm
        ((filter.predicates.flatMap (slicesAlone catalog)).filter Slice.isKeywords) := by
  have hcompiled : Compiled false filter selector := compiled_of_ofFilterUnder h
  have halone : ∀ predicate ∈ filter.predicates, ∃ alone,
      ofFilter catalog (.leaf predicate) = .ok alone := fun _ hp => exists_ofFilter_leaf h hp
  refine ⟨hcompiled.wellFormed, hcompiled.areasOutside, hcompiled.reversed_eq_false, halone, ?_⟩
  have hslices : filter.predicates.flatMap (slicesAlone catalog) =
      filter.predicates.filterMap Predicate.slice? := by
    rw [List.filterMap_eq_flatMap_toList]
    exact List.flatMap_congr fun p hp => slicesAlone_eq (halone p hp)
  rw [hslices]
  exact hcompiled.wordSlices_perm

/-- Two conditions on the words of one text, with a comparison between them that is merged. -/
theorem executable_words :
    let filter : Filter := .and (.leaf (.contains "title" "foo"))
      (.and (.leaf (.compare "a" .greater (.int 2))) (.leaf (.contains "title" "bar")))
    ∃ selector, ofFilter .everything filter = .ok selector ∧ selector.WellFormed ∧
      (selector.allSlices.filter Slice.isKeywords).Perm
        [.ofWord "title" "foo", .ofWord "title" "bar"] := by
  intro filter
  have hcompiles : ∃ selector, ofFilter .everything filter = .ok selector := ⟨_, rfl⟩
  obtain ⟨selector, h⟩ := hcompiles
  obtain ⟨hwellFormed, -, -, -, hwords⟩ := executable_ofFilter h
  have halone : (filter.predicates.flatMap (slicesAlone .everything)).filter Slice.isKeywords =
      [.ofWord "title" "foo", .ofWord "title" "bar"] := by decide +kernel
  exact ⟨selector, h, hwellFormed, halone ▸ hwords⟩

end Selector

end EntityQuery
