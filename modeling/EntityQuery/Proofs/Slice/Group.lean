import EntityQuery.Proofs.Slice.Narrow
import Mathlib.Data.List.Nodup

/-! # Groups that take in groups

Groups of slices are merged by adding the slices of one group to the other, one after another. Each
narrows the slice over its property, if there is one. A group has no two slices over one property,
so every slice is narrowed once at most, and a test that turns narrowing into conjunction holds of
the merged group if it holds of both groups.

* `SliceGroup.all_foldl_upsert`: a test of all slices after others have been added.
* `SliceGroup.Within`: where the bounds of a group come from, which merging keeps.
* `SliceGroup.selects_absorb`, `SliceGroup.selects_absorbEarlier`: a merged group selects what both
  groups select. -/

namespace EntityQuery

namespace SliceGroup

/-! ## Adding slices -/

section Upsert

variable {change : Slice → Slice → Slice} {test : Slice → Bool} {P : Slice → Prop} {s t : Slice}
  {l slices : List Slice}

theorem mem_upsert {update : Slice → Slice} (hs : s ∈ upsert update t l) :
    s ∈ l ∨ s = t ∨ ∃ r ∈ l, r.property = t.property ∧ s = update r := by
  induction l with
  | nil => exact .inr (.inl (List.mem_singleton.mp hs))
  | cons r l ih =>
    unfold upsert at hs
    split_ifs at hs with hr
    · rcases List.mem_cons.mp hs with rfl | hs
      · exact .inr (.inr ⟨r, by simp, hr, rfl⟩)
      · exact .inl (by simp [hs])
    · rcases List.mem_cons.mp hs with rfl | hs
      · exact .inl (by simp)
      · rcases ih hs with hs | hs | ⟨r', hr', hproperty, heq⟩
        · exact .inl (by simp [hs])
        · exact .inr (.inl hs)
        · exact .inr (.inr ⟨r', by simp [hr'], hproperty, heq⟩)

theorem all_upsert {update : Slice → Slice}
    (h : ∀ s ∈ l, s.property = t.property → test (update s) = (test s && test t)) :
    (upsert update t l).all test = (l.all test && test t) := by
  induction l with
  | nil => simp [upsert]
  | cons r l ih =>
    unfold upsert
    split_ifs with hr
    · rw [List.all_cons, List.all_cons, h r (by simp) hr]
      cases test r <;> cases test t <;> simp
    · rw [List.all_cons, List.all_cons, ih fun s hs => h s (by simp [hs]), Bool.and_assoc]

variable (hproperty : ∀ t s, s.property = t.property → (change t s).property = t.property)
include hproperty

/-- **A test of all slices, after others have been added.** -/
theorem all_foldl_upsert (hl : (l.map Slice.property).Nodup)
    (h : ∀ s ∈ slices, ∀ t ∈ l, s.property = t.property → test (change t s) = (test s && test t)) :
    (l.foldl (fun acc t => upsert (change t) t acc) slices).all test =
      (slices.all test && l.all test) := by
  induction l generalizing slices with
  | nil => simp
  | cons t l ih =>
    rw [List.map_cons, List.nodup_cons] at hl
    have hnew : ∀ u ∈ l, u.property ≠ t.property := by
      intro u hu heq
      exact hl.1 (heq ▸ List.mem_map_of_mem hu)
    rw [List.foldl_cons, ih hl.2, all_upsert fun s hs => h s hs t (by simp), List.all_cons,
      Bool.and_assoc]
    intro s hs u hu hsu
    rcases mem_upsert hs with hs | rfl | ⟨r, hr, hrt, rfl⟩
    · exact h s hs u (by simp [hu]) hsu
    · exact absurd hsu.symm (hnew u hu)
    · rw [hproperty t r hrt] at hsu
      exact absurd hsu.symm (hnew u hu)

omit hproperty in
theorem forall_foldl_upsert (hslices : ∀ s ∈ slices, P s) (hl : ∀ t ∈ l, P t)
    (h : ∀ s t, P s → P t → s.property = t.property → P (change t s)) :
    ∀ s ∈ l.foldl (fun acc t => upsert (change t) t acc) slices, P s := by
  induction l generalizing slices with
  | nil => exact hslices
  | cons t l ih =>
    refine ih (fun s hs => ?_) fun t ht => hl t (by simp [ht])
    rcases mem_upsert hs with hs | rfl | ⟨r, hr, hrt, rfl⟩
    · exact hslices s hs
    · exact hl s (by simp)
    · exact h r t (hslices r hr) (hl t (by simp)) hrt

end Upsert

theorem slices_absorb (g later : SliceGroup) :
    (g.absorb later).slices =
      later.slices.foldl (fun acc t => upsert (fun s => s.narrow t) t acc) g.slices :=
  (List.foldl_hom SliceGroup.slices fun _ _ => rfl).symm

theorem slices_absorbEarlier (g earlier : SliceGroup) :
    (g.absorbEarlier earlier).slices =
      earlier.slices.foldl (fun acc t => upsert (fun s => t.narrow s) t acc) g.slices :=
  (List.foldl_hom SliceGroup.slices fun _ _ => rfl).symm

end SliceGroup

/-! ## Merged groups -/

/-- A scalar is one of the literals, or a text if one of them is. -/
def Scalar.Stems (literals : List Scalar) (v : Scalar) : Prop :=
  v ∈ literals ∨ ∃ s t, v = string s ∧ string t ∈ literals

/-- The literals that a property is compared with are of one kind, an entity has at most one value
there, and the literals and the value are exact. -/
structure Settled (literals values : List Scalar) : Prop where
  comparable : ∀ a ∈ literals, ∀ b ∈ literals, (a.compare b).isSome = true
  single : values.length ≤ 1
  exact : Scalar.Exact (literals ++ values)

namespace Slice

/-- The property of a slice is compared with literals, and its bounds stem from these. -/
def Within (literals : String → List Scalar) (s : Slice) : Prop :=
  literals s.property ≠ [] ∧ ∀ b ∈ s.bounds, Scalar.Stems (literals s.property) b.value

variable {literals : String → List Scalar} {s t : Slice} {values : List Scalar} {id : EntityId}
  {doc : Json}

theorem Within.narrow (hs : s.Within literals) (ht : t.Within literals)
    (hst : s.property = t.property) : (s.narrow t).Within literals := by
  refine ⟨hs.1, fun b hb => ?_⟩
  obtain ⟨b', hb', hvalue⟩ := value_of_mem_bounds_narrow hb
  show Scalar.Stems (literals s.property) b.value
  rw [hvalue]
  rcases List.mem_append.mp hb' with hb' | hb'
  · exact hs.2 b' hb'
  · rw [hst]
    exact ht.2 b' hb'

theorem kindRank_eq_of_compare {a b : Scalar} (h : (a.compare b).isSome = true) :
    a.kindRank = b.kindRank := by
  cases a <;> cases b <;> simp_all [Scalar.compare, Scalar.kindRank]

theorem exists_fits (hsettled : Settled (literals s.property) values) :
    ∃ kind, ∀ t : Slice, t.property = s.property → t.Within literals →
      t.Fits (literals s.property ++ values) kind := by
  cases hliterals : literals s.property with
  | nil =>
    refine ⟨0, fun t ht hwithin => ?_⟩
    exact absurd (ht ▸ hliterals) hwithin.1
  | cons a rest =>
    have ha : a ∈ literals s.property := by simp [hliterals]
    have hkind : ∀ v, Scalar.Stems (literals s.property) v → v.kindRank = a.kindRank := by
      rintro v (hv | ⟨x, y, rfl, hy⟩)
      · exact kindRank_eq_of_compare (hsettled.comparable v hv a ha)
      · have hy : (Scalar.string y).kindRank = a.kindRank :=
          kindRank_eq_of_compare (hsettled.comparable _ hy a ha)
        exact hy
    refine ⟨a.kindRank, fun t ht hwithin b hb => ?_⟩
    have hb := hwithin.2 b hb
    rw [ht] at hb
    refine ⟨?_, hkind b.value hb⟩
    rw [← hliterals]
    rcases hb with hb | ⟨x, y, heq, -⟩
    · exact .inl (List.mem_append_left _ hb)
    · exact .inr ⟨x, heq⟩

theorem selects_narrow_of_settled (hs : s.Within literals) (ht : t.Within literals)
    (hst : s.property = t.property)
    (hsettled : Settled (literals s.property) (propertyValues id doc s.property)) :
    (s.narrow t).selects id doc = (s.selects id doc && t.selects id doc) := by
  obtain ⟨kind, hfits⟩ := exists_fits hsettled
  refine selects_narrow hsettled.exact.ordered (hfits s rfl hs) (hfits t hst.symm ht) hst
    (fun v hv => ?_) ?_
  · rw [← hst] at hv
    exact .inl (List.mem_append_right _ hv)
  · rw [← hst]
    exact hsettled.single

end Slice

namespace SliceGroup

variable {literals : String → List Scalar} {g earlier later : SliceGroup} {id : EntityId}
  {doc : Json}

/-- The bounds of the slices of a group stem from the literals of their properties. -/
def Within (literals : String → List Scalar) (g : SliceGroup) : Prop :=
  ∀ s ∈ g.slices, s.Within literals

theorem Within.absorb (hg : g.Within literals) (hlater : later.Within literals) :
    (g.absorb later).Within literals := by
  unfold Within
  rw [slices_absorb]
  exact forall_foldl_upsert hg hlater fun s t hs ht hst => hs.narrow ht hst

theorem Within.absorbEarlier (hg : g.Within literals) (hearlier : earlier.Within literals) :
    (g.absorbEarlier earlier).Within literals := by
  unfold Within
  rw [slices_absorbEarlier]
  exact forall_foldl_upsert hg hearlier fun s t hs ht hst => ht.narrow hs hst.symm

/-- A group that may be taken in has no words in common with the group that takes it in. -/
theorem keywordsBase?_of_canAbsorb (h : g.canAbsorb later = true) {s t : Slice}
    (hs : s ∈ g.slices) (ht : t ∈ later.slices) (hst : s.property = t.property) :
    keywordsBase? t.property = none := by
  have hkeep := List.all_eq_true.mp h t ht
  rw [Bool.or_eq_true] at hkeep
  rcases hkeep with hkeep | hkeep
  · simpa [Slice.isKeywords] using hkeep
  · have hnone : g.get? t.property = none := by simpa using hkeep
    exact absurd hst (by simpa using List.find?_eq_none.mp hnone s hs)

variable (hsettled : ∀ p, keywordsBase? p = none → literals p ≠ [] →
  Settled (literals p) (propertyValues id doc p))
include hsettled

/-- **A group that has taken in a later one selects what both select.** -/
theorem selects_absorb (hlater : later.WellFormed) (hcan : g.canAbsorb later = true)
    (hg : g.Within literals) (hwithin : later.Within literals) :
    (g.absorb later).selects id doc = (g.selects id doc && later.selects id doc) := by
  unfold selects
  rw [slices_absorb]
  refine all_foldl_upsert (fun _ _ hs => hs) hlater.distinct fun s hs t ht hst => ?_
  refine Slice.selects_narrow_of_settled (hg s hs) (hwithin t ht) hst
    (hsettled _ ?_ (hg s hs).1)
  rw [hst]
  exact keywordsBase?_of_canAbsorb hcan hs ht hst

/-- **A group that has taken in an earlier one selects what both select.** -/
theorem selects_absorbEarlier (hearlier : earlier.WellFormed) (hcan : g.canAbsorb earlier = true)
    (hg : g.Within literals) (hwithin : earlier.Within literals) :
    (g.absorbEarlier earlier).selects id doc = (earlier.selects id doc && g.selects id doc) := by
  unfold selects
  rw [slices_absorbEarlier, Bool.and_comm]
  refine all_foldl_upsert (fun _ _ _ => rfl) hearlier.distinct fun s hs t ht hst => ?_
  rw [Bool.and_comm]
  exact Slice.selects_narrow_of_settled (hwithin t ht) (hg s hs) hst.symm
    (hsettled _ (keywordsBase?_of_canAbsorb hcan hs ht hst) (hwithin t ht).1)

end SliceGroup

end EntityQuery
