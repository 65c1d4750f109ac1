import EntityQuery.Proofs.Plan.Keywords
import EntityQuery.Proofs.Repetitions
import EntityQuery.Proofs.Slice.Lookup

/-! # How groups of slices are put together

A group is made of single slices by adding slices that were declared later, by taking in groups that
were declared earlier, and by turning the direction. However often this is done, the group has one
slice over each property, and the properties stand in the order in which they came first. What is
added changes the slices over its own properties where they stand, and is put behind the others
where it is new.

* `Slice.IsNarrowing`: a slice narrowed by one that was declared later.
* `SliceGroup.upsert_eq`, `SliceGroup.foldl_upsert_eq`: the slices after one slice and after many
  have been added.
* `Assembly`: the ways to put a group together.
* `Assembly.properties_group`: the properties of a group, in the order of their arrival.
* `Assembly.assembled_exact`: what adding to such a group comes to. -/

namespace EntityQuery

/-! ## Narrowed slices -/

/-- **The tighter of two bounds on one side**, of which the first was declared earlier; `tight` is
how a tighter value compares with one that is less tight. -/
inductive Bound.Tighter (tight : Ordering) : Option Bound → Option Bound → Option Bound → Prop
  | openLater {b : Option Bound} : Tighter tight b none b
  | openEarlier {b : Option Bound} : Tighter tight none b b
  | earlier {a b : Bound} (h : a.value.compare b.value = some tight) :
    Tighter tight (some a) (some b) (some a)
  /-- Equal values are in range if both bounds include them. -/
  | equal {a b : Bound} (h : a.value.compare b.value = some .eq) :
    Tighter tight (some a) (some b) (some ⟨b.value, a.inclusive && b.inclusive⟩)
  /-- The later bound stands also where the values do not compare. -/
  | later {a b : Bound} (hequal : a.value.compare b.value ≠ some .eq)
    (htight : a.value.compare b.value ≠ some tight) : Tighter tight (some a) (some b) (some b)

namespace Bound

variable {tight : Ordering} {a b c c' : Option Bound}

theorem Tighter.unique (htight : tight ≠ .eq) (h : Tighter tight a b c)
    (h' : Tighter tight a b c') : c = c' := by
  cases h <;> cases h' <;> simp_all

theorem tighter_tighterStart (a b : Option Bound) : Tighter .gt a b (tighterStart a b) := by
  unfold tighterStart
  split
  · exact .openEarlier
  · exact .openLater
  · split
    · exact .equal ‹_›
    · exact .earlier ‹_›
    · exact .later ‹_› ‹_›

theorem tighter_tighterFinish (a b : Option Bound) : Tighter .lt a b (tighterFinish a b) := by
  unfold tighterFinish
  split
  · exact .openEarlier
  · exact .openLater
  · split
    · exact .equal ‹_›
    · exact .earlier ‹_›
    · exact .later ‹_› ‹_›

end Bound

/-- **A slice narrowed by one that was declared later**: it is over the property of the first, has
the tighter bound on each side, and is scanned downwards if one of them is. -/
structure Slice.IsNarrowing (earlier later narrowed : Slice) : Prop where
  property : narrowed.property = earlier.property
  start : Bound.Tighter .gt earlier.start later.start narrowed.start
  finish : Bound.Tighter .lt earlier.finish later.finish narrowed.finish
  reversed : narrowed.reversed = true ↔ earlier.reversed = true ∨ later.reversed = true

theorem Slice.isNarrowing_iff {earlier later narrowed : Slice} :
    earlier.IsNarrowing later narrowed ↔ narrowed = earlier.narrow later := by
  constructor
  · rintro ⟨hproperty, hstart, hfinish, hreversed⟩
    obtain ⟨property, start, finish, reversed⟩ := narrowed
    have hstart := hstart.unique (by decide) (Bound.tighter_tighterStart _ _)
    have hfinish := hfinish.unique (by decide) (Bound.tighter_tighterFinish _ _)
    have hreversed : reversed = (earlier.reversed || later.reversed) := by
      rw [Bool.eq_iff_iff, hreversed, Bool.or_eq_true]
    rw [narrow, ← hstart, ← hfinish, hreversed, ← hproperty]
  · rintro rfl
    exact ⟨rfl, Bound.tighter_tighterStart _ _, Bound.tighter_tighterFinish _ _, by simp [narrow]⟩

namespace SliceGroup

variable {change : Slice → Slice → Slice} {t : Slice} {l slices : List Slice}

/-! ## The slices of a group -/

/-- **A slice is added**: the slice over its property is changed where it stands, or the new one
comes last. -/
theorem upsert_eq {update : Slice → Slice} (hl : (l.map Slice.property).Nodup) :
    upsert update t l =
      (l.map fun s => if s.property = t.property then update s else s) ++
        if t.property ∈ l.map Slice.property then [] else [t] := by
  induction l with
  | nil => rfl
  | cons s l ih =>
    rw [List.map_cons, List.nodup_cons] at hl
    unfold upsert
    by_cases hs : s.property = t.property
    · have hrest : (l.map fun s => if s.property = t.property then update s else s) = l := by
        refine (List.map_congr_left fun s' hs' => if_neg fun h => hl.1 ?_).trans (List.map_id l)
        rw [hs, ← h]
        exact List.mem_map_of_mem hs'
      simp [hs, hrest]
    · have hs' : ¬ t.property = s.property := fun h => hs h.symm
      simp [hs, hs', ih hl.2]

theorem nodup_upsert {update : Slice → Slice}
    (hupdate : ∀ s, s.property = t.property → (update s).property = t.property)
    (hl : (l.map Slice.property).Nodup) : ((upsert update t l).map Slice.property).Nodup := by
  rw [properties_upsert hupdate]
  split_ifs with ht
  · exact hl
  · exact List.nodup_append.mpr ⟨hl, by simp, by
      rintro p hp q hq rfl
      exact ht (List.mem_singleton.mp hq ▸ hp)⟩

/-- **Slices over different properties are added**, one after another. -/
theorem foldl_upsert_eq
    (hchange : ∀ t s, s.property = t.property → (change t s).property = t.property)
    (hl : (l.map Slice.property).Nodup) (hslices : (slices.map Slice.property).Nodup) :
    l.foldl (fun acc t => upsert (change t) t acc) slices =
      (slices.map fun s => (l.find? (·.property = s.property)).elim s (change · s)) ++
        l.filter (·.property ∉ slices.map Slice.property) := by
  induction l generalizing slices with
  | nil => simp
  | cons t l ih =>
    rw [List.map_cons, List.nodup_cons] at hl
    have hother : ∀ u ∈ l, u.property ≠ t.property := by
      intro u hu heq
      exact hl.1 (heq ▸ List.mem_map_of_mem hu)
    have hnone : l.find? (·.property = t.property) = none := by
      simpa only [List.find?_eq_none, decide_eq_true_eq] using hother
    -- a slice that the first one has changed is not changed again
    have hchanged : ∀ s, ((l.find? (·.property =
          (if s.property = t.property then change t s else s).property)).elim
          (if s.property = t.property then change t s else s)
          (change · (if s.property = t.property then change t s else s))) =
        ((t :: l).find? (·.property = s.property)).elim s (change · s) := by
      intro s
      by_cases hs : s.property = t.property
      · rw [if_pos hs, hchange t s hs, hnone, List.find?_cons_of_pos (by simp [hs])]
        rfl
      · rw [if_neg hs, List.find?_cons_of_neg (by simpa using fun h => hs h.symm)]
    rw [List.foldl_cons, ih hl.2 (nodup_upsert (hchange t) hslices), properties_upsert (hchange t),
      upsert_eq hslices, List.map_append, List.map_map]
    simp only [Function.comp_def, hchanged]
    by_cases ht : t.property ∈ slices.map Slice.property
    · rw [if_pos ht, if_pos ht, List.filter_cons_of_neg (by simpa using ht)]
      simp
    · rw [if_neg ht, if_neg ht, List.filter_cons_of_pos (by simpa using ht)]
      have hfilter : l.filter (·.property ∉ slices.map Slice.property ++ [t.property]) =
          l.filter (·.property ∉ slices.map Slice.property) := by
        refine List.filter_congr fun u hu => ?_
        simp [hother u hu]
      rw [hfilter]
      simp [hnone]

theorem slices_push {g : SliceGroup} (hg : g.properties.Nodup) (later : Slice) :
    (g.push later).slices =
      (g.slices.map fun s => if s.property = later.property then s.narrow later else s) ++
        if later.property ∈ g.properties then [] else [later] :=
  upsert_eq hg

theorem slices_absorbEarlier_eq {g earlier : SliceGroup} (hg : g.properties.Nodup)
    (hearlier : earlier.properties.Nodup) :
    (g.absorbEarlier earlier).slices =
      (g.slices.map fun s => (earlier.get? s.property).elim s (·.narrow s)) ++
        earlier.slices.filter (·.property ∉ g.properties) := by
  rw [slices_absorbEarlier]
  exact foldl_upsert_eq (fun _ _ _ => rfl) hearlier hg

/-- The properties of a taken-in group come behind those that are there, as far as they are new. -/
theorem properties_absorbEarlier {g earlier : SliceGroup} (hg : g.properties.Nodup)
    (hearlier : earlier.properties.Nodup) :
    (g.absorbEarlier earlier).properties =
      g.properties ++ earlier.properties.filter (· ∉ g.properties) := by
  have hkeeps : ∀ s, ((earlier.get? s.property).elim s (·.narrow s)).property = s.property := by
    intro s
    cases hs : earlier.get? s.property with
    | none => rfl
    | some s' => exact property_of_get? (s := s') hs
  have hnew : (earlier.slices.filter (·.property ∉ g.properties)).map Slice.property =
      earlier.properties.filter (· ∉ g.properties) := by
    unfold properties
    rw [List.filter_map]
    rfl
  rw [properties, slices_absorbEarlier_eq hg hearlier, List.map_append, List.map_map, hnew]
  simp only [Function.comp_def, hkeeps]
  rfl

end SliceGroup

/-! ## Groups that are put together -/

theorem eq_append_of_keywordsBase? {property base : String}
    (h : keywordsBase? property = some base) : property = base ++ keywordsSuffix := by
  simp only [keywordsBase?] at h
  split_ifs at h with hname
  obtain rfl := Option.some.inj h
  rw [← String.toList_inj, String.toList_append, String.toList_ofList, hname]

/-- **A way to put a group of slices together.** -/
inductive Assembly where
  | empty
  | single (slice : Slice)
  | fullScan
  /-- A slice is added that was declared later. -/
  | push (base : Assembly) (later : Slice)
  /-- A group is taken in that was declared earlier. -/
  | absorbEarlier (base earlier : Assembly)
  | setReversed (base : Assembly) (reversed : Bool)

namespace Assembly

/-- The group that is put together. -/
def group : Assembly → SliceGroup
  | empty => .empty
  | single slice => .single slice
  | fullScan => .fullScan
  | push base later => base.group.push later
  | absorbEarlier base earlier => base.group.absorbEarlier earlier.group
  | setReversed base reversed => base.group.setReversed reversed

/-- The properties of all slices from which the group is made, as they arrive. -/
def arrivals : Assembly → List String
  | empty => []
  | single slice => [slice.property]
  | fullScan => [idProperty]
  | push base later => base.arrivals ++ [later.property]
  | absorbEarlier base earlier => base.arrivals ++ earlier.arrivals
  | setReversed base _ => base.arrivals

/-- **The properties of a group stand in the order in which they came first.** -/
theorem properties_group (a : Assembly) : a.group.properties = a.arrivals.eraseDups := by
  induction a with
  | empty => rfl
  | single slice => rfl
  | fullScan => rfl
  | push base later ih =>
    have hsame (s : Slice) (hs : s.property = later.property) :
        (s.narrow later).property = later.property := hs
    have hpush : (base.group.push later).properties =
        if later.property ∈ base.group.properties then base.group.properties
        else base.group.properties ++ [later.property] := SliceGroup.properties_upsert hsame _
    rw [arrivals, eraseDups_append_eq, ← ih, group, hpush]
    split_ifs with hlater <;> simp [List.eraseDups_cons, hlater]
  | absorbEarlier base earlier ihb ihe =>
    rw [arrivals, eraseDups_append_eq, ← ihb, ← ihe, group]
    exact SliceGroup.properties_absorbEarlier (ihb ▸ nodup_eraseDups _) (ihe ▸ nodup_eraseDups _)
  | setReversed base reversed ih =>
    rw [arrivals, ← ih, group, SliceGroup.properties, SliceGroup.setReversed, List.map_map]
    rfl

theorem nodup_properties (a : Assembly) : a.group.properties.Nodup :=
  a.properties_group ▸ nodup_eraseDups _

/-- **What adding to a group that is put together comes to.** The group has one slice over each
property, and its properties stand in the order in which they came first. A slice that was declared
later narrows the slice over its property where that stands, or comes last. A group that was
declared earlier has its slices narrowed by those over the same properties, which stay where they
stand, and its other slices come last in their order. It may be taken in just if the two groups have
no property of words in common. To narrow a slice is to give it the tighter bound on each side. -/
theorem assembled_exact (a earlier : Assembly) (later : Slice) :
    let g := a.group
    let h := earlier.group
    g.properties.Nodup ∧ g.properties = a.arrivals.eraseDups ∧
    (g.push later).slices =
      (g.slices.map fun s => if s.property = later.property then s.narrow later else s) ++
        (if later.property ∈ g.properties then [] else [later]) ∧
    (g.absorbEarlier h).slices =
      (g.slices.map fun s => (h.get? s.property).elim s fun s' => s'.narrow s) ++
        h.slices.filter (·.property ∉ g.properties) ∧
    (g.canAbsorb h = true ↔
      ¬ ∃ property ∈ g.properties, property ∈ h.properties ∧
        ∃ base, property = base ++ keywordsSuffix) ∧
    ∀ s s' narrowed : Slice, narrowed = s.narrow s' ↔ s.IsNarrowing s' narrowed := by
  intro g h
  refine ⟨a.nodup_properties, a.properties_group, SliceGroup.slices_push a.nodup_properties later,
    SliceGroup.slices_absorbEarlier_eq a.nodup_properties earlier.nodup_properties, ?_,
    fun _ _ _ => Slice.isNarrowing_iff.symm⟩
  rw [SliceGroup.canAbsorb_iff]
  constructor
  · rintro hwords ⟨property, hg, hh, base, rfl⟩
    have hnone := hwords _ hg hh
    rw [keywordsBase?_append] at hnone
    cases hnone
  · intro hnone property hg hh
    cases hbase : keywordsBase? property with
    | none => rfl
    | some base => exact absurd ⟨property, hg, hh, base, eq_append_of_keywordsBase? hbase⟩ hnone

end Assembly

end EntityQuery
