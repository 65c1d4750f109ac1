import EntityQuery.Proofs.Slice.Group

/-! # Looking slices up in merged groups

A group has one slice at most over each property, so what it holds is told by looking properties up.
Over each property, a merged group has the slice of the one group or of the other, and where both
have one the earlier slice narrowed by the later one. This is so whichever group takes in the other:
only the order of the slices tells that.

* `SliceGroup.get?_absorb`, `SliceGroup.get?_absorbEarlier`: **looking up a slice of a merged
  group**.
* `SliceGroup.canAbsorb_iff`: groups can be merged just if they share no words.
* `SliceGroup.selects_iff_get?`: what a group selects, property by property. -/

namespace EntityQuery.SliceGroup

variable {g h earlier later : SliceGroup} {s t : Slice} {slices l : List Slice} {property : String}
  {id : EntityId} {doc : Json}

/-! ## Groups and their properties -/

theorem get?_eq_none_iff : g.get? property = none ↔ property ∉ g.properties := by
  simp [get?, properties]

theorem property_of_get? (hs : g.get? property = some s) : s.property = property := by
  simpa using List.find?_some hs

theorem mem_of_get? (hs : g.get? property = some s) : s ∈ g.slices := List.mem_of_find?_eq_some hs

theorem get?_of_mem (hg : g.properties.Nodup) (hs : s ∈ g.slices) :
    g.get? s.property = some s := by
  cases hr : g.get? s.property with
  | none => exact absurd (List.mem_map_of_mem hs) (get?_eq_none_iff.mp hr)
  | some r => rw [List.inj_on_of_nodup_map hg (mem_of_get? hr) hs (property_of_get? hr)]

/-- **A group selects an entity if the slice over each property does.** -/
theorem selects_iff_get? (hg : g.properties.Nodup) :
    g.selects id doc = true ↔ ∀ property, (g.get? property).all (·.selects id doc) = true := by
  rw [selects, List.all_eq_true]
  constructor
  · intro hall property
    cases hs : g.get? property with
    | none => rfl
    | some s => exact hall s (mem_of_get? hs)
  · intro hall s hs
    simpa [get?_of_mem hg hs] using hall s.property

/-! ## Groups that can be merged -/

/-- Two groups have no slices over the same words. -/
def ShareNoWords (g h : SliceGroup) : Prop :=
  ∀ property ∈ g.properties, property ∈ h.properties → keywordsBase? property = none

theorem ShareNoWords.symm (hwords : g.ShareNoWords h) : h.ShareNoWords g :=
  fun property hh hg => hwords property hg hh

/-- **A group can take in another one just if they share no words.** -/
theorem canAbsorb_iff : g.canAbsorb h = true ↔ g.ShareNoWords h := by
  have hstep : ∀ t : Slice, (!t.isKeywords || (g.get? t.property).isNone) = true ↔
      (t.property ∈ g.properties → keywordsBase? t.property = none) := by
    intro t
    rw [Bool.or_eq_true, Bool.not_eq_true', Option.isNone_iff_eq_none, get?_eq_none_iff,
      Slice.isKeywords, ← Option.not_isSome_iff_eq_none, Bool.not_eq_true]
    tauto
  simp only [canAbsorb, List.all_eq_true, hstep, ShareNoWords]
  constructor
  · intro hall property hg hh
    obtain ⟨t, ht, rfl⟩ := List.mem_map.mp hh
    exact hall t ht hg
  · intro hall t ht hg
    exact hall t.property hg (List.mem_map_of_mem ht)

/-! ## Looking up -/

theorem find?_upsert {change : Slice → Slice}
    (hchange : ∀ s, s.property = t.property → (change s).property = t.property)
    (l : List Slice) :
    (upsert change t l).find? (·.property = property) =
      if t.property = property then some (((l.find? (·.property = property)).map change).getD t)
      else l.find? (·.property = property) := by
  induction l with
  | nil => by_cases ht : t.property = property <;> simp [upsert, ht]
  | cons s rest ih =>
    by_cases hs : s.property = t.property
    · by_cases ht : t.property = property
      · simp [upsert, hs, hchange s hs, ht]
      · simp [upsert, hs, hchange s hs, ht]
    · simp only [upsert, hs, if_false]
      by_cases hsp : s.property = property
      · have ht : ¬ t.property = property := fun ht => hs (hsp.trans ht.symm)
        simp [hsp, ht]
      · rw [List.find?_cons_of_neg (by simpa using hsp), ih,
          List.find?_cons_of_neg (by simpa using hsp)]

/-- After slices over different properties have been added, a property has the slice that was there
as the added one changes it, or either of them alone. -/
theorem find?_foldl_upsert (change : Slice → Slice → Slice)
    (hchange : ∀ t s, s.property = t.property → (change t s).property = t.property)
    (hl : (l.map Slice.property).Nodup) :
    (l.foldl (fun acc t => upsert (change t) t acc) slices).find? (·.property = property) =
      Option.merge (fun s t => change t s) (slices.find? (·.property = property))
        (l.find? (·.property = property)) := by
  induction l generalizing slices with
  | nil => simp
  | cons t l ih =>
    rw [List.map_cons, List.nodup_cons] at hl
    rw [List.foldl_cons, ih hl.2, find?_upsert (hchange t)]
    by_cases ht : t.property = property
    · have hnone : l.find? (·.property = property) = none := by
        simp only [List.find?_eq_none, decide_eq_true_eq]
        intro u hu heq
        exact hl.1 (ht.trans heq.symm ▸ List.mem_map_of_mem hu)
      rw [if_pos ht, hnone, List.find?_cons_of_pos (by simpa using ht), Option.merge_none_right]
      cases slices.find? (·.property = property) <;> simp
    · rw [if_neg ht, List.find?_cons_of_neg (by simpa using ht)]

/-- **The slice of a group that has taken in a later one.** -/
theorem get?_absorb (hlater : later.properties.Nodup) :
    (g.absorb later).get? property =
      Option.merge Slice.narrow (g.get? property) (later.get? property) := by
  unfold get?
  rw [slices_absorb]
  exact find?_foldl_upsert (fun t s => s.narrow t) (fun _ _ hs => hs) hlater

/-- **The slice of a group that has taken in an earlier one.** -/
theorem get?_absorbEarlier (hearlier : earlier.properties.Nodup) :
    (g.absorbEarlier earlier).get? property =
      Option.merge Slice.narrow (earlier.get? property) (g.get? property) := by
  unfold get?
  rw [slices_absorbEarlier,
    find?_foldl_upsert (fun t s => t.narrow s) (fun _ _ _ => rfl) hearlier]
  cases g.slices.find? (·.property = property) <;>
    cases earlier.slices.find? (·.property = property) <;> rfl

end EntityQuery.SliceGroup
