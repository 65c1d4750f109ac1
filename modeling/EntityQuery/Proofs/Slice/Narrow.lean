import EntityQuery.Proofs.Plan.Shape
import EntityQuery.Proofs.Scalar.Order
import EntityQuery.Store.Matching

/-! # Narrowing slices

To narrow a slice by another one over the same property is to take what is in range of both, as long
as the values in play are in one order and the bounds are of one kind. An entity is selected by both
slices only if the same value is in range of both, so the property must not have several values.

* `Slice.contains_narrow`: what is in range of a narrowed slice.
* `Slice.selects_narrow_of_contains`: what it selects follows from that for a single value.
* `Slice.selects_narrow`: what a narrowed slice selects. -/

namespace EntityQuery

/-! ## Bounds -/

/-- Whether a value is beyond a bound when it compares with it as `o` says. -/
def reaches (o : Ordering) (inclusive : Bool) : Bool :=
  match o with
  | .gt => true
  | .eq => inclusive
  | .lt => false

namespace Bound

/-- The tighter of two bounds that compare as `o` says, where the greater one is tighter. -/
def tighter (o : Ordering) (earlier later : Bound) : Bound :=
  match o with
  | .eq => ⟨later.value, earlier.inclusive && later.inclusive⟩
  | .gt => earlier
  | .lt => later

theorem value_tighter (o : Ordering) (e l : Bound) :
    (tighter o e l).value = e.value ∨ (tighter o e l).value = l.value := by
  cases o
  · exact .inr rfl
  · exact .inr rfl
  · exact .inl rfl

theorem reaches_and_of_gt (cmp : Scalar → Scalar → Ordering) [Std.TransCmp cmp] (v : Scalar)
    {greater less : Bound} (h : cmp greater.value less.value = .gt) :
    (reaches (cmp v greater.value) greater.inclusive && reaches (cmp v less.value) less.inclusive) =
      reaches (cmp v greater.value) greater.inclusive := by
  cases hv : cmp v greater.value with
  | lt => rfl
  | eq =>
    have hless : cmp v less.value = .gt := Std.TransCmp.gt_of_eq_of_gt hv h
    rw [hless]
    exact Bool.and_true _
  | gt =>
    have hless : cmp v less.value = .gt := Std.TransCmp.gt_trans hv h
    rw [hless]
    rfl

theorem reaches_tighter (cmp : Scalar → Scalar → Ordering) [Std.TransCmp cmp] (v : Scalar)
    (e l : Bound) :
    reaches (cmp v (tighter (cmp e.value l.value) e l).value)
        (tighter (cmp e.value l.value) e l).inclusive =
      (reaches (cmp v e.value) e.inclusive && reaches (cmp v l.value) l.inclusive) := by
  cases hel : cmp e.value l.value with
  | eq =>
    have hv : cmp v e.value = cmp v l.value := Std.TransCmp.congr_right hel
    rw [hv]
    simp only [tighter]
    cases cmp v l.value <;> cases e.inclusive <;> cases l.inclusive <;> rfl
  | gt => exact (reaches_and_of_gt cmp v hel).symm
  | lt =>
    have hle : cmp l.value e.value = .gt := Std.OrientedCmp.gt_of_lt hel
    rw [Bool.and_comm]
    exact (reaches_and_of_gt cmp v hle).symm

/-- A value that is not admitted by bounds of one kind, or is admitted by those that it is beyond,
is admitted by the tighter of two bounds if it is admitted by both. -/
theorem admits_tighter (cmp : Scalar → Scalar → Ordering) [Std.TransCmp cmp] (v : Scalar)
    (admits : Bound → Bool) {e l : Bound}
    (hadmits : (∀ b : Bound, b.value = e.value ∨ b.value = l.value →
        admits b = reaches (cmp v b.value) b.inclusive) ∨
      ∀ b : Bound, b.value = e.value ∨ b.value = l.value → admits b = false) :
    admits (tighter (cmp e.value l.value) e l) = (admits e && admits l) := by
  have htighter := value_tighter (cmp e.value l.value) e l
  rcases hadmits with hadmits | hadmits
  · rw [hadmits _ htighter, hadmits e (.inl rfl), hadmits l (.inr rfl), reaches_tighter]
  · rw [hadmits _ htighter, hadmits e (.inl rfl), hadmits l (.inr rfl)]
    rfl

/-- An order in which the values of bounds of one kind compare, as does `v` with them if it is of
that kind. -/
structure Orders (cmp : Scalar → Scalar → Ordering) (kind : Nat) (v : Scalar)
    (bounds : List Bound) : Prop where
  bound : ∀ e ∈ bounds, ∀ l ∈ bounds, e.value.compare l.value = some (cmp e.value l.value)
  value : ∀ b ∈ bounds,
    v.compare b.value = if v.kindRank = kind then some (cmp v b.value) else none

variable {cmp : Scalar → Scalar → Ordering} {kind : Nat} {v : Scalar} {earlier later : Option Bound}

theorem Orders.mono {bounds bounds' : List Bound} (h : Orders cmp kind v bounds)
    (hsub : bounds' ⊆ bounds) : Orders cmp kind v bounds' where
  bound := fun e he l hl => h.bound e (hsub he) l (hsub hl)
  value := fun b hb => h.value b (hsub hb)

theorem Orders.compare_or_not {bounds : List Bound} (h : Orders cmp kind v bounds) {e l : Bound}
    (he : e ∈ bounds) (hl : l ∈ bounds) :
    (∀ b : Bound, b.value = e.value ∨ b.value = l.value →
      v.compare b.value = some (cmp v b.value)) ∨
    ∀ b : Bound, b.value = e.value ∨ b.value = l.value → v.compare b.value = none := by
  by_cases hkind : v.kindRank = kind
  · refine .inl fun b hb => ?_
    rcases hb with hb | hb
    · rw [hb, h.value e he, if_pos hkind]
    · rw [hb, h.value l hl, if_pos hkind]
  · refine .inr fun b hb => ?_
    rcases hb with hb | hb
    · rw [hb, h.value e he, if_neg hkind]
    · rw [hb, h.value l hl, if_neg hkind]

theorem all_tighterStart [Std.TransCmp cmp]
    (h : Orders cmp kind v (earlier.toList ++ later.toList)) :
    (tighterStart earlier later).all (·.admitsAbove v) =
      (earlier.all (·.admitsAbove v) && later.all (·.admitsAbove v)) := by
  cases earlier with
  | none => cases later <;> rfl
  | some e =>
    cases later with
    | none => simp [tighterStart]
    | some l =>
      have he : e ∈ (some e).toList ++ (some l).toList := by simp
      have hl : l ∈ (some e).toList ++ (some l).toList := by simp
      have htighter : tighterStart (some e) (some l) =
          some (tighter (cmp e.value l.value) e l) := by
        simp only [tighterStart, h.bound e he l hl]
        cases cmp e.value l.value <;> rfl
      simp only [htighter, Option.all_some]
      refine admits_tighter cmp v (·.admitsAbove v) ((h.compare_or_not he hl).imp ?_ ?_)
      · intro hcompare b hb
        rw [admitsAbove, hcompare b hb]
        cases cmp v b.value <;> rfl
      · intro hcompare b hb
        rw [admitsAbove, hcompare b hb]

theorem all_tighterFinish [Std.TransCmp cmp]
    (h : Orders cmp kind v (earlier.toList ++ later.toList)) :
    (tighterFinish earlier later).all (·.admitsBelow v) =
      (earlier.all (·.admitsBelow v) && later.all (·.admitsBelow v)) := by
  cases earlier with
  | none => cases later <;> rfl
  | some e =>
    cases later with
    | none => simp [tighterFinish]
    | some l =>
      have he : e ∈ (some e).toList ++ (some l).toList := by simp
      have hl : l ∈ (some e).toList ++ (some l).toList := by simp
      have hswap : ∀ a b, cmp a b = (cmp b a).swap := fun a b => Std.OrientedCmp.eq_swap
      have htighter : tighterFinish (some e) (some l) =
          some (tighter (cmp l.value e.value) e l) := by
        simp only [tighterFinish, h.bound e he l hl, hswap e.value l.value]
        cases cmp l.value e.value <;> rfl
      simp only [htighter, Option.all_some]
      refine admits_tighter (fun a b => cmp b a) v (·.admitsBelow v)
        ((h.compare_or_not he hl).imp ?_ ?_)
      · intro hcompare b hb
        rw [admitsBelow, hcompare b hb, hswap v b.value]
        cases cmp b.value v <;> rfl
      · intro hcompare b hb
        rw [admitsBelow, hcompare b hb]

/-- A choice of the tighter of two bounds: one that is missing yields to the other, and of two that
are there one has the value that is chosen. -/
structure Chooses (tighter : Option Bound → Option Bound → Option Bound) : Prop where
  none_left : ∀ b, tighter none b = b
  none_right : ∀ b, tighter b none = b
  some_some : ∀ e l, ∃ b, tighter (some e) (some l) = some b ∧
    (b.value = e.value ∨ b.value = l.value)

theorem chooses_tighterStart : Chooses tighterStart where
  none_left _ := rfl
  none_right b := by cases b <;> rfl
  some_some e l := by
    simp only [tighterStart]
    split
    · exact ⟨_, rfl, .inr rfl⟩
    · exact ⟨_, rfl, .inl rfl⟩
    · exact ⟨_, rfl, .inr rfl⟩

theorem chooses_tighterFinish : Chooses tighterFinish where
  none_left _ := rfl
  none_right b := by cases b <;> rfl
  some_some e l := by
    simp only [tighterFinish]
    split
    · exact ⟨_, rfl, .inr rfl⟩
    · exact ⟨_, rfl, .inl rfl⟩
    · exact ⟨_, rfl, .inr rfl⟩

namespace Chooses

variable {tighter : Option Bound → Option Bound → Option Bound} (h : Chooses tighter)
include h

theorem isNone_eq (earlier later : Option Bound) :
    (tighter earlier later).isNone = (earlier.isNone && later.isNone) := by
  cases earlier with
  | none => rw [h.none_left]; rfl
  | some e =>
    cases later with
    | none => rw [h.none_right]; rfl
    | some l =>
      obtain ⟨b, hb, -⟩ := h.some_some e l
      rw [hb]
      rfl

theorem value_of_mem {b : Bound} (hb : b ∈ tighter earlier later) :
    ∃ b' ∈ earlier.toList ++ later.toList, b.value = b'.value := by
  cases earlier with
  | none => exact ⟨b, by simpa [h.none_left] using hb, rfl⟩
  | some e =>
    cases later with
    | none =>
      obtain rfl : e = b := by simpa [h.none_right] using hb
      exact ⟨e, by simp, rfl⟩
    | some l =>
      obtain ⟨b', hb', hvalue⟩ := h.some_some e l
      rw [hb'] at hb
      obtain rfl := Option.some.inj hb
      rcases hvalue with hvalue | hvalue
      · exact ⟨e, by simp, hvalue⟩
      · exact ⟨l, by simp, hvalue⟩

end Chooses

end Bound

/-! ## Slices -/

theorem Scalar.isNumber_eq (v : Scalar) : v.isNumber = decide (v.kindRank = 1) := by
  cases v <;> rfl

namespace Slice

/-- The bounds of a slice. -/
def bounds (s : Slice) : List Bound := s.start.toList ++ s.finish.toList

/-- The bounds of a slice are of one kind, and each is one of the listed scalars or a text. -/
def Fits (S : List Scalar) (kind : Nat) (s : Slice) : Prop :=
  ∀ b ∈ s.bounds, Scalar.Among S b.value ∧ b.value.kindRank = kind

variable {S : List Scalar} {kind : Nat} {earlier later : Slice} {v : Scalar} {id : EntityId}
  {doc : Json}

/-- A value is in range of a narrowed slice if it is in range of both slices; each side may have
bounds of its own kind. -/
theorem contains_narrow_of_orders {cmp cmp' : Scalar → Scalar → Ordering} [Std.TransCmp cmp]
    [Std.TransCmp cmp'] {low high : Nat}
    (hstart : Bound.Orders cmp low v (earlier.start.toList ++ later.start.toList))
    (hfinish : Bound.Orders cmp' high v (earlier.finish.toList ++ later.finish.toList)) :
    (earlier.narrow later).contains v = (earlier.contains v && later.contains v) := by
  unfold contains narrow
  rw [Bound.all_tighterStart hstart, Bound.all_tighterFinish hfinish]
  cases earlier.start.all (·.admitsAbove v) <;> cases earlier.finish.all (·.admitsBelow v) <;> simp

theorem contains_narrow (hS : Scalar.Ordered S) (hearlier : earlier.Fits S kind)
    (hlater : later.Fits S kind) (hv : Scalar.Among S v) :
    (earlier.narrow later).contains v = (earlier.contains v && later.contains v) := by
  obtain ⟨cmp, hcmp, horder⟩ := hS
  have horders : Bound.Orders cmp kind v (earlier.bounds ++ later.bounds) := by
    have hfits : ∀ b ∈ earlier.bounds ++ later.bounds,
        Scalar.Among S b.value ∧ b.value.kindRank = kind := by
      intro b hb
      rcases List.mem_append.mp hb with hb | hb
      · exact hearlier b hb
      · exact hlater b hb
    refine ⟨fun e he l hl => ?_, fun b hb => ?_⟩
    · obtain ⟨he, hekind⟩ := hfits e he
      obtain ⟨hl, hlkind⟩ := hfits l hl
      rw [(horder _ _ he hl).1, hekind, hlkind, if_pos rfl]
    · obtain ⟨hb, hbkind⟩ := hfits b hb
      rw [(horder _ _ hv hb).1, hbkind]
  have hstart : earlier.start.toList ++ later.start.toList ⊆ earlier.bounds ++ later.bounds := by
    intro b hb
    simp only [bounds, List.mem_append] at hb ⊢
    exact hb.imp .inl .inl
  have hfinish : earlier.finish.toList ++ later.finish.toList ⊆ earlier.bounds ++ later.bounds := by
    intro b hb
    simp only [bounds, List.mem_append] at hb ⊢
    exact hb.imp .inr .inr
  exact contains_narrow_of_orders (horders.mono hstart) (horders.mono hfinish)

theorem value_of_mem_bounds_narrow {b : Bound} (hb : b ∈ (earlier.narrow later).bounds) :
    ∃ b' ∈ earlier.bounds ++ later.bounds, b.value = b'.value := by
  simp only [bounds, narrow, List.mem_append, Option.mem_toList] at hb ⊢
  rcases hb with hb | hb
  · obtain ⟨b', hb', hvalue⟩ := Bound.chooses_tighterStart.value_of_mem hb
    rw [List.mem_append, Option.mem_toList, Option.mem_toList] at hb'
    exact ⟨b', hb'.imp .inl .inl, hvalue⟩
  · obtain ⟨b', hb', hvalue⟩ := Bound.chooses_tighterFinish.value_of_mem hb
    rw [List.mem_append, Option.mem_toList, Option.mem_toList] at hb'
    exact ⟨b', hb'.imp .inr .inr, hvalue⟩

/-! ## What narrowed slices select -/

theorem all_isNumber_narrow
    (hkind : ∀ e ∈ earlier.start, ∀ l ∈ later.start, e.value.kindRank = l.value.kindRank) :
    (earlier.narrow later).start.all (·.value.isNumber) =
      (earlier.start.all (·.value.isNumber) && later.start.all (·.value.isNumber)) := by
  cases he : earlier.start with
  | none => simp [narrow, he, Bound.chooses_tighterStart.none_left]
  | some e =>
    cases hl : later.start with
    | none => simp [narrow, he, hl, Bound.chooses_tighterStart.none_right]
    | some l =>
      have hkind : e.value.kindRank = l.value.kindRank := hkind e he l hl
      obtain ⟨b, hb, hvalue⟩ := Bound.chooses_tighterStart.some_some e l
      simp only [narrow, he, hl, hb, Option.all_some, Scalar.isNumber_eq, hkind, Bool.and_self]
      rcases hvalue with hvalue | hvalue
      · rw [hvalue, hkind]
      · rw [hvalue]

/-- A narrowed slice selects what both slices select if its range is their common part for the one
value that the property has at most. -/
theorem selects_narrow_of_contains (hproperty : earlier.property = later.property)
    (hkind : ∀ e ∈ earlier.start, ∀ l ∈ later.start, e.value.kindRank = l.value.kindRank)
    (hcontains : ∀ v ∈ propertyValues id doc later.property,
      (earlier.narrow later).contains v = (earlier.contains v && later.contains v))
    (hsingle : (propertyValues id doc later.property).length ≤ 1) :
    (earlier.narrow later).selects id doc = (earlier.selects id doc && later.selects id doc) := by
  have hnarrow : (earlier.narrow later).property = later.property := hproperty
  unfold selects
  rw [hnarrow, hproperty]
  by_cases hid : later.property = idProperty
  · rw [if_pos hid, if_pos hid, if_pos hid]
    unfold containsId
    cases hv : Scalar.ofId? id with
    | some v =>
      refine hcontains v ?_
      rw [propertyValues, if_pos hid, hv]
      exact List.mem_singleton_self v
    | none =>
      -- An id that is too large has no value, and is judged by the kinds of the bounds.
      simp only [all_isNumber_narrow hkind]
      simp only [narrow, Bound.chooses_tighterFinish.isNone_eq]
      cases earlier.finish.isNone <;> cases later.finish.isNone <;> simp
  · rw [if_neg hid, if_neg hid, if_neg hid]
    match hv : propertyValues id doc later.property with
    | [] => rfl
    | [v] => simpa using hcontains v (by simp [hv])
    | v :: w :: rest => simp [hv] at hsingle

/-- **A narrowed slice selects what both slices select**, if the property has one value at most. -/
theorem selects_narrow (hS : Scalar.Ordered S) (hearlier : earlier.Fits S kind)
    (hlater : later.Fits S kind) (hproperty : earlier.property = later.property)
    (hvalues : ∀ v ∈ propertyValues id doc later.property, Scalar.Among S v)
    (hsingle : (propertyValues id doc later.property).length ≤ 1) :
    (earlier.narrow later).selects id doc = (earlier.selects id doc && later.selects id doc) := by
  refine selects_narrow_of_contains hproperty (fun e he l hl => ?_)
    (fun v hv => contains_narrow hS hearlier hlater (hvalues v hv)) hsingle
  have hekind : e.value.kindRank = kind := (hearlier e (by simp [bounds, Option.mem_def.mp he])).2
  have hlkind : l.value.kindRank = kind := (hlater l (by simp [bounds, Option.mem_def.mp hl])).2
  rw [hekind, hlkind]

end Slice

end EntityQuery
