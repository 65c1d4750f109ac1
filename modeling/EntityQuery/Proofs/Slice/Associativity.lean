import EntityQuery.Proofs.Scalar.Blurred
import EntityQuery.Proofs.Slice.Group

/-! # Narrowing three slices

Of bounds that do not compare the later one stands, and that is settled pair by pair. A bound that
gave way to one of another kind does not come back when its own kind is met again, unless these two
are brought together first. So narrowing is associative just if a bound that gives way to the second
of three would give way to the third as well.

Where slices are narrowed in one order and kept apart in another, it matters instead that they mean
the same narrowed and apart. They do for a single value if the ends on each side compare.

* `Bound.Yields`, `Slice.narrow_assoc_iff`: **when narrowing does not depend on parentheses**.
* `Slice.Level`, `Slice.Level.selects_narrow`: when slices mean the same narrowed and apart. -/

namespace EntityQuery

theorem merge_assoc_iff {α : Type} {f : α → α → α} {x y z : Option α} :
    Option.merge f (Option.merge f x y) z = Option.merge f x (Option.merge f y z) ↔
      ∀ a ∈ x, ∀ b ∈ y, ∀ c ∈ z, f (f a b) c = f a (f b c) := by
  cases x with
  | none => simp
  | some a =>
    cases y with
    | none => simp
    | some b =>
      cases z with
      | none => simp
      | some c => simp

/-! ## Bounds -/

namespace Bound

theorem tighter_assoc (cmp : Scalar → Scalar → Ordering) [Std.TransCmp cmp] (a b c : Bound) :
    tighter (cmp (tighter (cmp a.value b.value) a b).value c.value)
        (tighter (cmp a.value b.value) a b) c =
      tighter (cmp a.value (tighter (cmp b.value c.value) b c).value) a
        (tighter (cmp b.value c.value) b c) := by
  cases hab : cmp a.value b.value with
  | lt =>
    cases hbc : cmp b.value c.value with
    | lt => simp [tighter, hbc, Std.TransCmp.lt_trans hab hbc]
    | eq => simp [tighter, hbc, Std.TransCmp.lt_of_lt_of_eq hab hbc]
    | gt => simp [tighter, hbc, hab]
  | eq =>
    cases hbc : cmp b.value c.value with
    | lt => simp [tighter, hbc, Std.TransCmp.lt_of_eq_of_lt hab hbc]
    | eq => simp [tighter, hbc, Std.TransCmp.eq_trans hab hbc, Bool.and_assoc]
    | gt => simp [tighter, hbc, hab]
  | gt =>
    cases hbc : cmp b.value c.value with
    | lt => simp [tighter]
    | eq => simp [tighter, Std.TransCmp.gt_of_gt_of_eq hab hbc]
    | gt => simp [tighter, hab, Std.TransCmp.gt_trans hab hbc]

/-- The tighter of two bounds under a comparison; the later one if they do not compare. -/
def tighterBy (compare : Scalar → Scalar → Option Ordering) (earlier later : Bound) : Bound :=
  tighter ((compare earlier.value later.value).getD .lt) earlier later

theorem tighterStart_eq (earlier later : Option Bound) :
    tighterStart earlier later = Option.merge (tighterBy Scalar.compare) earlier later := by
  cases earlier with
  | none => cases later <;> rfl
  | some e =>
    cases later with
    | none => rfl
    | some l =>
      simp only [tighterStart, Option.merge_some_some, tighterBy]
      cases e.value.compare l.value with
      | none => rfl
      | some o => cases o <;> rfl

theorem tighterFinish_eq (earlier later : Option Bound) :
    tighterFinish earlier later =
      Option.merge (tighterBy fun a b => b.compare a) earlier later := by
  cases earlier with
  | none => cases later <;> rfl
  | some e =>
    cases later with
    | none => rfl
    | some l =>
      simp only [tighterFinish, Option.merge_some_some, tighterBy, Scalar.compare_swap e.value]
      cases e.value.compare l.value with
      | none => rfl
      | some o => cases o <;> rfl

section Compare

variable {S : List Scalar} {compare : Scalar → Scalar → Option Ordering}
  {cmp : Scalar → Scalar → Ordering} {a b c e l : Bound}

theorem kindRank_tighter (o : Ordering) (h : e.value.kindRank = l.value.kindRank) :
    (tighter o e l).value.kindRank = l.value.kindRank := by
  rcases value_tighter o e l with hvalue | hvalue <;> rw [hvalue]
  exact h

theorem tighter_mem (o : Ordering) (he : e.value ∈ S) (hl : l.value ∈ S) :
    (tighter o e l).value ∈ S := by
  rcases value_tighter o e l with hvalue | hvalue <;> rw [hvalue]
  · exact he
  · exact hl

variable (hcompare : ∀ x ∈ S, ∀ y ∈ S,
  compare x y = if x.kindRank = y.kindRank then some (cmp x y) else none)
include hcompare

theorem tighterBy_of_kindRank_eq (he : e.value ∈ S) (hl : l.value ∈ S)
    (hkind : e.value.kindRank = l.value.kindRank) :
    tighterBy compare e l = tighter (cmp e.value l.value) e l := by
  rw [tighterBy, hcompare _ he _ hl, if_pos hkind]
  rfl

theorem tighterBy_of_kindRank_ne (he : e.value ∈ S) (hl : l.value ∈ S)
    (hkind : e.value.kindRank ≠ l.value.kindRank) : tighterBy compare e l = l := by
  rw [tighterBy, hcompare _ he _ hl, if_neg hkind]
  rfl

/-- **Narrowing is associative just if the first bound yields to the third whenever it does not
compare with the second.** -/
theorem tighterBy_assoc_iff [Std.TransCmp cmp] (ha : a.value ∈ S) (hb : b.value ∈ S)
    (hc : c.value ∈ S) :
    tighterBy compare (tighterBy compare a b) c = tighterBy compare a (tighterBy compare b c) ↔
      (compare a.value b.value = none → tighterBy compare a c = c) := by
  have hsame := @tighterBy_of_kindRank_eq S compare cmp
  have hother := @tighterBy_of_kindRank_ne S compare cmp
  have hcomparable := hcompare _ ha _ hb
  by_cases hab : a.value.kindRank = b.value.kindRank
  · -- The first two compare, so nothing is asked, and the third is of their kind or put last.
    rw [if_pos hab] at hcomparable
    have habkind := kindRank_tighter (cmp a.value b.value) hab
    have habmem := tighter_mem (cmp a.value b.value) ha hb
    have hassoc : tighterBy compare (tighterBy compare a b) c =
        tighterBy compare a (tighterBy compare b c) := by
      rw [hsame hcompare ha hb hab]
      by_cases hbc : b.value.kindRank = c.value.kindRank
      · have hbckind := kindRank_tighter (cmp b.value c.value) hbc
        rw [hsame hcompare hb hc hbc, hsame hcompare habmem hc (habkind.trans hbc),
          hsame hcompare ha (tighter_mem _ hb hc) (hab.trans (hbc.trans hbckind.symm)),
          tighter_assoc]
      · rw [hother hcompare hb hc hbc, hother hcompare habmem hc (habkind ▸ hbc),
          hother hcompare ha hc (hab ▸ hbc)]
    simp [hassoc, hcomparable]
  · rw [if_neg hab] at hcomparable
    rw [hother hcompare ha hb hab]
    by_cases hbc : b.value.kindRank = c.value.kindRank
    · have hbckind := kindRank_tighter (cmp b.value c.value) hbc
      have hac : a.value.kindRank ≠ c.value.kindRank := fun hac => hab (hac.trans hbc.symm)
      rw [hsame hcompare hb hc hbc, hother hcompare ha hc hac,
        hother hcompare ha (tighter_mem _ hb hc) (by rwa [hbckind])]
      simp
    · rw [hother hcompare hb hc hbc]
      simp [hcomparable, eq_comm]

end Compare

/-- Of three bounds, the first yields to the third whenever it does not compare with the second. -/
def Yields (tighter : Option Bound → Option Bound → Option Bound)
    (first second third : Option Bound) : Prop :=
  ∀ a ∈ first, ∀ b ∈ second, ∀ c ∈ third,
    a.value.compare b.value = none → tighter (some a) (some c) = some c

/-- Of three bounds, no double blurs the integers. -/
def Unblurred (first second third : Option Bound) : Prop :=
  ∀ a ∈ first, ∀ b ∈ second, ∀ c ∈ third, ¬ Scalar.Blurred [a.value, b.value, c.value]

variable {first second third : Option Bound}

theorem tighterStart_assoc_iff (h : Unblurred first second third) :
    tighterStart (tighterStart first second) third =
        tighterStart first (tighterStart second third) ↔
      Yields tighterStart first second third := by
  simp only [Yields, tighterStart_eq, merge_assoc_iff]
  refine forall₂_congr fun a ha => forall₂_congr fun b hb => forall₂_congr fun c hc => ?_
  obtain ⟨cmp, hcmp, horder⟩ := Scalar.ordered_iff.mpr (h a ha b hb c hc)
  rw [tighterBy_assoc_iff (fun x hx y hy => (horder x y (.inl hx) (.inl hy)).1) (by simp) (by simp)
    (by simp), Option.merge_some_some, Option.some.injEq]

theorem tighterFinish_assoc_iff (h : Unblurred first second third) :
    tighterFinish (tighterFinish first second) third =
        tighterFinish first (tighterFinish second third) ↔
      Yields tighterFinish first second third := by
  simp only [Yields, tighterFinish_eq, merge_assoc_iff]
  refine forall₂_congr fun a ha => forall₂_congr fun b hb => forall₂_congr fun c hc => ?_
  obtain ⟨cmp, hcmp, horder⟩ := Scalar.ordered_iff.mpr (h a ha b hb c hc)
  -- Upper bounds are narrowed as lower bounds are in the order turned round.
  have hcompare : ∀ x ∈ [a.value, b.value, c.value], ∀ y ∈ [a.value, b.value, c.value],
      y.compare x = if x.kindRank = y.kindRank then some (cmp y x) else none := by
    intro x hx y hy
    rw [(horder y x (.inl hy) (.inl hx)).1]
    simp only [eq_comm]
  rw [tighterBy_assoc_iff hcompare (by simp) (by simp) (by simp), Option.merge_some_some,
    Option.some.injEq, Scalar.compare_swap, Option.map_eq_none_iff]

end Bound

/-! ## Slices -/

/-- Ends of ranges compare with each other, and among them and the values no double blurs the
integers. -/
structure Scalar.Level (ends values : List Scalar) : Prop where
  comparable : ∀ a ∈ ends, ∀ b ∈ ends, (a.compare b).isSome = true
  unblurred : ¬ Blurred (ends ++ values)

theorem Scalar.Level.exists_orders {ends values : List Scalar} (h : Level ends values)
    {bounds : List Bound} (hbounds : ∀ b ∈ bounds, b.value ∈ ends) {v : Scalar} (hv : v ∈ values) :
    ∃ cmp kind, Std.TransCmp cmp ∧ Bound.Orders cmp kind v bounds := by
  obtain ⟨cmp, hcmp, horder⟩ := ordered_iff.mpr h.unblurred
  have hcompare : ∀ a ∈ ends ++ values, ∀ b ∈ ends ++ values,
      a.compare b = if a.kindRank = b.kindRank then some (cmp a b) else none :=
    fun a ha b hb => (horder a b (.inl ha) (.inl hb)).1
  cases bounds with
  | nil => exact ⟨cmp, 0, hcmp, by simp, by simp⟩
  | cons first rest =>
    have hends : ∀ b ∈ first :: rest, b.value ∈ ends ++ values ∧
        b.value.kindRank = first.value.kindRank := fun b hb =>
      ⟨List.mem_append_left _ (hbounds b hb), Slice.kindRank_eq_of_compare
        (h.comparable _ (hbounds b hb) _ (hbounds first (by simp)))⟩
    refine ⟨cmp, first.value.kindRank, hcmp, fun e he l hl => ?_, fun b hb => ?_⟩
    · rw [hcompare _ (hends e he).1 _ (hends l hl).1, (hends e he).2, (hends l hl).2, if_pos rfl]
    · rw [hcompare _ (List.mem_append_right _ hv) _ (hends b hb).1, (hends b hb).2]

namespace Slice

variable {s t u : Slice} {slices : List Slice} {values : List Scalar} {id : EntityId} {doc : Json}

/-- **Narrowing three slices does not depend on parentheses just if their bounds yield** on either
side. -/
theorem narrow_assoc_iff (hstart : Bound.Unblurred s.start t.start u.start)
    (hfinish : Bound.Unblurred s.finish t.finish u.finish) :
    (s.narrow t).narrow u = s.narrow (t.narrow u) ↔
      Bound.Yields Bound.tighterStart s.start t.start u.start ∧
        Bound.Yields Bound.tighterFinish s.finish t.finish u.finish := by
  rw [← Bound.tighterStart_assoc_iff hstart, ← Bound.tighterFinish_assoc_iff hfinish]
  simp [narrow, Bool.or_assoc]

/-- The values of the bound on one side. -/
def ends (side : Slice → Option Bound) (s : Slice) : List Scalar := (side s).toList.map Bound.value

/-- Slices over one property mean the same narrowed and apart: the property has one value at most,
and on each side the ends are level. -/
structure Level (slices : List Slice) (values : List Scalar) : Prop where
  single : values.length ≤ 1
  start : Scalar.Level (slices.flatMap (ends start)) values
  finish : Scalar.Level (slices.flatMap (ends finish)) values

/-- The ends of a slice are among those of other slices. -/
structure SpannedBy (slices : List Slice) (s : Slice) : Prop where
  start : ends start s ⊆ slices.flatMap (ends Slice.start)
  finish : ends finish s ⊆ slices.flatMap (ends Slice.finish)

theorem spannedBy_of_mem (hs : s ∈ slices) : s.SpannedBy slices where
  start _ hv := List.mem_flatMap.mpr ⟨s, hs, hv⟩
  finish _ hv := List.mem_flatMap.mpr ⟨s, hs, hv⟩

theorem ends_narrow {tighter : Option Bound → Option Bound → Option Bound}
    (hchooses : Bound.Chooses tighter) {side : Slice → Option Bound}
    (hside : side (s.narrow t) = tighter (side s) (side t)) :
    ends side (s.narrow t) ⊆ ends side s ++ ends side t := by
  intro v hv
  obtain ⟨b, hb, rfl⟩ := List.mem_map.mp hv
  rw [hside, Option.mem_toList] at hb
  obtain ⟨b', hb', hvalue⟩ := hchooses.value_of_mem hb
  rw [hvalue, ends, ends, ← List.map_append]
  exact List.mem_map_of_mem hb'

theorem SpannedBy.narrow (hs : s.SpannedBy slices) (ht : t.SpannedBy slices) :
    (s.narrow t).SpannedBy slices where
  start := List.Subset.trans (ends_narrow Bound.chooses_tighterStart (by rfl))
    (List.append_subset.mpr ⟨hs.start, ht.start⟩)
  finish := List.Subset.trans (ends_narrow Bound.chooses_tighterFinish (by rfl))
    (List.append_subset.mpr ⟨hs.finish, ht.finish⟩)

theorem Level.contains_narrow (h : Level slices values) (hs : s.SpannedBy slices)
    (ht : t.SpannedBy slices) {v : Scalar} (hv : v ∈ values) :
    (s.narrow t).contains v = (s.contains v && t.contains v) := by
  have hstarts : ∀ b ∈ s.start.toList ++ t.start.toList,
      b.value ∈ slices.flatMap (ends Slice.start) := fun b hb =>
    (List.mem_append.mp hb).elim (fun hb => hs.start (List.mem_map_of_mem hb))
      fun hb => ht.start (List.mem_map_of_mem hb)
  have hfinishes : ∀ b ∈ s.finish.toList ++ t.finish.toList,
      b.value ∈ slices.flatMap (ends Slice.finish) := fun b hb =>
    (List.mem_append.mp hb).elim (fun hb => hs.finish (List.mem_map_of_mem hb))
      fun hb => ht.finish (List.mem_map_of_mem hb)
  obtain ⟨cmp, low, hcmp, hstart⟩ := h.start.exists_orders hstarts hv
  obtain ⟨cmp', high, hcmp', hfinish⟩ := h.finish.exists_orders hfinishes hv
  exact contains_narrow_of_orders hstart hfinish

/-- **A narrowed slice selects what both slices select** if they are level. -/
theorem Level.selects_narrow (h : Level slices (propertyValues id doc t.property))
    (hs : s.SpannedBy slices) (ht : t.SpannedBy slices) (hst : s.property = t.property) :
    (s.narrow t).selects id doc = (s.selects id doc && t.selects id doc) := by
  refine selects_narrow_of_contains hst (fun e he l hl => ?_)
    (fun v hv => h.contains_narrow hs ht hv) h.single
  refine kindRank_eq_of_compare (h.start.comparable _ (hs.start ?_) _ (ht.start ?_))
  · simp [ends, Option.mem_def.mp he]
  · simp [ends, Option.mem_def.mp hl]

end Slice

end EntityQuery
