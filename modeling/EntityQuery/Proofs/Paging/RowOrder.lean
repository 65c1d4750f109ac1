import EntityQuery.Proofs.Scalar.Order
import Mathlib.Data.List.Forall2
import Mathlib.Data.List.Nodup

/-! # The order of rows

If the values of each property to sort by are in one order, so are rows, whatever the directions of
the properties and of the search; exact values are. Rows that have no equal are put in strict order,
which makes one list of them.

* `RowPosition.exists_order`: the order of rows whose values are in one order.
* `RowPosition.ordered`: rows with exact values are in one order.
* `sortAscending_pairwise_of`, `sortAscending_pairwise`: what is put in order is in order, and in
  strict order if no two elements are equal. -/

namespace EntityQuery

/-! ## Orders made of orders -/

theorem Direction.transCmp_orient {α : Type} (d : Direction) (cmp : α → α → Ordering)
    [Std.TransCmp cmp] : Std.TransCmp fun a b => d.orient (cmp a b) := by
  cases d with
  | ascending => exact inferInstanceAs (Std.TransCmp cmp)
  | descending =>
    refine { eq_swap := ?_, isLE_trans := ?_ }
    · intro a b
      exact congrArg Ordering.swap Std.OrientedCmp.eq_swap
    · intro a b c hab hbc
      simp only [Direction.orient, ← Std.OrientedCmp.eq_swap] at hab hbc ⊢
      exact Std.TransCmp.isLE_trans hbc hab

theorem transCmp_comap {α β : Type} (cmp : β → β → Ordering) [Std.TransCmp cmp] (f : α → β) :
    Std.TransCmp fun a b => cmp (f a) (f b) where
  eq_swap := Std.OrientedCmp.eq_swap
  isLE_trans := Std.TransCmp.isLE_trans

/-- The order in which nothing comes last. -/
def compareNoneLast {α : Type} (cmp : α → α → Ordering) : Option α → Option α → Ordering
  | none, none => .eq
  | none, some _ => .gt
  | some _, none => .lt
  | some a, some b => cmp a b

instance {α : Type} {cmp : α → α → Ordering} [Std.TransCmp cmp] :
    Std.TransCmp (compareNoneLast cmp) where
  eq_swap {a b} := by
    cases a with
    | none => cases b <;> rfl
    | some a =>
      cases b with
      | none => rfl
      | some b =>
        have hswap : cmp a b = (cmp b a).swap := Std.OrientedCmp.eq_swap
        exact hswap
  isLE_trans {a b c} hab hbc := by
    cases a <;> cases b <;> cases c <;> simp_all only [compareNoneLast, Ordering.isLE_eq,
      Ordering.isLE_lt, Ordering.isLE_gt, Bool.false_eq_true]
    exact Std.TransCmp.isLE_trans hab hbc

/-! ## The order of rows -/

/-- The slots of a sort key hold scalars that are listed for the properties to sort by. -/
def SortKey.Listed (S : SortTerm → List Scalar) : List SortTerm → SortKey → Prop :=
  List.Forall₂ fun term slot => ∀ v ∈ slot, v ∈ S term

variable {S : SortTerm → List Scalar} {sort : List SortTerm} {d : Direction}

theorem compareSlots_eq {l : List Scalar} {cmp : Scalar → Scalar → Ordering}
    (h : ∀ a b, Scalar.Among l a → Scalar.Among l b → a.sortCompare b = cmp a b)
    {a b : Option Scalar} (ha : ∀ v ∈ a, v ∈ l) (hb : ∀ v ∈ b, v ∈ l) :
    compareSlots d a b = compareNoneLast (fun a b => d.orient (cmp a b)) a b := by
  cases a with
  | none => cases b <;> rfl
  | some a =>
    cases b with
    | none => rfl
    | some b => exact congrArg d.orient (h a b (.inl (ha a rfl)) (.inl (hb b rfl)))

theorem SortKey.exists_order (h : ∀ term ∈ sort, Scalar.Ordered (S term)) :
    ∃ cmp : SortKey → SortKey → Ordering, Std.TransCmp cmp ∧
      ∀ a b, Listed S sort a → Listed S sort b → compareKeys sort a b = cmp a b := by
  induction sort with
  | nil =>
    exact ⟨fun _ _ => .eq, { eq_swap := rfl, isLE_trans := fun _ _ => rfl }, fun _ _ _ _ => rfl⟩
  | cons term sort ih =>
    obtain ⟨slots, hslots, hslotsEq⟩ := h term (by simp)
    obtain ⟨keys, hkeys, hkeysEq⟩ := ih fun term hterm => h term (by simp [hterm])
    have hslotOrder := fun a b ha hb => (hslotsEq a b ha hb).2
    have horient := term.direction.transCmp_orient slots
    let slot := compareNoneLast fun a b => term.direction.orient (slots a b)
    let first (a b : SortKey) : Ordering := slot a.head?.join b.head?.join
    let rest (a b : SortKey) : Ordering := keys a.tail b.tail
    have hfirst : Std.TransCmp first := transCmp_comap slot fun key : SortKey => key.head?.join
    have hrest : Std.TransCmp rest := transCmp_comap keys List.tail
    refine ⟨compareLex first rest, inferInstance, fun a b ha hb => ?_⟩
    cases ha with
    | cons hslotA hkeyA =>
      cases hb with
      | cons hslotB hkeyB =>
        exact congrArg₂ Ordering.then (compareSlots_eq hslotOrder hslotA hslotB)
          (hkeysEq _ _ hkeyA hkeyB)

namespace RowPosition

/-- Rows are in one order as far as they have a property. -/
structure Ordered (sort : List SortTerm) (d : Direction) (P : RowPosition → Prop) : Prop where
  swap : ∀ {a b}, P a → P b → compare sort d b a = (compare sort d a b).swap
  trans : ∀ {a b c}, P a → P b → P c → compare sort d a b = .lt → compare sort d b c = .lt →
    compare sort d a c = .lt

theorem exists_order (h : ∀ term ∈ sort, Scalar.Ordered (S term)) (d : Direction) :
    ∃ cmp : RowPosition → RowPosition → Ordering, Std.TransCmp cmp ∧
      ∀ a b, a.key.Listed S sort → b.key.Listed S sort → compare sort d a b = cmp a b := by
  obtain ⟨keys, hkeys, hkeysEq⟩ := SortKey.exists_order h
  let ofKey (a b : RowPosition) : Ordering := keys a.key b.key
  have hofKey : Std.TransCmp ofKey := transCmp_comap keys RowPosition.key
  let rows := compareLex (compareLex ofKey (compareOn RowPosition.id)) (compareOn RowPosition.version)
  refine ⟨fun a b => d.orient (rows a b), d.transCmp_orient rows, fun a b ha hb => ?_⟩
  rw [compare, hkeysEq _ _ ha hb]
  rfl

/-- **Rows with exact values are in one order.** -/
theorem ordered (h : ∀ term ∈ sort, Scalar.Exact (S term)) :
    Ordered sort d fun row => row.key.Listed S sort := by
  obtain ⟨cmp, hcmp, hcompare⟩ := exists_order (fun term hterm => (h term hterm).ordered) d
  refine { swap := ?_, trans := ?_ }
  · intro a b ha hb
    rw [hcompare _ _ ha hb, hcompare _ _ hb ha]
    exact Std.OrientedCmp.eq_swap
  · intro a b c ha hb hc hab hbc
    rw [hcompare _ _ ha hb] at hab
    rw [hcompare _ _ hb hc] at hbc
    rw [hcompare _ _ ha hc]
    exact Std.TransCmp.lt_trans hab hbc

theorem eq_of_compare_eq {a b : RowPosition} (h : compare sort d a b = .eq) :
    a.id = b.id ∧ a.version = b.version := by
  have h : ((compareKeys sort a.key b.key).then (Ord.compare a.id b.id)).then
      (Ord.compare a.version b.version) = .eq := by
    cases d with
    | ascending => exact h
    | descending => exact Ordering.swap_eq_eq.mp h
  rw [Ordering.then_eq_eq, Ordering.then_eq_eq] at h
  exact ⟨Std.compare_eq_iff_eq.mp h.1.2, Std.compare_eq_iff_eq.mp h.2⟩

end RowPosition

/-! ## Putting rows in order -/

section Insertion

variable {α β : Type} {less : α → α → Bool} {P : α → Prop} {x : α} {l sorted : List α}

theorem insertDescending_perm (x : α) (l : List α) : (insertDescending less x l).Perm (x :: l) := by
  induction l with
  | nil => exact .refl _
  | cons y l ih =>
    unfold insertDescending
    split
    · exact (ih.cons y).trans (.swap x y l)
    · exact .refl _

theorem foldl_insertDescending_perm (l sorted : List α) :
    (l.foldl (fun sorted x => insertDescending less x sorted) sorted).Perm (l ++ sorted) := by
  induction l generalizing sorted with
  | nil => exact .refl _
  | cons x l ih =>
    refine (ih _).trans (((insertDescending_perm x sorted).append_left l).trans ?_)
    exact List.perm_middle

theorem sortAscending_perm (l : List α) : (sortAscending less l).Perm l := by
  have hperm : (l.foldl (fun sorted x => insertDescending less x sorted) []).Perm (l ++ []) :=
    foldl_insertDescending_perm l []
  rw [List.append_nil] at hperm
  exact (List.reverse_perm _).trans hperm

section Relation

variable {R : α → α → Prop} (htrans : ∀ {a b c}, P a → P b → P c → R a b → R b c → R a c)
include htrans

/-- An element is put where the list stays in order, if `less` tells which of two elements may come
first. -/
theorem insertDescending_pairwise (hx : P x) (hP : ∀ a ∈ l, P a) (hl : l.Pairwise fun a b => R b a)
    (hless : ∀ a ∈ l, if less x a then R x a else R a x) :
    (insertDescending less x l).Pairwise fun a b => R b a := by
  induction l with
  | nil => exact List.pairwise_singleton ..
  | cons y l ih =>
    obtain ⟨hy, hrest⟩ := List.pairwise_cons.mp hl
    have hxy := hless y (by simp)
    unfold insertDescending
    split
    · rename_i hlt
      rw [if_pos hlt] at hxy
      have hrest := ih (fun a ha => hP a (by simp [ha])) hrest fun a ha => hless a (by simp [ha])
      refine List.pairwise_cons.mpr ⟨fun a ha => ?_, hrest⟩
      rcases List.mem_cons.mp ((insertDescending_perm x l).mem_iff.mp ha) with rfl | ha
      · exact hxy
      · exact hy a ha
    · rename_i hlt
      rw [if_neg hlt] at hxy
      refine List.pairwise_cons.mpr ⟨fun a ha => ?_, hl⟩
      rcases List.mem_cons.mp ha with rfl | ha'
      · exact hxy
      · exact htrans (hP a ha) (hP y (by simp)) hx (hy a ha') hxy

theorem foldl_insertDescending_pairwise (hP : ∀ a ∈ l, P a) (hPsorted : ∀ a ∈ sorted, P a)
    (hl : l.Pairwise fun a b => if less b a then R b a else R a b)
    (hsorted : sorted.Pairwise fun a b => R b a)
    (hless : ∀ a ∈ l, ∀ b ∈ sorted, if less a b then R a b else R b a) :
    (l.foldl (fun sorted x => insertDescending less x sorted) sorted).Pairwise
      fun a b => R b a := by
  induction l generalizing sorted with
  | nil => exact hsorted
  | cons x l ih =>
    obtain ⟨hx, hrest⟩ := List.pairwise_cons.mp hl
    have hmem : ∀ a ∈ insertDescending less x sorted, a = x ∨ a ∈ sorted := fun a ha =>
      List.mem_cons.mp ((insertDescending_perm x sorted).mem_iff.mp ha)
    refine ih (fun a ha => hP a (by simp [ha])) (fun a ha => ?_) hrest ?_ fun a ha b hb => ?_
    · rcases hmem a ha with rfl | ha
      · exact hP a (by simp)
      · exact hPsorted a ha
    · exact insertDescending_pairwise htrans (hP x (by simp)) hPsorted hsorted (hless x (by simp))
    · rcases hmem b hb with rfl | hb
      · exact hx a ha
      · exact hless a (by simp [ha]) b hb

/-- **What is put in order is in order**, if `less` tells which of two elements may come first. -/
theorem sortAscending_pairwise_of (hP : ∀ a ∈ l, P a)
    (hl : l.Pairwise fun a b => if less b a then R b a else R a b) :
    (sortAscending less l).Pairwise R := by
  rw [sortAscending, List.pairwise_reverse]
  exact foldl_insertDescending_pairwise htrans hP (by simp) hl .nil (by simp)

end Relation

/-- **What is put in order is in strict order**, if no two elements are equal. -/
theorem sortAscending_pairwise
    (htrans : ∀ {a b c}, P a → P b → P c → less a b → less b c → less a c) (hP : ∀ a ∈ l, P a)
    (hl : l.Pairwise fun a b => less a b ∨ less b a) :
    (sortAscending less l).Pairwise fun a b => less a b := by
  refine sortAscending_pairwise_of (R := fun a b => less a b) htrans hP (hl.imp fun {a b} hab => ?_)
  split
  · assumption
  · exact hab.resolve_right ‹_›

theorem insertDescending_map {less : β → β → Bool} (f : α → β) (x : α) (l : List α) :
    insertDescending less (f x) (l.map f) =
      (insertDescending (fun a b => less (f a) (f b)) x l).map f := by
  induction l with
  | nil => rfl
  | cons y l ih =>
    simp only [List.map_cons, insertDescending, ih]
    split <;> rfl

theorem sortAscending_map {less : β → β → Bool} (f : α → β) (l : List α) :
    sortAscending less (l.map f) =
      (sortAscending (fun a b => less (f a) (f b)) l).map f := by
  have hfoldl : ∀ sorted : List α,
      (l.map f).foldl (fun sorted x => insertDescending less x sorted) (sorted.map f) =
        (l.foldl (fun sorted x => insertDescending (fun a b => less (f a) (f b)) x sorted)
          sorted).map f := by
    induction l with
    | nil => exact fun _ => rfl
    | cons x l ih =>
      intro sorted
      rw [List.map_cons, List.foldl_cons, List.foldl_cons, insertDescending_map, ih]
  rw [sortAscending, sortAscending, List.map_reverse]
  exact congrArg List.reverse (hfoldl [])

end Insertion

end EntityQuery
