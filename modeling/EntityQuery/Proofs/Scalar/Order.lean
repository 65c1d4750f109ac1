import EntityQuery.Paging.Row
import EntityQuery.Proofs.Number.Binary64

/-! # The order of scalars

Integers are compared with doubles after rounding, so in general scalars are not in one order: an
integer beyond `2 ^ 53` may be equal to a double that is equal to its neighbour, too. Scalars are
*exact* when there is no double among them, or no integer beyond that size. Exact scalars are in one
order, in which those of one kind compare as `Scalar.compare` says.

* `Scalar.compare_swap`: comparisons turn round when scalars are exchanged.
* `Scalar.Ordered`: scalars are in one order.
* `Scalar.Exact.ordered`: exact scalars are. -/

namespace EntityQuery.Scalar

theorem compare_swap (a b : Scalar) : b.compare a = (a.compare b).map Ordering.swap := by
  have hfloat : ∀ x y : Binary64, Ord.compare y x = (Ord.compare x y).swap := fun x y =>
    Std.OrientedOrd.eq_swap (a := y.ordinal) (b := x.ordinal)
  cases a with
  | bool p =>
    cases b with
    | bool q => exact congrArg some Std.OrientedOrd.eq_swap
    | _ => rfl
  | int m =>
    cases b with
    | int n => exact congrArg some Std.OrientedOrd.eq_swap
    | float y => exact congrArg some (hfloat _ _)
    | _ => rfl
  | float x =>
    cases b with
    | int n => exact congrArg some (hfloat _ _)
    | float y => exact congrArg some (hfloat _ _)
    | _ => rfl
  | string s =>
    cases b with
    | string t => exact congrArg some Std.OrientedOrd.eq_swap
    | _ => rfl

theorem sortCompare_swap (a b : Scalar) : b.sortCompare a = (a.sortCompare b).swap := by
  have hrank : Ord.compare b.kindRank a.kindRank = (Ord.compare a.kindRank b.kindRank).swap :=
    Std.OrientedOrd.eq_swap
  rw [sortCompare, sortCompare, hrank, compare_swap, Ordering.swap_then]
  cases a.compare b <;> rfl

/-- There is no double among the scalars, or the integers among them are doubles. -/
def Exact (S : List Scalar) : Prop :=
  (∀ x, float x ∉ S) ∨ ∀ n, int n ∈ S → n.toInt.natAbs ≤ Binary64.exactLimit

theorem Exact.mono {S S' : List Scalar} (h : Exact S) (hsub : S' ⊆ S) : Exact S' :=
  h.imp (fun hnofloat x hx => hnofloat x (hsub hx)) fun hsmall n hn => hsmall n (hsub hn)

/-- Where a scalar stands among those of its kind that are no texts; `ofInt` says where integers
stand among the numbers. -/
def measure (ofInt : Int64 → Int) : Scalar → Int
  | bool b => b.toInt
  | int n => ofInt n
  | float x => x.ordinal
  | string _ => 0

/-- The text of a scalar that is one. -/
def letters : Scalar → String
  | string s => s
  | _ => ""

/-- The order of scalars by kind, then by measure, then by text. -/
def compareBy (ofInt : Int64 → Int) : Scalar → Scalar → Ordering :=
  compareLex (compareOn kindRank) (compareLex (compareOn (measure ofInt)) (compareOn letters))

instance (ofInt : Int64 → Int) : Std.TransCmp (compareBy ofInt) :=
  inferInstanceAs (Std.TransCmp (compareLex _ _))

/-- A place for every integer under which the listed scalars compare as numbers. -/
structure Measures (ofInt : Int64 → Int) (S : List Scalar) : Prop where
  int_int : ∀ m n, int m ∈ S → int n ∈ S →
    Ord.compare (ofInt m) (ofInt n) = Ord.compare m.toInt n.toInt
  int_float : ∀ m x, int m ∈ S → float x ∈ S → ofInt m = (Binary64.ofInt64 m).ordinal

theorem compare_toInt (m n : Int64) : Ord.compare m n = Ord.compare m.toInt n.toInt := by
  cases hmn : Ord.compare m n with
  | lt =>
    have hlt : m < n := Std.compare_eq_lt.mp hmn
    rw [Std.compare_eq_lt.mpr (Int64.lt_iff_toInt_lt.mp hlt)]
  | eq => rw [Std.compare_eq_iff_eq.mp hmn, Std.compare_self]
  | gt =>
    have hgt : n < m := Std.compare_eq_gt.mp hmn
    rw [Std.compare_eq_gt.mpr (Int64.lt_iff_toInt_lt.mp hgt)]

theorem Exact.exists_measures {S : List Scalar} (h : Exact S) : ∃ ofInt, Measures ofInt S := by
  rcases h with hnofloat | hsmall
  · exact ⟨Int64.toInt, fun _ _ _ _ => rfl, fun _ x _ hx => absurd hx (hnofloat x)⟩
  · exact ⟨fun n => (Binary64.ofInt64 n).ordinal,
      fun m n hm hn => Binary64.compare_ofInt64 (hsmall m hm) (hsmall n hn), fun _ _ _ _ => rfl⟩

/-- A scalar is one of those listed, or a text. -/
def Among (S : List Scalar) (a : Scalar) : Prop := a ∈ S ∨ ∃ s, a = string s

theorem Among.mem {S : List Scalar} {a : Scalar} (h : Among S a) (hne : ∀ s, a ≠ string s) :
    a ∈ S := by
  rcases h with ha | ⟨s, rfl⟩
  · exact ha
  · exact absurd rfl (hne s)

theorem compare_eq_compareBy {ofInt : Int64 → Int} {S : List Scalar} (h : Measures ofInt S)
    {a b : Scalar} (ha : Among S a) (hb : Among S b) :
    a.compare b = if a.kindRank = b.kindRank then some (compareBy ofInt a b) else none := by
  cases a with
  | bool a =>
    cases b with
    | bool b => cases a <;> cases b <;> rfl
    | _ => rfl
  | string a =>
    cases b with
    | string b => simp [compare, kindRank, compareBy, compareLex, compareOn, measure, letters]
    | _ => rfl
  | int m =>
    have hm : int m ∈ S := ha.mem (by simp)
    cases b with
    | int n =>
      have hn : int n ∈ S := hb.mem (by simp)
      simp [compare, kindRank, compareBy, compareLex, compareOn, measure, letters,
        h.int_int m n hm hn, compare_toInt]
    | float x =>
      have hx : float x ∈ S := hb.mem (by simp)
      simp [compare, kindRank, compareBy, compareLex, compareOn, measure, letters,
        h.int_float m x hm hx]
      rfl
    | _ => rfl
  | float x =>
    have hx : float x ∈ S := ha.mem (by simp)
    cases b with
    | int n =>
      have hn : int n ∈ S := hb.mem (by simp)
      simp [compare, kindRank, compareBy, compareLex, compareOn, measure, letters,
        h.int_float n x hn hx]
      rfl
    | float y =>
      simp [compare, kindRank, compareBy, compareLex, compareOn, measure, letters]
      rfl
    | _ => rfl

/-! ## One order for all listed scalars -/

/-- The listed scalars and all texts are in one order, in which those of one kind compare as
`Scalar.compare` says. -/
def Ordered (S : List Scalar) : Prop :=
  ∃ cmp : Scalar → Scalar → Ordering, Std.TransCmp cmp ∧
    ∀ a b, Among S a → Among S b →
      a.compare b = (if a.kindRank = b.kindRank then some (cmp a b) else none) ∧
      a.sortCompare b = cmp a b

theorem then_of_kindRank_ne {a b : Scalar} (hkind : a.kindRank ≠ b.kindRank) (o : Ordering) :
    (Ord.compare a.kindRank b.kindRank).then o = Ord.compare a.kindRank b.kindRank := by
  cases hrank : Ord.compare a.kindRank b.kindRank with
  | eq => exact absurd (Std.compare_eq_iff_eq.mp hrank) hkind
  | _ => rfl

theorem compareBy_of_kindRank_ne {ofInt : Int64 → Int} {a b : Scalar}
    (hkind : a.kindRank ≠ b.kindRank) :
    compareBy ofInt a b = Ord.compare a.kindRank b.kindRank :=
  then_of_kindRank_ne hkind _

/-- Sorting goes by an order that agrees with comparison on one kind and puts the kinds in theirs. -/
theorem sortCompare_eq {cmp : Scalar → Scalar → Ordering} {a b : Scalar}
    (hcompare : a.compare b = if a.kindRank = b.kindRank then some (cmp a b) else none)
    (hkinds : a.kindRank ≠ b.kindRank → cmp a b = Ord.compare a.kindRank b.kindRank) :
    a.sortCompare b = cmp a b := by
  unfold sortCompare
  rw [hcompare]
  by_cases hkind : a.kindRank = b.kindRank
  · rw [if_pos hkind, hkind, Std.compare_self]
    rfl
  · rw [hkinds hkind]
    exact then_of_kindRank_ne hkind _

/-- **Exact scalars are in one order.** -/
theorem Exact.ordered {S : List Scalar} (h : Exact S) : Ordered S := by
  obtain ⟨ofInt, hofInt⟩ := h.exists_measures
  refine ⟨compareBy ofInt, inferInstance, fun a b ha hb => ?_⟩
  have hcompare := compare_eq_compareBy hofInt ha hb
  exact ⟨hcompare, sortCompare_eq hcompare compareBy_of_kindRank_ne⟩

end EntityQuery.Scalar
