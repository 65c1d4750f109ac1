import EntityQuery.Proofs.Execution.Results
import EntityQuery.Proofs.Paging.RowOrder
import EntityQuery.Proofs.Scalar.Blurred

/-! # When rows are in one order

Rows are to be in one total order: a comparison turns round when its rows are exchanged, what comes
before a row that comes before a third comes before the third, and only rows of one id and version
are equal. Then a sorted list of rows is in order, and the rows behind a place are its end.

All of this follows from transitivity. That fails where a property to sort by has two integers and a
double to which both are rounded: the ids tell each of the integers from the double, and may do so
against the order of the integers, so that three rows come in a circle.

* `RowPosition.compare_swap`: any two rows compare the other way round when they are exchanged.
* `RowPosition.TotallyOrdered`: what a total order of rows comes to.
* `RowPosition.circle_of_blurred`: where values are blurred, there are rows in a circle.
* `RowPosition.totallyOrdered_iff`: rows are in one total order just if no property to sort by has
  blurred values. -/

namespace EntityQuery

/-! ## Turning comparisons round -/

theorem Direction.orient_swap (d : Direction) (o : Ordering) : d.orient o.swap = (d.orient o).swap := by
  cases d <;> rfl

theorem compareSlots_swap (d : Direction) (a b : Option Scalar) :
    compareSlots d b a = (compareSlots d a b).swap := by
  cases a with
  | none => cases b <;> rfl
  | some a =>
    cases b with
    | none => rfl
    | some b =>
      show d.orient (b.sortCompare a) = (d.orient (a.sortCompare b)).swap
      rw [a.sortCompare_swap b, d.orient_swap]

theorem compareKeys_swap (sort : List SortTerm) (a b : SortKey) :
    compareKeys sort b a = (compareKeys sort a b).swap := by
  induction sort generalizing a b with
  | nil => rfl
  | cons term sort ih => rw [compareKeys, compareKeys, compareSlots_swap, ih, Ordering.swap_then]

namespace RowPosition

/-- Rows are in one total order as far as they have a property, so that they can be sorted and gone
on with from behind any of them. -/
structure TotallyOrdered (sort : List SortTerm) (d : Direction) (P : RowPosition → Prop) : Prop where
  swap : ∀ {a b}, P a → P b → compare sort d b a = (compare sort d a b).swap
  trans : ∀ {a b c}, P a → P b → P c → (compare sort d a b).isLE → (compare sort d b c).isLE →
    (compare sort d a c).isLE
  equal : Equivalence fun a b : Subtype P => compare sort d a.1 b.1 = .eq
  same : ∀ {a b}, P a → P b → compare sort d a b = .eq → a.id = b.id ∧ a.version = b.version
  sorted : ∀ rows : List RowPosition, (∀ row ∈ rows, P row) →
    (sortAscending (fun a b => compare sort d a b = .lt) rows).Pairwise
      fun a b => (compare sort d a b).isLE
  resumed : ∀ rows : List RowPosition, (∀ row ∈ rows, P row) →
    rows.Pairwise (fun a b => (compare sort d a b).isLE) → ∀ after, P after →
      rows.filter (!isAfter sort d (some after) ·) ++ rows.filter (isAfter sort d (some after)) =
        rows

variable {S : SortTerm → List Scalar} {sort : List SortTerm} {d : Direction}

theorem isAfter_some {after row : RowPosition} :
    isAfter sort d (some after) row = true ↔ compare sort d row after = .gt := by
  simp [isAfter]

/-- **Any two rows compare the other way round when they are exchanged.** -/
theorem compare_swap (a b : RowPosition) : compare sort d b a = (compare sort d a b).swap := by
  have hid : Ord.compare b.id a.id = (Ord.compare a.id b.id).swap := Std.OrientedOrd.eq_swap
  have hversion : Ord.compare b.version a.version = (Ord.compare a.version b.version).swap :=
    Std.OrientedOrd.eq_swap
  rw [compare, compare, compareKeys_swap, hid, hversion, ← d.orient_swap, Ordering.swap_then,
    Ordering.swap_then]

theorem compare_eq_comm {a b : RowPosition} :
    compare sort d a b = .eq ↔ compare sort d b a = .eq := by
  rw [compare_swap a b, Ordering.swap_eq_eq]

section Transitive

variable {P : RowPosition → Prop} {rows : List RowPosition}
  (htrans : ∀ {a b c}, P a → P b → P c → (compare sort d a b).isLE → (compare sort d b c).isLE →
    (compare sort d a c).isLE)
include htrans

theorem equivalence_of_trans :
    Equivalence fun a b : Subtype P => compare sort d a.1 b.1 = .eq := by
  refine ⟨fun a => ?_, fun hab => compare_eq_comm.mp hab, fun {a b c} hab hbc => ?_⟩
  · exact Ordering.eq_eq_of_eq_swap (compare_swap a.1 a.1)
  · have hac := htrans a.2 b.2 c.2 (Ordering.isLE_of_eq_eq hab) (Ordering.isLE_of_eq_eq hbc)
    have hca := htrans c.2 b.2 a.2 (Ordering.isLE_of_eq_eq (compare_eq_comm.mp hbc))
      (Ordering.isLE_of_eq_eq (compare_eq_comm.mp hab))
    rw [compare_swap a.1 c.1, Ordering.isLE_swap] at hca
    exact Ordering.eq_eq_of_isLE_of_isGE hac hca

theorem sorted_of_trans (hrows : ∀ row ∈ rows, P row) :
    (sortAscending (fun a b => compare sort d a b = .lt) rows).Pairwise
      fun a b => (compare sort d a b).isLE := by
  refine sortAscending_pairwise_of htrans hrows (List.pairwise_of_forall_mem_list ?_)
  intro a ha b hb
  rw [compare_swap b a]
  cases compare sort d b a <;> rfl

/-- In a list of rows in order, those behind a place are the end. -/
theorem resumed_of_trans (hrows : ∀ row ∈ rows, P row)
    (hsorted : rows.Pairwise fun a b => (compare sort d a b).isLE) {after : RowPosition}
    (hafter : P after) :
    rows.filter (!isAfter sort d (some after) ·) ++ rows.filter (isAfter sort d (some after)) =
      rows := by
  refine filter_not_append_filter hsorted fun a ha b hb hab hgt => ?_
  rw [isAfter_some] at hgt ⊢
  -- Were the later row not behind the place, the earlier one would not be either.
  by_contra hle
  have hafterLe := htrans (hrows a ha) (hrows b hb) hafter hab (Ordering.ne_gt_iff_isLE.mp hle)
  rw [hgt] at hafterLe
  cases hafterLe

/-- **A total order of rows comes to transitivity.** -/
theorem totallyOrdered_of_trans : TotallyOrdered sort d P where
  swap _ _ := compare_swap _ _
  trans := htrans
  equal := equivalence_of_trans htrans
  same _ _ heq := eq_of_compare_eq heq
  sorted _ hrows := sorted_of_trans htrans hrows
  resumed _ hrows hsorted _ hafter := resumed_of_trans htrans hrows hsorted hafter

end Transitive

theorem totallyOrdered_of_ordered (h : ∀ term ∈ sort, Scalar.Ordered (S term)) :
    TotallyOrdered sort d fun row => row.key.Listed S sort := by
  obtain ⟨cmp, hcmp, hcompare⟩ := exists_order h d
  refine totallyOrdered_of_trans fun {a b c} ha hb hc hab hbc => ?_
  rw [hcompare _ _ ha hb] at hab
  rw [hcompare _ _ hb hc] at hbc
  rw [hcompare _ _ ha hc]
  exact Std.TransCmp.isLE_trans hab hbc

/-! ## Rows in a circle -/

/-- Three rows with a property come one before the other in a circle. -/
def Circle (sort : List SortTerm) (d : Direction) (P : RowPosition → Prop) : Prop :=
  ∃ a b c, P a ∧ P b ∧ P c ∧
    compare sort d a b = .lt ∧ compare sort d b c = .lt ∧ compare sort d c a = .lt

theorem TotallyOrdered.not_circle {P : RowPosition → Prop} (h : TotallyOrdered sort d P) :
    ¬ Circle sort d P := by
  rintro ⟨a, b, c, ha, hb, hc, hab, hbc, hca⟩
  have hac := h.trans ha hb hc (Ordering.isLE_of_eq_lt hab) (Ordering.isLE_of_eq_lt hbc)
  rw [h.swap hc ha, hca] at hac
  cases hac

/-- A key with a value for one term and none for the others. -/
def keyAt (sort : List SortTerm) (term : SortTerm) (v : Scalar) : SortKey :=
  sort.map fun t => if t = term then some v else none

variable {term : SortTerm} {u v : Scalar}

theorem listed_keyAt (hv : v ∈ S term) : (keyAt sort term v).Listed S sort := by
  unfold keyAt SortKey.Listed
  rw [List.forall₂_map_right_iff, List.forall₂_same]
  intro t _ w hw
  split_ifs at hw with ht
  · obtain rfl := Option.some.inj hw
    rwa [ht]
  · cases hw

theorem compareKeys_keyAt (sort : List SortTerm) (term : SortTerm) (u v : Scalar) :
    compareKeys sort (keyAt sort term u) (keyAt sort term v) =
      if term ∈ sort then term.direction.orient (u.sortCompare v) else .eq := by
  induction sort with
  | nil => rfl
  | cons t sort ih =>
    have hstep : compareKeys (t :: sort) (keyAt (t :: sort) term u) (keyAt (t :: sort) term v) =
        (compareSlots t.direction (if t = term then some u else none)
          (if t = term then some v else none)).then
            (compareKeys sort (keyAt sort term u) (keyAt sort term v)) := rfl
    rw [hstep, ih]
    by_cases ht : t = term
    · subst ht
      simp only [if_true, List.mem_cons, true_or, compareSlots]
      split_ifs
      · exact Ordering.then_self
      · exact Ordering.then_eq
    · simp only [if_neg ht, compareSlots, List.mem_cons, Ne.symm ht, false_or, Ordering.eq_then]

theorem compare_keyAt (hterm : term ∈ sort) (i j version : UInt64) :
    compare sort d ⟨keyAt sort term u, i, version⟩ ⟨keyAt sort term v, j, version⟩ =
      d.orient ((term.direction.orient (u.sortCompare v)).then (Ord.compare i j)) := by
  rw [compare, compareKeys_keyAt, if_pos hterm, Std.compare_self, Ordering.then_eq]

theorem exists_orient_lt (d t : Direction) {m n : Int64} (hne : m ≠ n) :
    d.orient (t.orient (Ord.compare m n)) = .lt ∨ d.orient (t.orient (Ord.compare n m)) = .lt := by
  have hswap : Ord.compare n m = (Ord.compare m n).swap := Std.OrientedCmp.eq_swap
  rw [hswap]
  cases hmn : Ord.compare m n with
  | eq => exact absurd (Std.compare_eq_iff_eq.mp hmn) hne
  | lt => cases d <;> cases t <;> simp [Direction.orient]
  | gt => cases d <;> cases t <;> simp [Direction.orient]

/-- Two integers that are equal to one double make a circle with it: the ids tell each of them from
the double, against the order of the integers. -/
theorem circle_of_lt {x : Binary64} {m n : Int64} (hterm : term ∈ sort)
    (hx : .float x ∈ S term) (hm : .int m ∈ S term) (hn : .int n ∈ S term)
    (hmx : (Scalar.int m).compare (.float x) = some .eq)
    (hnx : (Scalar.int n).compare (.float x) = some .eq)
    (hmn : d.orient (term.direction.orient (Ord.compare m n)) = .lt) :
    Circle sort d fun row => row.key.Listed S sort := by
  obtain ⟨i, j, k, hij, hjk⟩ : ∃ i j k : UInt64,
      d.orient (Ord.compare i j) = .lt ∧ d.orient (Ord.compare j k) = .lt := by
    cases d with
    | ascending => exact ⟨1, 2, 3, by decide, by decide⟩
    | descending => exact ⟨3, 2, 1, by decide, by decide⟩
  have hequal : term.direction.orient .eq = .eq := by
    cases term.direction <;> rfl
  refine ⟨⟨keyAt sort term (.int n), i, 0⟩, ⟨keyAt sort term (.float x), j, 0⟩,
    ⟨keyAt sort term (.int m), k, 0⟩, listed_keyAt hn, listed_keyAt hx, listed_keyAt hm, ?_, ?_, ?_⟩
  · rw [compare_keyAt hterm, Scalar.sortCompare_int_float hnx, hequal]
    exact hij
  · rw [compare_keyAt hterm, Scalar.sortCompare_float_int hmx, hequal]
    exact hjk
  · rw [compare_keyAt hterm]
    show d.orient ((term.direction.orient (Ord.compare m n)).then _) = .lt
    cases ho : term.direction.orient (Ord.compare m n) with
    | eq =>
      rw [ho] at hmn
      cases d <;> cases hmn
    | _ =>
      rw [ho] at hmn
      exact hmn

/-- **Where values are blurred, there are rows in a circle**, in either direction. -/
theorem circle_of_blurred (d : Direction) (hterm : term ∈ sort) (hS : Scalar.Blurred (S term)) :
    Circle sort d fun row => row.key.Listed S sort := by
  obtain ⟨x, m, n, hx, hm, hn, hne, hmx, hnx⟩ := hS
  rcases exists_orient_lt d term.direction hne with hmn | hnm
  · exact circle_of_lt hterm hx hm hn hmx hnx hmn
  · exact circle_of_lt hterm hx hn hm hnx hmx hnm

/-- **Rows are in one total order just if no property to sort by has blurred values.** -/
theorem totallyOrdered_iff : (TotallyOrdered sort d fun row => row.key.Listed S sort) ↔
    ∀ term ∈ sort, ¬ Scalar.Blurred (S term) := by
  constructor
  · exact fun h term hterm hS => h.not_circle (circle_of_blurred d hterm hS)
  · exact fun h => totallyOrdered_of_ordered fun term hterm => Scalar.ordered_iff.mpr (h term hterm)

/-- The double `2 ^ 53` is equal to the integers `2 ^ 53` and `2 ^ 53 + 1`, so that rows with these
values come in a circle. -/
theorem compare_circle :
    let beyond : RowPosition := ⟨[some (.int 9007199254740993)], 1, 1⟩
    let rounded : RowPosition := ⟨[some (.float (.ofInt64 9007199254740992))], 2, 1⟩
    let exact : RowPosition := ⟨[some (.int 9007199254740992)], 3, 1⟩
    compare [⟨"x", .ascending⟩] .ascending beyond rounded = .lt ∧
      compare [⟨"x", .ascending⟩] .ascending rounded exact = .lt ∧
      compare [⟨"x", .ascending⟩] .ascending exact beyond = .lt := by
  decide +kernel

end RowPosition

end EntityQuery
