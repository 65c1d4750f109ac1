import EntityQuery.Proofs.Paging.RowOrder
import EntityQuery.Proofs.Search.Confirm

/-! # The rows of a search

A search with a plan goes through the rows of its scope that the plan selects, in the order of their
places. What lies behind a row is what follows it in that order, and rows that are dropped leave the
others in their order.

* `Search.Exact.rows_eq_filter`: rows that are kept stay in their order.
* `Search.Exact.pending_of_split`: what is behind a row follows it.
* `Search.Exact.search_eq`: what the index finds are the first of the rows behind a place. -/

namespace EntityQuery

/-- A search in an index: what it is for, and the order in which it goes through the rows. -/
structure Search where
  plan : Plan
  scope : Scope
  direction : Direction

theorem RowKey.eq_iff {a b : RowKey} :
    a = b ↔ a.scope = b.scope ∧ a.id = b.id ∧ a.version = b.version := by
  cases a
  cases b
  simp

namespace SearchIndex

variable {x : SearchIndex} {scope : Scope}

/-- The values by which the rows of a scope are sorted if they are sorted by a property. -/
def sortValues (x : SearchIndex) (scope : Scope) (property : String) : List Scalar :=
  (x.rowsOf scope).filterMap fun (key, doc) => (propertyValues key.id doc property).head?

theorem Has.unique {key : RowKey} {doc doc' : Json} (h : x.Has key doc) (h' : x.Has key doc') :
    doc = doc' := Option.some.inj (h.symm.trans h')

theorem mem_rowsOf {row : RowKey × Json} :
    row ∈ x.rowsOf scope ↔ x.Has row.1 row.2 ∧ row.1.scope = scope := by
  rw [rowsOf, List.mem_filter, Std.ExtTreeMap.mem_toList_iff_getElem?_eq_some]
  exact and_congr_right fun _ => decide_eq_true_iff

theorem pairwise_rowsOf : (x.rowsOf scope).Pairwise fun a b => a.1 ≠ b.1 := by
  refine (Std.ExtTreeMap.distinct_keys_toList.filter _).imp fun hne heq => hne ?_
  rw [heq, Std.compare_self]

theorem eq_of_mem_rowsOf {a b : RowKey × Json} (ha : a ∈ x.rowsOf scope) (hb : b ∈ x.rowsOf scope)
    (hid : a.1.id = b.1.id) (hversion : a.1.version = b.1.version) : a = b := by
  rw [mem_rowsOf] at ha hb
  have hkey : a.1 = b.1 := RowKey.eq_iff.mpr ⟨ha.2.trans hb.2.symm, hid, hversion⟩
  exact Prod.ext hkey ((hkey ▸ ha.1).unique hb.1)

end SearchIndex

namespace Search

variable (q : Search)

/-- The place of a row. -/
def place (row : RowKey × Json) : RowPosition :=
  ⟨sortKey q.plan.sort row.1.id row.2, row.1.id, row.1.version⟩

/-- A row comes before another one. -/
def Before (a b : RowKey × Json) : Prop :=
  (q.place a).compare q.plan.sort q.direction (q.place b) = .lt

instance (a b : RowKey × Json) : Decidable (q.Before a b) := inferInstanceAs (Decidable (_ = _))

/-- A search is for the rows of its scope that its plan selects. -/
def Wants (row : RowKey × Json) : Prop :=
  row.1.scope = q.scope ∧ q.plan.selector.selects row.1.id row.2 = true

/-- The candidate for a row. -/
def candidate (row : RowKey × Json) : Candidate where
  id := row.1.id
  version := row.1.version
  distance := q.plan.selector.firstArea?.bind (·.distanceTo? row.2)
  sortKey := sortKey q.plan.sort row.1.id row.2

/-- The rows of a search, in their order. -/
def rows (x : SearchIndex) : List (RowKey × Json) :=
  sortAscending (fun a b => q.Before a b)
    ((x.rowsOf q.scope).filter fun row => q.plan.selector.selects row.1.id row.2)

/-- A row lies behind a place. -/
def behind (after : Option RowPosition) (row : RowKey × Json) : Bool :=
  (q.place row).isAfter q.plan.sort q.direction after

/-- The rows of a search that lie behind a place. -/
def pending (x : SearchIndex) (after : Option RowPosition) : List (RowKey × Json) :=
  (q.rows x).filter (q.behind after)

variable {q} {x y : SearchIndex} {a b c row : RowKey × Json} {after : Option RowPosition}

theorem mem_rows : row ∈ q.rows x ↔ x.Has row.1 row.2 ∧ q.Wants row := by
  rw [rows, (sortAscending_perm _).mem_iff, List.mem_filter, SearchIndex.mem_rowsOf, and_assoc]
  exact Iff.rfl

theorem mem_pending : row ∈ q.pending x after ↔
    (x.Has row.1 row.2 ∧ q.Wants row) ∧ q.behind after row = true := by
  rw [pending, List.mem_filter, mem_rows]

/-- The values by which the rows of an index are sorted are exact. -/
def Exact (q : Search) (x : SearchIndex) : Prop :=
  ∀ term ∈ q.plan.sort, Scalar.Exact (x.sortValues q.scope term.property)

theorem listed_place (ha : a ∈ x.rowsOf q.scope) :
    (q.place a).key.Listed (fun term => x.sortValues q.scope term.property) q.plan.sort := by
  rw [place, SortKey.Listed, sortKey, List.forall₂_map_right_iff, List.forall₂_same]
  exact fun term _ v hv => List.mem_filterMap.mpr ⟨a, ha, hv⟩

/-! ## Rows in order -/

namespace Exact

variable (hx : q.Exact x) (ha : a ∈ x.rowsOf q.scope) (hb : b ∈ x.rowsOf q.scope)
include hx ha hb

theorem before_trans (hc : c ∈ x.rowsOf q.scope) (hab : q.Before a b) (hbc : q.Before b c) :
    q.Before a c :=
  (RowPosition.ordered hx).trans (listed_place ha) (listed_place hb) (listed_place hc) hab hbc

theorem behind_iff : q.behind (some (q.place a)) b = true ↔ q.Before a b := by
  have hswap := (RowPosition.ordered (d := q.direction) hx).swap (listed_place ha) (listed_place hb)
  unfold behind RowPosition.isAfter Before
  rw [Option.all_some, decide_eq_true_iff, hswap, Ordering.swap_eq_gt]

theorem not_before (hab : q.Before a b) : ¬ q.Before b a := by
  intro hba
  have hswap := (RowPosition.ordered (d := q.direction) hx).swap (listed_place ha) (listed_place hb)
  unfold Before at hab hba
  rw [hab, hba] at hswap
  cases hswap

theorem before_or (hne : a.1 ≠ b.1) : q.Before a b ∨ q.Before b a := by
  have hswap := (RowPosition.ordered (d := q.direction) hx).swap (listed_place ha) (listed_place hb)
  cases hcompare : (q.place a).compare q.plan.sort q.direction (q.place b) with
  | lt => exact .inl hcompare
  | gt => exact .inr (by rw [Before, hswap, hcompare]; rfl)
  | eq =>
    obtain ⟨hid, hversion⟩ := RowPosition.eq_of_compare_eq hcompare
    have hscope := (SearchIndex.mem_rowsOf.mp ha).2.trans (SearchIndex.mem_rowsOf.mp hb).2.symm
    exact absurd (RowKey.eq_iff.mpr ⟨hscope, hid, hversion⟩) hne

end Exact

/-- An index has no rows that another one has not. -/
def Within (y x : SearchIndex) : Prop := ∀ key doc, y.Has key doc → x.Has key doc

theorem Within.mem_rowsOf {scope : Scope} (hy : Within y x) (ha : a ∈ y.rowsOf scope) :
    a ∈ x.rowsOf scope := by
  rw [SearchIndex.mem_rowsOf] at ha ⊢
  exact ⟨hy _ _ ha.1, ha.2⟩

theorem mem_rowsOf_of_mem_rows (ha : a ∈ q.rows x) : a ∈ x.rowsOf q.scope := by
  obtain ⟨hhas, hscope, -⟩ := mem_rows.mp ha
  exact SearchIndex.mem_rowsOf.mpr ⟨hhas, hscope⟩

namespace Exact

variable (hx : q.Exact x) (hy : Within y x)
include hx hy

/-- Rows are put in strict order, also if only some rows of the index are. -/
theorem pairwise_sort {l : List (RowKey × Json)} (hl : l.Sublist (y.rowsOf q.scope)) :
    (sortAscending (fun a b => q.Before a b) l).Pairwise q.Before := by
  have hmem : ∀ a ∈ l, a ∈ x.rowsOf q.scope := fun a ha => hy.mem_rowsOf (hl.subset ha)
  refine (sortAscending_pairwise (P := fun a => a ∈ x.rowsOf q.scope) ?_ hmem ?_).imp
    fun h => of_decide_eq_true h
  · intro a b c ha hb hc hab hbc
    rw [decide_eq_true_iff] at hab hbc ⊢
    exact hx.before_trans ha hb hc hab hbc
  · refine (SearchIndex.pairwise_rowsOf.sublist hl).imp_of_mem fun ha hb hne => ?_
    rw [decide_eq_true_iff, decide_eq_true_iff]
    exact hx.before_or (hmem _ ha) (hmem _ hb) hne

theorem pairwise_rows : (q.rows y).Pairwise q.Before := hx.pairwise_sort hy List.filter_sublist

theorem eq_of_mem_iff {l l' : List (RowKey × Json)} (hl : l.Pairwise q.Before)
    (hl' : l'.Pairwise q.Before) (hmem : ∀ a ∈ l, a ∈ y.rowsOf q.scope)
    (h : ∀ a, a ∈ l ↔ a ∈ l') : l = l' :=
  eq_of_strict (fun a ha b hb => hx.not_before (hy.mem_rowsOf (hmem a ha))
    (hy.mem_rowsOf (hmem b hb))) hl hl' h

theorem rows_eq_filter {z : SearchIndex} {keep : RowKey × Json → Bool}
    (hz : ∀ key doc, z.Has key doc ↔ y.Has key doc ∧ keep (key, doc) = true) :
    q.rows z = (q.rows y).filter keep := by
  have hzx : Within z x := fun key doc h => hy key doc ((hz key doc).mp h).1
  refine hx.eq_of_mem_iff hzx (hx.pairwise_rows hzx) ((hx.pairwise_rows hy).filter _)
    (fun a ha => mem_rowsOf_of_mem_rows ha) fun a => ?_
  rw [List.mem_filter, mem_rows, mem_rows, hz]
  exact and_right_comm

theorem pending_of_split {front back : List (RowKey × Json)}
    (hafter : ∀ place ∈ after, ∃ b ∈ x.rowsOf q.scope, q.place b = place)
    (h : q.pending y after = front ++ a :: back) : q.pending y (some (q.place a)) = back := by
  have hknown : ∀ b ∈ q.pending y after, b ∈ x.rowsOf q.scope := fun b hb =>
    hy.mem_rowsOf (mem_rowsOf_of_mem_rows (List.mem_filter.mp hb).1)
  have ha : a ∈ q.pending y after := by simp [h]
  have hsorted : (front ++ a :: back).Pairwise q.Before := h ▸ (hx.pairwise_rows hy).filter _
  obtain ⟨-, hback, hfront⟩ := List.pairwise_append.mp hsorted
  have hbehind : ∀ b ∈ q.rows y, q.behind (some (q.place a)) b = true →
      q.behind after b = true := by
    intro b hb hab
    cases after with
    | none => rfl
    | some place =>
      obtain ⟨c, hc, rfl⟩ := hafter place rfl
      have hb := hy.mem_rowsOf (mem_rowsOf_of_mem_rows hb)
      have hca := (hx.behind_iff hc (hknown a ha)).mp (mem_pending.mp ha).2
      exact (hx.behind_iff hc hb).mpr
        (hx.before_trans hc (hknown a ha) hb hca ((hx.behind_iff (hknown a ha) hb).mp hab))
  have hiff : ∀ b ∈ q.pending y after, q.behind (some (q.place a)) b = true ↔ q.Before a b :=
    fun b hb => hx.behind_iff (hknown a ha) (hknown b hb)
  calc q.pending y (some (q.place a))
      = (q.pending y after).filter (q.behind (some (q.place a))) := by
        rw [pending, pending, List.filter_filter]
        refine List.filter_congr fun b hb => ?_
        rw [Bool.eq_iff_iff, Bool.and_eq_true]
        exact (and_iff_left_of_imp (hbehind b hb)).symm
    _ = back := by
        rw [h] at hiff hknown ⊢
        rw [List.filter_append, List.filter_cons_of_neg, List.filter_eq_nil_iff.mpr,
          List.filter_eq_self.mpr, List.nil_append]
        · intro b hb
          exact (hiff b (by simp [hb])).mpr (List.rel_of_pairwise_cons hback hb)
        · intro b hb
          rw [hiff b (by simp [hb])]
          exact hx.not_before (hknown b (by simp [hb])) (hknown a (by simp))
            (hfront b hb a (by simp))
        · rw [hiff a (by simp)]
          exact fun haa => hx.not_before (hknown a (by simp)) (hknown a (by simp)) haa haa

/-- **What the index finds** are the first of the rows behind a place. -/
theorem search_eq (havail : y.unavailable = false) (after : Option RowPosition) (limit : Nat) :
    y.search q.scope ⟨q.plan.selector, q.plan.sort, q.direction, after, limit⟩ =
      .ok (((q.pending y after).take limit).map q.candidate) := by
  let found := ((y.rowsOf q.scope).filter fun row => q.plan.selector.selects row.1.id row.2).filter
    (q.behind after)
  have hmatching : y.matching q.scope ⟨q.plan.selector, q.plan.sort, q.direction, after, limit⟩ =
      found.map q.candidate := by
    rw [SearchIndex.matching, List.filter_map]
    rfl
  have hfound : found.Sublist (y.rowsOf q.scope) := List.filter_sublist.trans List.filter_sublist
  have hsort : sortAscending (fun a b => q.Before a b) found = q.pending y after := by
    refine hx.eq_of_mem_iff hy (hx.pairwise_sort hy hfound) ((hx.pairwise_rows hy).filter _)
      (fun a ha => hfound.subset ((sortAscending_perm _).mem_iff.mp ha)) fun a => ?_
    rw [(sortAscending_perm _).mem_iff, mem_pending]
    simp only [found, List.mem_filter, SearchIndex.mem_rowsOf, Wants, and_assoc]
  rw [SearchIndex.search, if_neg (by rw [havail]; decide), hmatching]
  change Except.ok ((sortAscending (fun a b : Candidate =>
    a.position.compare q.plan.sort q.direction b.position == .lt) (found.map q.candidate)).take
      limit) = _
  rw [sortAscending_map, ← List.map_take, ← hsort]
  rfl

end Exact

end Search

end EntityQuery
