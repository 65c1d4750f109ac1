import EntityQuery.Proofs.Paging.TotalOrder
import EntityQuery.Proofs.Search.Rows
import EntityQuery.Proofs.Slice.Ids

/-! # Searches in the order of ids

A search may be sorted by the property that stands for the id. Ids from `2 ^ 63` on have no value
there, so they come behind the others whichever way the property is sorted, and among themselves
they come from the least up. That is the order of ids for an ascending term; for a descending term
it is not, as soon as one of two ids has no value.

* `idOrder_eq`: the order of ids when they are sorted by.
* `Search.search_byId`: what is found are rows of the scope, in strict order.
* `SearchIndex.goesById_iff`: **searches sorted by the id go by ids just if the term is ascending or
  of any two ids each has a value**. -/

namespace EntityQuery

/-! ## The order of ids -/

/-- The order of rows with two ids, when the id is sorted by. -/
def idOrder (term : Direction) (i j : EntityId) : Ordering :=
  (compareSlots term (Scalar.ofId? i) (Scalar.ofId? j)).then (Ord.compare i j)

section Order

variable {term d : Direction} {i j : EntityId}

theorem compare_id (i j : EntityId) :
    Ord.compare i j = Ord.compare (i.toNat : Int) (j.toNat : Int) := by
  rcases Nat.lt_trichotomy i.toNat j.toNat with hlt | heq | hgt
  · rw [Std.compare_eq_lt.mpr (UInt64.lt_iff_toNat_lt.mpr hlt), Std.compare_eq_lt.mpr]
    exact_mod_cast hlt
  · rw [UInt64.toNat_inj.mp heq, Std.compare_self, Std.compare_self]
  · rw [Std.compare_eq_gt.mpr (UInt64.lt_iff_toNat_lt.mpr hgt), Std.compare_eq_gt.mpr]
    exact_mod_cast hgt

/-- **Ids that have a value come as the term says, and all others from the least up.** -/
theorem idOrder_eq (term : Direction) (i j : EntityId) : idOrder term i j =
    if i.toNat < 2 ^ 63 ∧ j.toNat < 2 ^ 63 then term.orient (Ord.compare i j)
    else Ord.compare i j := by
  unfold idOrder
  rcases Nat.lt_or_ge i.toNat (2 ^ 63) with hi | hi
  · obtain ⟨hisome, hitoInt⟩ := Scalar.ofId?_of_lt hi
    rcases Nat.lt_or_ge j.toNat (2 ^ 63) with hj | hj
    · obtain ⟨hjsome, hjtoInt⟩ := Scalar.ofId?_of_lt hj
      have hslots : compareSlots term (some (.int i.toInt64)) (some (.int j.toInt64)) =
          term.orient (Ord.compare i j) := by
        rw [compare_id, ← hitoInt, ← hjtoInt, ← Scalar.compare_toInt]
        rfl
      rw [hisome, hjsome, hslots, if_pos ⟨hi, hj⟩]
      cases hij : Ord.compare i j <;> cases term <;> rfl
    · have hlt : i < j := UInt64.lt_iff_toNat_lt.mpr (by omega)
      rw [hisome, Scalar.ofId?_of_le hj, if_neg (by omega), Std.compare_eq_lt.mpr hlt]
      rfl
  · rw [Scalar.ofId?_of_le hi, if_neg (by omega)]
    rcases Nat.lt_or_ge j.toNat (2 ^ 63) with hj | hj
    · have hgt : j < i := UInt64.lt_iff_toNat_lt.mpr (by omega)
      rw [(Scalar.ofId?_of_lt hj).1, Std.compare_eq_gt.mpr hgt]
      rfl
    · rw [Scalar.ofId?_of_le hj]
      rfl

theorem rel_or_of_pairwise {α : Type} {R : α → α → Prop} {l : List α} {a b : α}
    (h : l.Pairwise R) (ha : a ∈ l) (hb : b ∈ l) (hne : a ≠ b) : R a b ∨ R b a := by
  have : Std.Symm fun u v => R u v ∨ R v u := ⟨fun _ _ => Or.symm⟩
  have hor : l.Pairwise fun u v => R u v ∨ R v u := h.imp Or.inl
  exact hor.forall ha hb hne

theorem isLE_of_orient_then {o o' : Ordering} (h : d.orient (o.then o') = .lt) :
    (d.orient o).isLE = true := by
  cases d <;> cases o <;> simp_all [Direction.orient]

end Order

/-! ## Searches -/

/-- A search that is sorted by the id. -/
def Search.byId (selector : Selector) (scope : Scope) (term d : Direction) : Search :=
  ⟨⟨selector, .all, [⟨idProperty, term⟩]⟩, scope, d⟩

namespace SearchIndex

/-- What a search that is sorted by the id brings comes in the order of ids: as the term says if the
direction is ascending, and the other way round if it is descending. -/
def GoesById (x : SearchIndex) (scope : Scope) (term d : Direction) : Prop :=
  ∀ selector after limit, ∃ found,
    x.search scope ⟨selector, [⟨idProperty, term⟩], d, after, limit⟩ = .ok found ∧
      found.Pairwise fun a b => (d.orient (term.orient (Ord.compare a.id b.id))).isLE = true

/-- Of two ids in a scope, each has a value. -/
def TellsIds (x : SearchIndex) (scope : Scope) : Prop :=
  ∀ a ∈ x.rowsOf scope, ∀ b ∈ x.rowsOf scope, a.1.id ≠ b.1.id → a.1.id.toNat < 2 ^ 63

end SearchIndex

namespace Search

variable {selector : Selector} {scope : Scope} {term d : Direction} {x : SearchIndex}
  {a b : RowKey × Json}

theorem exact_byId (x : SearchIndex) : (byId selector scope term d).Exact x := by
  intro t ht
  obtain rfl := List.mem_singleton.mp ht
  refine .inl fun f hf => ?_
  obtain ⟨row, -, hrow⟩ := List.mem_filterMap.mp hf
  change (propertyValues row.1.id row.2 idProperty).head? = _ at hrow
  rw [propertyValues, if_pos rfl, Option.head?_toList, Scalar.ofId?, Option.map_eq_some_iff] at hrow
  obtain ⟨n, -, hn⟩ := hrow
  cases hn

theorem before_byId : (byId selector scope term d).Before a b ↔
    d.orient ((idOrder term a.1.id b.1.id).then (Ord.compare a.1.version b.1.version)) = .lt := by
  have hkey : ∀ row : RowKey × Json,
      sortKey [⟨idProperty, term⟩] row.1.id row.2 = [Scalar.ofId? row.1.id] := by
    intro row
    rw [sortKey, List.map_singleton, propertyValues, if_pos rfl, Option.head?_toList]
  have hslot : ∀ u v, compareKeys [⟨idProperty, term⟩] [u] [v] = compareSlots term u v :=
    fun u v => Ordering.then_eq
  change d.orient (((compareKeys [⟨idProperty, term⟩] (sortKey [⟨idProperty, term⟩] a.1.id a.2)
    (sortKey [⟨idProperty, term⟩] b.1.id b.2)).then _).then _) = .lt ↔ _
  rw [hkey, hkey, hslot]
  rfl

theorem Before.orient_id_isLE (hab : (byId selector scope term d).Before a b)
    (h : idOrder term a.1.id b.1.id = term.orient (Ord.compare a.1.id b.1.id)) :
    (d.orient (term.orient (Ord.compare a.1.id b.1.id))).isLE = true :=
  h ▸ isLE_of_orient_then (before_byId.mp hab)

/-- Where one of two ids has no value, they do not come from the greatest down. -/
theorem Before.not_orient_id_isLE (hab : (byId selector scope .descending d).Before a b)
    (hne : a.1.id ≠ b.1.id) (h : ¬ (a.1.id.toNat < 2 ^ 63 ∧ b.1.id.toNat < 2 ^ 63)) :
    ¬ (d.orient (Direction.descending.orient (Ord.compare a.1.id b.1.id))).isLE = true := by
  rw [before_byId, idOrder_eq, if_neg h] at hab
  rw [Direction.orient, Direction.orient_swap]
  cases hcompare : Ord.compare a.1.id b.1.id with
  | eq => exact absurd (Std.compare_eq_iff_eq.mp hcompare) hne
  | lt =>
    rw [hcompare, Ordering.lt_then] at hab
    rw [hab]
    decide
  | gt =>
    rw [hcompare, Ordering.gt_then] at hab
    rw [hab]
    decide

theorem search_byId (scope : Scope) (term d : Direction) (havail : x.unavailable = false)
    (selector : Selector) (after : Option RowPosition) (limit : Nat) :
    let rows := ((byId selector scope term d).pending x after).take limit
    x.search scope ⟨selector, [⟨idProperty, term⟩], d, after, limit⟩ =
        .ok (rows.map (byId selector scope term d).candidate) ∧
      rows.Pairwise (byId selector scope term d).Before ∧ ∀ row ∈ rows, row ∈ x.rowsOf scope := by
  have hx : (byId selector scope term d).Exact x := exact_byId x
  have hwithin : Search.Within x x := fun _ _ h => h
  refine ⟨hx.search_eq hwithin havail after limit, ?_, fun row hrow => ?_⟩
  · exact ((hx.pairwise_rows hwithin).filter _).sublist (List.take_sublist _ _)
  · exact mem_rowsOf_of_mem_rows (List.mem_filter.mp (List.mem_of_mem_take hrow)).1

end Search

namespace SearchIndex

variable {x : SearchIndex} {scope : Scope} {term d : Direction} {a b : RowKey × Json}

theorem goesById_of (havail : x.unavailable = false)
    (h : term = .ascending ∨ x.TellsIds scope) : x.GoesById scope term d := by
  intro selector after limit
  obtain ⟨hsearch, hpairwise, hmem⟩ := Search.search_byId scope term d havail selector after limit
  refine ⟨_, hsearch, List.pairwise_map.mpr (hpairwise.imp_of_mem fun {a b} ha hb hab => ?_)⟩
  refine hab.orient_id_isLE ?_
  rw [idOrder_eq]
  split_ifs with hvalues
  · rfl
  · rcases h with rfl | htells
    · rfl
    · have heq : a.1.id = b.1.id := by
        by_contra hne
        exact hvalues ⟨htells a (hmem a ha) b (hmem b hb) hne,
          htells b (hmem b hb) a (hmem a ha) (Ne.symm hne)⟩
      rw [heq, Std.compare_self]
      cases term <;> rfl

theorem not_goesById (havail : x.unavailable = false) (ha : a ∈ x.rowsOf scope)
    (hb : b ∈ x.rowsOf scope) (hne : a.1.id ≠ b.1.id) (h : ¬ a.1.id.toNat < 2 ^ 63) :
    ¬ x.GoesById scope .descending d := by
  intro hgoes
  let q := Search.byId .everything scope .descending d
  obtain ⟨found, hfound, hids⟩ := hgoes .everything none (q.pending x none).length
  obtain ⟨hsearch, hpairwise, -⟩ :=
    Search.search_byId scope .descending d havail .everything none (q.pending x none).length
  rw [List.take_length] at hsearch hpairwise
  obtain rfl := Except.ok.inj (hfound.symm.trans hsearch)
  have hmem : ∀ row ∈ x.rowsOf scope, row ∈ q.pending x none := by
    intro row hrow
    rw [mem_rowsOf] at hrow
    exact Search.mem_pending.mpr
      ⟨⟨hrow.1, hrow.2, SliceGroup.selects_fullScan row.1.id row.2⟩, rfl⟩
  -- One of the two comes first, and then the ids are not in order.
  have hrows : a ≠ b := fun hab => hne (hab ▸ rfl)
  rcases rel_or_of_pairwise (hpairwise.and (List.pairwise_map.mp hids)) (hmem a ha) (hmem b hb)
    hrows with ⟨hab, hids⟩ | ⟨hba, hids⟩
  · exact hab.not_orient_id_isLE hne (fun hboth => h hboth.1) hids
  · exact hba.not_orient_id_isLE hne.symm (fun hboth => h hboth.2) hids

/-- **In an index that is within reach, searches sorted by the id go by ids just if the term is
ascending or of any two ids each has a value.** -/
theorem goesById_iff : x.GoesById scope term d ↔
    x.unavailable = false ∧ (term = .ascending ∨ x.TellsIds scope) := by
  refine ⟨fun h => ?_, fun h => goesById_of h.1 h.2⟩
  have havail : x.unavailable = false := by
    obtain ⟨found, hfound, -⟩ := h .everything none 0
    rw [search] at hfound
    split_ifs at hfound with havail
    exact Bool.eq_false_iff.mpr havail
  refine ⟨havail, ?_⟩
  cases term with
  | ascending => exact .inl rfl
  | descending =>
    refine .inr fun a ha b hb hne => ?_
    by_contra hbeyond
    exact not_goesById havail ha hb hne hbeyond h

/-- From the greatest id down, one that has no value comes last although it is the greatest. -/
theorem search_byId_misplaced :
    let scope : Scope := ⟨"shop", "items"⟩
    let rows : Std.ExtTreeMap RowKey Json :=
      ((∅ : Std.ExtTreeMap RowKey Json).insert ⟨scope, 1, 1⟩ (.object [])).insert
        ⟨scope, 9223372036854775808, 1⟩ (.object [])
    let x : SearchIndex := ⟨rows, [], false⟩
    (x.search scope ⟨.everything, [⟨idProperty, .descending⟩], .ascending, none, 10⟩).map
        (·.map Candidate.id) = .ok [1, 9223372036854775808] ∧
      ¬ x.GoesById scope .descending .ascending := by
  intro scope rows x
  have hsearch : (x.search scope ⟨.everything, [⟨idProperty, .descending⟩], .ascending, none,
      10⟩).map (·.map Candidate.id) = .ok [1, 9223372036854775808] := by decide +kernel
  refine ⟨hsearch, fun hgoes => ?_⟩
  obtain ⟨found, hfound, hids⟩ := hgoes .everything none 10
  rw [hfound] at hsearch
  have hmisplaced : ¬ ([1, 9223372036854775808] : List EntityId).Pairwise fun i j =>
      (Direction.ascending.orient (Direction.descending.orient (Ord.compare i j))).isLE = true := by
    decide
  exact hmisplaced (Except.ok.inj hsearch ▸ List.pairwise_map.mpr hids)

end SearchIndex

end EntityQuery
