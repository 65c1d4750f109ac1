import EntityQuery.Proofs.Execution.CrossedBounds
import EntityQuery.Proofs.Listing.Loaded
import EntityQuery.Proofs.Paging.Pages
import EntityQuery.Proofs.Search.Drain

/-! # Scans and searches list the same entities

The entities of a file can be listed in two ways: by a scan of the store, in the order of ids, or by
a search in an index of the store, in the order of sort terms. A scan merges streams of ids and
leaves out slices whose bounds cross; a search asks of each entity whether it is selected, and goes
on behind the row in the token of the page before. Read to their ends, both give the entities that
the filter selects, each once.

This needs exact values, so that nothing lies between bounds that cross and rows are in one order,
and it needs tokens to be read back as the rows that they were made for. The second is not so of
every double: some are written to a token and read back as a neighbour.

* `Listing.Task`: entities that are listed in both ways.
* `Listing.Task.search_agrees`: **what the search gives is what the scan gives, each entity once**.
* `Listing.Task.search_misread`: a search that loses an entity, since its token is misread. -/

namespace EntityQuery

theorem Settings.pos_of_check {settings : Settings} (h : settings.check = .ok ()) (name : String)
    {n : Nat} (hfield : (name, n) ∈ settings.fields) : 1 ≤ n := by
  by_contra hzero
  unfold check at h
  split at h
  · cases h
  · rename_i hfind
    exact List.find?_eq_none.mp hfind (name, n) hfield (decide_eq_true (by omega))

namespace Listing

/-- Entities that are listed for a query without sort terms by a scan, and with sort terms by a
search in an index of all of them. -/
structure Task where
  entities : List Json
  store : EntityStore
  catalog : Catalog
  query : Query
  plan : Plan
  sort : List SortTerm
  settings : Settings
  scanDirection : Direction
  searchDirection : Direction
  /-- How many ids each call of the scan asks for. -/
  scanSizes : Nat → Nat
  /-- How many records each call of the search asks for. -/
  searchSizes : Nat → Nat

namespace Task

/-- The calls of the scan. -/
def scan (t : Task) : Paging where
  limits := t.settings.query
  hasGeoIndex := true
  plan := t.plan
  direction := t.scanDirection
  stores := fun _ => t.store
  sizes := t.scanSizes

/-- The calls of the search. -/
def search (t : Task) : Drain where
  start := ⟨t.store, .ofStore scope t.store, .start⟩
  limits := t.settings.query
  reconcile := t.settings.reconcile
  search := ⟨{ t.plan with sort := t.sort }, scope, t.searchDirection⟩
  sizes := t.searchSizes

/-- The entities are in the store, the query has a plan, the settings are kept, and every call asks
for something. The literals and the values of each property that is compared or sorted by are
exact. -/
structure Valid (t : Task) : Prop where
  loaded : EntityStore.ofEntities (.array t.entities) = .ok t.store
  compiled : Plan.ofQuery t.catalog t.query = .ok t.plan
  unsorted : t.query.order = []
  checked : t.settings.check = .ok ()
  scanSizes_pos : ∀ k, 1 ≤ t.scanSizes k
  searchSizes_pos : ∀ k, 1 ≤ t.searchSizes k
  exact : ∀ p, t.query.literals p ≠ [] ∨ p ∈ t.sort.map SortTerm.property →
    Scalar.Exact (t.query.literals p ++ t.store.values p)

/-- The values that are sorted by are read back from tokens. -/
def ReadsBack (t : Task) : Prop :=
  ∀ term ∈ t.sort, ∀ v ∈ t.store.values term.property, v.ReadsBack

/-- The ids of the records of a search. -/
def foundIds (found : List SearchPage) : List EntityId :=
  (found.flatMap SearchPage.records).map VerifiedRecord.id

variable {t : Task}

namespace Valid

variable (ht : t.Valid)
include ht

theorem available : t.store.unavailable = false := EntityStore.unavailable_ofEntities ht.loaded

theorem maxLimit_pos : 1 ≤ t.settings.query.maxLimit :=
  Settings.pos_of_check ht.checked "query.max_limit" (by simp [Settings.fields, Settings.sections])

theorem scanPageSize_pos : 1 ≤ t.settings.query.scanPageSize :=
  Settings.pos_of_check ht.checked "query.scan_page_size"
    (by simp [Settings.fields, Settings.sections])

theorem maxCandidatePages_pos : 1 ≤ t.settings.reconcile.maxCandidatePages :=
  Settings.pos_of_check ht.checked "reconcile.max_candidate_pages"
    (by simp [Settings.fields, Settings.sections])

theorem scan_valid : t.scan.Valid where
  compiled := ⟨t.catalog, t.query, ht.compiled⟩
  unsorted := (Plan.eq_of_ofQuery ht.compiled).2.2.trans ht.unsorted
  maxLimit_pos := ht.maxLimit_pos
  scanPageSize_pos := ht.scanPageSize_pos
  sizes_pos := ht.scanSizes_pos
  available := fun _ => ht.available
  geo := .inl rfl

theorem search_valid (hreads : t.ReadsBack) : t.search.Valid where
  reachable := ⟨ht.available, SearchIndex.unavailable_ofStore scope t.store⟩
  maxLimit_pos := ht.maxLimit_pos
  maxCandidatePages_pos := ht.maxCandidatePages_pos
  sizes_pos := ht.searchSizes_pos
  exact := by
    intro term hterm
    have hexact := ht.exact term.property (.inr (List.mem_map_of_mem hterm))
    exact hexact.mono fun v hv =>
      List.mem_append_right _ (SearchIndex.mem_values_of_mem_sortValues hv)
  readsBack := fun term hterm v hv =>
    hreads term hterm v (SearchIndex.mem_values_of_mem_sortValues hv)

theorem finds_eq_selects {id : EntityId} {doc : Json} (hheld : t.store.Holds id doc) :
    t.plan.selector.finds id doc = t.plan.selector.selects id doc := by
  refine Plan.finds_eq_selects ht.compiled fun p hp => ?_
  refine (ht.exact p (.inl hp)).mono (List.append_subset.mpr ⟨?_, ?_⟩)
  · exact List.subset_append_left _ _
  · exact fun v hv => List.mem_append_right _ (EntityStore.mem_values.mpr ⟨id, doc, hheld, hv⟩)

/-- **The results of the scan are the entities that are selected.** -/
theorem mem_results {d : Direction} {id : EntityId} :
    id ∈ t.store.results d t.plan.selector ↔
      ∃ doc, t.store.Holds id doc ∧ t.plan.selector.selects id doc = true := by
  rw [EntityStore.results, EntityStore.mem_select]
  exact exists_congr fun doc => and_congr_right fun hheld => by rw [ht.finds_eq_selects hheld]

end Valid

theorem map_id_record? {row : RowKey × Json} (hrow : t.search.start.index.Has row.1 row.2) :
    (t.search.record? row).map VerifiedRecord.id = some row.1.id := by
  obtain ⟨-, hheld⟩ := SearchIndex.has_ofStore.mp hrow
  have hfields : t.search.start.store.fieldsAt? row.1.id row.1.version = some row.2 :=
    EntityStore.fieldsAt?_eq_some_iff.mpr hheld
  rw [Drain.record?, hfields]
  rfl

theorem foundIds_eq {found : List SearchPage} {rows : List (RowKey × Json)}
    (hrows : ∀ row ∈ rows, t.search.start.index.Has row.1 row.2)
    (hfound : found.flatMap SearchPage.records = rows.filterMap t.search.record?) :
    foundIds found = rows.map (·.1.id) := by
  rw [foundIds, hfound, List.map_filterMap, ← List.filterMap_eq_map]
  exact List.filterMap_congr fun row hrow => map_id_record? (hrows row hrow)

theorem eq_of_id_eq {a b : RowKey × Json} (ha : t.search.start.index.Has a.1 a.2)
    (hb : t.search.start.index.Has b.1 b.2) (hid : a.1.id = b.1.id) : a = b := by
  obtain ⟨hscope, hheld⟩ := SearchIndex.has_ofStore.mp ha
  obtain ⟨hscope', hheld'⟩ := SearchIndex.has_ofStore.mp hb
  rw [hid, hheld'] at hheld
  have hrecord := Record.mk.inj (Option.some.inj hheld)
  have hkey : a.1 = b.1 := RowKey.eq_iff.mpr ⟨hscope.trans hscope'.symm, hid, hrecord.1.symm⟩
  exact Prod.ext hkey (RecordBody.payload.inj hrecord.2).symm

/-- **A search gives what a scan gives.** Both can be read to their ends. Then the search has given
each entity once, and just those that the scan has given: the entities of the file, of which the
last one stands for an id, as far as the plan selects them. -/
theorem search_agrees (t : Task) (ht : t.Valid) (hreads : t.ReadsBack) :
    (∃ scanned, t.scan.Run 0 none scanned) ∧
    (∃ found last, t.search.Run 0 none t.search.start found last) ∧
    ∀ scanned found last, t.scan.Run 0 none scanned →
      t.search.Run 0 none t.search.start found last →
      (foundIds found).Nodup ∧ (foundIds found).Perm (scanned.flatMap Page.ids) ∧
      ∀ id, id ∈ foundIds found ↔ ∃ entity,
        EntityStore.entityOf? t.entities id = some entity ∧
          t.plan.selector.selects id entity = true := by
  have hscan := ht.scan_valid
  have hsearch := ht.search_valid hreads
  refine ⟨hscan.exists_run 0 none, hsearch.exists_run_start,
    fun scanned found last hrun hrun' => ?_⟩
  have hresults : scanned.flatMap Page.ids = t.store.results t.scanDirection t.plan.selector :=
    hscan.ids_of_run hrun fun _ => rfl
  have hrows : ∀ row, row ∈ t.search.search.rows t.search.start.index ↔
      t.search.start.index.Has row.1 row.2 ∧ t.search.search.Wants row := fun _ => Search.mem_rows
  have hhas : ∀ row ∈ t.search.search.rows t.search.start.index,
      t.search.start.index.Has row.1 row.2 := fun row hrow => ((hrows row).mp hrow).1
  have hids : foundIds found = (t.search.search.rows t.search.start.index).map (·.1.id) :=
    foundIds_eq hhas (hsearch.records_of_run hrun')
  have hdistinct : (foundIds found).Nodup := by
    rw [hids]
    exact hsearch.nodup_rows.map_on fun a ha b hb => eq_of_id_eq (hhas a ha) (hhas b hb)
  have hmem : ∀ id, id ∈ foundIds found ↔ ∃ doc, t.store.Holds id doc ∧
      t.plan.selector.selects id doc = true := by
    intro id
    rw [hids, List.mem_map]
    constructor
    · rintro ⟨row, hrow, rfl⟩
      obtain ⟨hrow, -, hselects⟩ := (hrows row).mp hrow
      exact ⟨row.2, ⟨row.1.version, (SearchIndex.has_ofStore.mp hrow).2⟩, hselects⟩
    · rintro ⟨doc, ⟨version, hheld⟩, hselects⟩
      exact ⟨(⟨scope, id, version⟩, doc),
        (hrows _).mpr ⟨SearchIndex.has_ofStore.mpr ⟨rfl, hheld⟩, rfl, hselects⟩, rfl⟩
  refine ⟨hdistinct, ?_, fun id => ?_⟩
  · have hscanNodup : (scanned.flatMap Page.ids).Nodup :=
      nodup_of_strict (fun id _ => t.scan.direction.not_before_self id)
        (hscan.pairwise_of_run hrun)
    refine (List.perm_ext_iff_of_nodup hdistinct hscanNodup).mpr fun id => ?_
    rw [hmem, hresults, ht.mem_results]
  · rw [hmem]
    exact exists_congr fun doc => by rw [EntityStore.holds_ofEntities ht.loaded]

/-- A search in descending order of a property that not every entity has, and a filter one part of
which asks for values between bounds that cross. Of two entities with one id the later one
counts. -/
theorem search_agrees_replaced :
    let entity (id a : UInt64) : Json :=
      .object [("a", .number (.natural a)), ("id", .number (.natural id))]
    let other : Json := .object [("b", .string "x"), ("id", .number (.natural 9)),
      ("version", .number (.natural 4))]
    let compare (comparison : Comparison) (n : Int64) : Filter :=
      .leaf (.compare "a" comparison (.int n))
    let t : Task :=
      { entities := [entity 3 1, entity 5 7, entity 3 8, other]
        store := ((((EntityStore.empty 4).put 3 1 (.payload (entity 3 1))).put 5 1
          (.payload (entity 5 7))).put 3 1 (.payload (entity 3 8))).put 9 4 (.payload other)
        catalog := .everything
        query :=
          { selection := .all
            filter := some (.or (compare .greater 6) (.and (compare .greater 5) (compare .less 4)))
            order := [] }
        plan :=
          { selector := .or (.slices (.single ⟨"a", some ⟨.int 6, false⟩, none, false⟩))
              (.slices (.single ⟨"a", some ⟨.int 5, false⟩, some ⟨.int 4, false⟩, false⟩))
            selection := .all
            sort := [] }
        sort := [⟨"b", .ascending⟩, ⟨"a", .descending⟩]
        settings := {}
        scanDirection := .descending, searchDirection := .ascending
        scanSizes := fun _ => 1, searchSizes := fun _ => 1 }
    t.Valid ∧ t.ReadsBack ∧ ∃ scanned found last, t.scan.Run 0 none scanned ∧
      t.search.Run 0 none t.search.start found last ∧
      (foundIds found).Perm (scanned.flatMap Page.ids) ∧ 3 ∈ foundIds found := by
  intro entity other compare t
  have hvalues : t.store.values "a" = [.int 8, .int 7] ∧ t.store.values "b" = [.string "x"] := by
    decide +kernel
  have hexact : ∀ p, t.query.literals p ≠ [] ∨ p ∈ t.sort.map SortTerm.property →
      Scalar.Exact (t.query.literals p ++ t.store.values p) := by
    intro p hp
    have hcases : p = "a" ∨ p = "b" := by
      by_contra hne
      simp only [not_or] at hne
      simp [t, compare, Query.literals, Filter.literals, Filter.predicates, hne,
        Ne.symm hne.1] at hp
    rcases hcases with rfl | rfl
    · have hliterals : t.query.literals "a" = [.int 6, .int 5, .int 4] := by decide +kernel
      rw [hvalues.1, hliterals]
      exact .inl (by simp)
    · have hliterals : t.query.literals "b" = [] := by decide +kernel
      rw [hvalues.2, hliterals]
      exact .inl (by simp)
  have hvalid : t.Valid :=
    { loaded := rfl, compiled := rfl, unsorted := rfl, checked := rfl
      scanSizes_pos := fun _ => Nat.le_refl 1
      searchSizes_pos := fun _ => Nat.le_refl 1
      exact := hexact }
  have hreads : t.ReadsBack := by
    intro term hterm v hv
    simp only [t, List.mem_cons, List.not_mem_nil, or_false] at hterm
    rcases hterm with rfl | rfl
    · rw [hvalues.2] at hv
      obtain rfl := List.mem_singleton.mp hv
      trivial
    · rw [hvalues.1] at hv
      simp only [List.mem_cons, List.not_mem_nil, or_false] at hv
      rcases hv with rfl | rfl <;> trivial
  obtain ⟨⟨scanned, hscan⟩, ⟨found, last, hsearch⟩, hall⟩ := search_agrees t hvalid hreads
  obtain ⟨-, hperm, hmem⟩ := hall scanned found last hscan hsearch
  exact ⟨hvalid, hreads, scanned, found, last, hscan, hsearch, hperm,
    (hmem 3).mpr ⟨entity 3 8, rfl, by decide +kernel⟩⟩

end Task

/-- The ids and the token of the page that a call gives. -/
def shown? (call : Except RequestError SearchPage × Database) :
    Option (List EntityId × Option String) :=
  call.1.toOption.map fun page => (page.records.map VerifiedRecord.id, page.cursor)

theorem exists_page_of_shown {call : Except RequestError SearchPage × Database}
    {ids : List EntityId} {cursor : Option String} (h : shown? call = some (ids, cursor)) :
    ∃ page, call = (.ok page, call.2) ∧ page.records.map VerifiedRecord.id = ids ∧
      page.cursor = cursor := by
  obtain ⟨result, db⟩ := call
  cases result with
  | error e => cases h
  | ok page =>
    obtain ⟨hids, hcursor⟩ := Prod.mk.inj (Option.some.inj h)
    exact ⟨page, rfl, hids, hcursor⟩

namespace Task

/-- A search that **loses an entity**. Two entities have one double, for which a file can have
`1.1932225995552715e-7`. The token of the page with the first one spells it as
`1.1932225995552718e-7`, and this is read as the next double, so the second entity lies before the
place where the search goes on. -/
theorem search_misread :
    let x : Binary64 := ⟨false, 0x3E8003E1B2BC8203, by decide⟩
    let entity (id : UInt64) : Json :=
      .object [("id", .number (.natural id)), ("x", .number (.real x))]
    let t : Task :=
      { entities := [entity 1, entity 2]
        store := ((EntityStore.empty 4).put 1 1 (.payload (entity 1))).put 2 1 (.payload (entity 2))
        catalog := .everything
        query := ⟨.all, none, []⟩
        plan := ⟨.everything, .all, []⟩
        sort := [⟨"x", .ascending⟩]
        settings := {}
        scanDirection := .ascending, searchDirection := .ascending
        scanSizes := fun _ => 1, searchSizes := fun _ => 1 }
    t.Valid ∧ ∃ scanned found last, t.scan.Run 0 none scanned ∧
      t.search.Run 0 none t.search.start found last ∧
      scanned.flatMap Page.ids = [1, 2] ∧ foundIds found = [1] := by
  intro x entity t
  have hvalues : t.store.values "x" = [.float x, .float x] := by decide +kernel
  have hvalid : t.Valid :=
    { loaded := rfl, compiled := rfl, unsorted := rfl, checked := rfl
      scanSizes_pos := fun _ => Nat.le_refl 1
      searchSizes_pos := fun _ => Nat.le_refl 1
      exact := by
        intro p hp
        obtain rfl : p = "x" := by simpa [t, Query.literals] using hp
        rw [hvalues]
        exact .inr (by simp [t, Query.literals]) }
  obtain ⟨scanned, hscan⟩ := hvalid.scan_valid.exists_run 0 none
  have hresults : scanned.flatMap Page.ids = t.store.results .ascending t.plan.selector :=
    hvalid.scan_valid.ids_of_run hscan fun _ => rfl
  let token := t.search.token ⟨[some (.float x)], 1, 1⟩
  let first := t.search.call 0 none t.search.start
  have hfirst : shown? first = some ([1], some token) := by decide +kernel
  -- Nothing lies behind the place that the token is read as.
  have hsecond : shown? (t.search.call 1 (some token) first.2) = some ([], none) := by
    decide +kernel
  obtain ⟨page, hpage, hids, hcursor⟩ := exists_page_of_shown hfirst
  obtain ⟨page', hpage', hids', hcursor'⟩ := exists_page_of_shown hsecond
  refine ⟨hvalid, scanned, [page, page'], _, hscan, .next hpage hcursor (.last hpage' hcursor'), ?_,
    ?_⟩
  · rw [hresults]
    decide +kernel
  · simp [foundIds, hids, hids']

end Task

end Listing

end EntityQuery
