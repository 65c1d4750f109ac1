import EntityQuery.Proofs.Search.Rows
import EntityQuery.Search.Basic

/-! # What a search finds and what it leaves

Whatever can be reached and however a search ends, it has not changed the records of the store, and
it has dropped no row of the index but such as the store has left behind. Every record that it gives
is held by the store, at the version of a row of the index that the plan selects.

* `Database.Reads`: what a search leaves as it was.
* `Database.Finds`: what there is behind a record.
* `Database.reads_search`: both of every search. -/

namespace EntityQuery

namespace SearchIndex

variable {x : SearchIndex} {scope : Scope} {q : CandidateQuery} {candidates : List Candidate}

theorem exists_has_of_search (h : x.search scope q = .ok candidates) {c : Candidate}
    (hc : c ∈ candidates) :
    ∃ doc, x.Has ⟨scope, c.id, c.version⟩ doc ∧ q.selector.selects c.id doc = true := by
  unfold search at h
  split_ifs at h
  obtain rfl := Except.ok.inj h
  have hc := (sortAscending_perm _).mem_iff.mp (List.mem_of_mem_take hc)
  obtain ⟨⟨key, doc⟩, hrow, rfl⟩ := List.mem_map.mp (List.mem_filter.mp hc).1
  obtain ⟨hrow, hselects⟩ := List.mem_filter.mp hrow
  obtain ⟨hhas, rfl⟩ := mem_rowsOf.mp hrow
  exact ⟨doc, hhas, hselects⟩

end SearchIndex

namespace Database

variable {start db db' : Database} {plan : Plan} {scope : Scope} {candidates : List Candidate}

/-- What has only been read is as it was, but for rows that the store has left behind. -/
structure Reads (db db' : Database) : Prop where
  records : db'.store.records = db.store.records
  clock : db'.clock = db.clock
  within : Search.Within db'.index db.index
  kept : ∀ key doc, db.index.Has key doc → ¬ db.store.Outdates key.id key.version →
    db'.index.Has key doc

theorem Reads.refl (db : Database) : db.Reads db := ⟨rfl, rfl, fun _ _ h => h, fun _ _ h _ => h⟩

theorem Reads.trans (h : start.Reads db) (h' : db.Reads db') : start.Reads db' where
  records := h'.records.trans h.records
  clock := h'.clock.trans h.clock
  within key doc hhas := h.within key doc (h'.within key doc hhas)
  kept key doc hhas hnot := by
    refine h'.kept key doc (h.kept key doc hhas hnot) ?_
    rwa [EntityStore.outdates_congr h.records]

/-- What there is behind a record of a search: the store holds its fields, and the index has its
version in a row that the plan selects. -/
structure Finds (db : Database) (plan : Plan) (scope : Scope) (r : VerifiedRecord) : Prop where
  fields : db.store.fieldsAt? r.id r.version = some r.payload
  row : ∃ doc, db.index.Has ⟨scope, r.id, r.version⟩ doc ∧ plan.selector.selects r.id doc = true

theorem Reads.finds (h : start.Reads db) {r : VerifiedRecord} (hr : db.Finds plan scope r) :
    start.Finds plan scope r := by
  obtain ⟨doc, hhas, hselects⟩ := hr.row
  refine ⟨?_, doc, h.within _ doc hhas, hselects⟩
  have hfields := hr.fields
  rwa [EntityStore.fieldsAt?, EntityStore.get?_congr h.records] at hfields

/-! ## The check of candidates -/

theorem reads_reconcile (db : Database) (scope : Scope) (candidates : List Candidate) :
    db.Reads (db.reconcile scope candidates).2 := by
  by_cases hempty : candidates = []
  · rw [hempty, reconcile_nil]
    exact .refl db
  cases havail : db.store.unavailable with
  | true =>
    rw [reconcile_of_outage hempty havail]
    exact .refl db
  | false =>
    have hloaded : db.Reads db.loaded := ⟨rfl, rfl, fun _ _ h => h, fun _ _ h _ => h⟩
    obtain ⟨held, hheld, ⟨-, heq⟩ | ⟨-, -, heq⟩ | ⟨-, -, heq⟩⟩ :=
      reconcile_cases hempty havail scope
    · rw [heq]
      exact hloaded
    · rw [heq]
      exact hloaded
    · rw [heq]
      refine ⟨rfl, rfl, fun _ _ h => (SearchIndex.has_dropped.mp h).1, fun key doc h hnot => ?_⟩
      refine SearchIndex.has_dropped.mpr ⟨h, fun hdrop => hnot ?_⟩
      exact ((Reconciled.mem_staleRows hheld).mp hdrop.2).1

theorem records_of_reconcile {r : Reconciled} (h : db.reconcile scope candidates = (.ok r, db')) :
    r.records = candidates.filterMap db.store.confirm? := by
  by_cases hempty : candidates = []
  · subst hempty
    obtain ⟨hr, -⟩ := Prod.mk.inj h
    rw [← Except.ok.inj hr]
    rfl
  cases havail : db.store.unavailable with
  | true =>
    rw [reconcile_of_outage hempty havail] at h
    cases h
  | false =>
    obtain ⟨held, hheld, ⟨-, heq⟩ | ⟨-, -, heq⟩ | ⟨-, -, heq⟩⟩ :=
      reconcile_cases hempty havail scope
    · rw [h] at heq
      rw [Except.ok.inj (Prod.mk.inj heq).1, Reconciled.records_ofCandidates hheld]
    · rw [h] at heq
      cases heq
    · rw [h] at heq
      rw [Except.ok.inj (Prod.mk.inj heq).1, Reconciled.records_ofCandidates hheld]

/-- Behind the candidates that the store confirms are the rows in which they were found. -/
theorem finds_of_confirm? {q : CandidateQuery} (hq : q.selector = plan.selector)
    (hsearch : db.index.search scope q = .ok candidates) {r : VerifiedRecord}
    (hr : r ∈ candidates.filterMap db.store.confirm?) : db.Finds plan scope r := by
  obtain ⟨c, hc, hconfirm⟩ := List.mem_filterMap.mp hr
  obtain ⟨fields, hfields, rfl⟩ := Option.map_eq_some_iff.mp hconfirm
  obtain ⟨doc, hhas, hselects⟩ := SearchIndex.exists_has_of_search hsearch hc
  exact ⟨hfields, doc, hhas, hq ▸ hselects⟩

/-! ## Searches -/

theorem mem_records_addBatch {s : SearchState} {limit : Nat} {r : Reconciled}
    {record : VerifiedRecord} (h : record ∈ (s.addBatch limit candidates r).records) :
    record ∈ s.records ∨ record ∈ r.records := by
  unfold SearchState.addBatch at h
  dsimp only at h
  split_ifs at h
  · exact (List.mem_append.mp h).imp_right List.mem_of_mem_take
  · exact List.mem_append.mp h

theorem reads_searchOn (plan : Plan) (scope : Scope) (page : ResolvedPage) (budget : Nat)
    (s : SearchState) (hreads : start.Reads db) (hs : ∀ r ∈ s.records, start.Finds plan scope r) :
    start.Reads (searchOn plan scope page budget s db).2 ∧
      ∀ s', (searchOn plan scope page budget s db).1 = .ok s' →
        ∀ r ∈ s'.records, start.Finds plan scope r := by
  have hstop : ∀ s', (Except.ok s : Except RequestError SearchState) = .ok s' →
      ∀ r ∈ s'.records, start.Finds plan scope r := fun _ h => Except.ok.inj h ▸ hs
  induction budget generalizing s db with
  | zero => exact ⟨hreads, hstop⟩
  | succ budget ih =>
    rw [searchOn]
    split_ifs
    · exact ⟨hreads, hstop⟩
    cases hsearch : db.index.search scope
        ⟨plan.selector, plan.sort, page.direction, s.after, page.limit⟩ with
    | error e => exact ⟨hreads, fun _ h => by cases h⟩
    | ok candidates =>
      have hstep := hreads.trans (reads_reconcile db scope candidates)
      cases hreconcile : db.reconcile scope candidates with
      | mk result db' =>
        rw [hreconcile] at hstep
        simp only [hreconcile]
        cases result with
        | error e => exact ⟨hstep, fun _ h => by cases h⟩
        | ok r =>
          have hnext : ∀ record ∈ (s.addBatch page.limit candidates r).records,
              start.Finds plan scope record := by
            intro record hrecord
            rcases mem_records_addBatch hrecord with hold | hnew
            · exact hs record hold
            · rw [records_of_reconcile hreconcile] at hnew
              exact hreads.finds (finds_of_confirm? rfl hsearch hnew)
          exact ih _ hstep hnext fun _ h => Except.ok.inj h ▸ hnext

/-- **A search only reads**, and shows of each record what the plan selects of a record that it has
found. -/
theorem reads_search (db : Database) (limits : QueryLimits) (reconcile : ReconcileLimits)
    (plan : Plan) (scope : Scope) (request : PageRequest) :
    db.Reads (db.search limits reconcile plan scope request).2 ∧
      ∀ page, (db.search limits reconcile plan scope request).1 = .ok page →
        ∀ r ∈ page.records, ∃ found, db.Finds plan scope found ∧
          r = { found with payload := plan.selection.apply found.payload } := by
  cases hresolve : request.resolve plan.digest limits with
  | error e =>
    simp only [search, hresolve]
    exact ⟨.refl db, fun _ h => by cases h⟩
  | ok resolved =>
    obtain ⟨hreads, hfinds⟩ := reads_searchOn plan scope resolved reconcile.maxCandidatePages
      { after := resolved.resumeRow } (Reads.refl db) fun r hr => by cases hr
    cases hsearch : searchOn plan scope resolved reconcile.maxCandidatePages
        { after := resolved.resumeRow } db with
    | mk result db' =>
      rw [hsearch] at hreads hfinds
      simp only [search, hresolve, hsearch]
      cases result with
      | error e => exact ⟨hreads, fun _ h => by cases h⟩
      | ok s =>
        refine ⟨hreads, fun page hpage r hr => ?_⟩
        obtain rfl := Except.ok.inj hpage
        obtain ⟨found, hfound, rfl⟩ := List.mem_map.mp hr
        exact ⟨found, hfinds s rfl found hfound, rfl⟩

end Database

end EntityQuery
