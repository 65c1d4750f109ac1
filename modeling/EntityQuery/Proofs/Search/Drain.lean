import EntityQuery.Proofs.Json.Shown
import EntityQuery.Proofs.Paging.Token
import EntityQuery.Proofs.Search.Batch

/-! # Reading a search to its end

A search is read page by page: it starts without a token and hands the token of every page to the
next call, until a page has none. In between nothing changes but what the calls do themselves.

* `Drain.Run`: the calls of a search and the database after them.
* `Drain.Answers`: a record gives a row of the index as the store has it.
* `Drain.Valid.exists_call`: what one call gives.
* `Drain.search_lossless`: what a search that is read to its end gives. -/

namespace EntityQuery

theorem forall₂_filterMap {α β : Type} (f : α → Option β) (l : List α) :
    List.Forall₂ (fun a b => f a = some b) (l.filter fun a => (f a).isSome) (l.filterMap f) := by
  induction l with
  | nil => exact .nil
  | cons a l ih =>
    cases hf : f a with
    | none => simpa [hf] using ih
    | some b => simpa [hf] using ih

/-- A search that is read to its end. -/
structure Drain where
  /-- The database at the start. -/
  start : Database
  limits : QueryLimits
  reconcile : ReconcileLimits
  search : Search
  /-- How many records a call asks for. -/
  sizes : Nat → Nat

namespace Drain

variable {p : Drain}

/-- What is asked for can be answered: the parts of the database can be reached, the limits are
positive, and the values that are sorted by are in one order and read back from tokens. -/
structure Valid (p : Drain) : Prop where
  reachable : p.start.Reachable
  maxLimit_pos : 1 ≤ p.limits.maxLimit
  maxCandidatePages_pos : 1 ≤ p.reconcile.maxCandidatePages
  sizes_pos : ∀ k, 1 ≤ p.sizes k
  exact : p.search.Exact p.start.index
  readsBack : ∀ term ∈ p.search.plan.sort,
    ∀ v ∈ p.start.index.sortValues p.search.scope term.property, v.ReadsBack

/-- One call, and the database after it. -/
def call (p : Drain) (k : Nat) (token : Option String) (db : Database) :
    Except RequestError SearchPage × Database :=
  db.search p.limits p.reconcile p.search.plan p.search.scope
    ⟨some (p.sizes k), token, p.search.direction⟩

/-- The calls from number `k` on, the first of them with the given token, and the database after
them: each call has the token of the page before, and the last page has none. -/
inductive Run (p : Drain) : Nat → Option String → Database → List SearchPage → Database → Prop
  | last {k : Nat} {token : Option String} {db db' : Database} {page : SearchPage}
    (hpage : p.call k token db = (.ok page, db')) (hend : page.cursor = none) :
    Run p k token db [page] db'
  | next {k : Nat} {token : Option String} {db db' last : Database} {page : SearchPage}
    {next : String} {pages : List SearchPage} (hpage : p.call k token db = (.ok page, db'))
    (hmore : page.cursor = some next) (hrest : Run p (k + 1) (some next) db' pages last) :
    Run p k token db (page :: pages) last

/-- The store holds a row of the index at the version that was indexed. -/
def Confirms (p : Drain) (row : RowKey × Json) : Prop :=
  ∃ doc, p.start.store.get? row.1.id = some ⟨row.1.version, .payload doc⟩

/-- A record gives a row of the index as the store has it. -/
structure Answers (p : Drain) (row : RowKey × Json) (record : VerifiedRecord) : Prop where
  id_eq : record.id = row.1.id
  version_eq : record.version = row.1.version
  /-- What it shows is what the plan selects of the fields that the store holds. -/
  shows : ∃ doc, p.start.store.get? row.1.id = some ⟨row.1.version, .payload doc⟩ ∧
    p.search.plan.selection.Shows doc record.payload
  distance_eq : record.distance = p.search.plan.selector.firstArea?.bind (·.distanceTo? row.2)

/-- The record that a search gives for a row, if the store confirms it. -/
def record? (p : Drain) (row : RowKey × Json) : Option VerifiedRecord :=
  (p.start.store.fieldsAt? row.1.id row.1.version).map fun fields =>
    { id := row.1.id
      version := row.1.version
      payload := p.search.plan.selection.apply fields
      distance := (p.search.candidate row).distance }

/-- What the plan shows of a record. -/
def present (p : Drain) (record : VerifiedRecord) : VerifiedRecord :=
  { record with payload := p.search.plan.selection.apply record.payload }

/-- The token of a page that ended with a row. -/
def token (p : Drain) (row : RowPosition) : String :=
  Cursor.token ⟨p.search.plan.digest, p.search.direction, row.id, some row⟩

theorem map_present_confirm? (row : RowKey × Json) :
    (p.search.confirm? p.start row).map p.present = p.record? row := by
  rw [Search.confirm?, EntityStore.confirm?, Option.map_map]
  rfl

namespace Valid

variable (hp : p.Valid) {db : Database} {after : Option RowPosition} {done : List VerifiedRecord}
  (h : p.search.Reached p.start db after done)
include hp h

/-! ## One call -/

theorem readsBack_place : ∀ row ∈ after, row.ReadsBack := by
  intro place hplace
  obtain ⟨row, hrow, rfl⟩ := h.place place hplace
  intro slot hslot v hv
  obtain ⟨term, hterm, rfl⟩ := List.mem_map.mp hslot
  exact hp.readsBack term hterm v (List.mem_filterMap.mpr ⟨row, hrow, hv⟩)

theorem exists_resolve (k : Nat) :
    ∃ page : ResolvedPage,
      PageRequest.resolve ⟨some (p.sizes k), after.map p.token, p.search.direction⟩
        p.search.plan.digest p.limits = .ok page ∧
      0 < page.limit ∧ page.direction = p.search.direction ∧
      page.digest = p.search.plan.digest ∧ page.resumeRow = after := by
  have hsize : 0 < min (p.sizes k) p.limits.maxLimit := by
    have := hp.sizes_pos k
    have := hp.maxLimit_pos
    omega
  cases after with
  | none => exact ⟨_, PageRequest.resolve_first hsize.ne' rfl, hsize, rfl, rfl, rfl⟩
  | some row =>
    have hrow : ∀ place ∈ some row, place.ReadsBack := hp.readsBack_place h
    exact ⟨_, PageRequest.resolve_token
      (c := ⟨p.search.plan.digest, p.search.direction, row.id, some row⟩) hsize.ne' rfl rfl hrow,
      hsize, rfl, rfl, rfl⟩

/-- **A call** gives records and goes on behind them: the last row that it has used up is in its
token and there are fewer rows pending, or it has no token and no row is pending. -/
theorem exists_call (k : Nat) :
    ∃ page db' out after', p.call k (after.map p.token) db = (.ok page, db') ∧
      page.records = out.map p.present ∧ p.search.Reached p.start db' after' (done ++ out) ∧
      ((page.cursor = none ∧ p.search.pending db'.index after' = []) ∨
        ∃ row, after' = some row ∧ page.cursor = some (p.token row) ∧
          (p.search.pending db'.index after').length <
            (p.search.pending db.index after).length) := by
  obtain ⟨page, hpage, hlimit, hdirection, hdigest, hresume⟩ := hp.exists_resolve h k
  obtain ⟨s, db', hsearch, hsettled⟩ :=
    h.searchOn hp.exact hdirection hlimit hp.maxCandidatePages_pos
  refine ⟨Database.pageOf p.search.plan page s, db', s.records, s.after, ?_, rfl, hsettled.reached,
    ?_⟩
  · rw [call, Database.search, hpage]
    simp only [hresume, hsearch]
  · cases hmore : s.more with
    | false => exact .inl ⟨by simp [Database.pageOf, hmore], hsettled.ended hmore⟩
    | true =>
      obtain ⟨hsome, hless⟩ := hsettled.more hmore
      obtain ⟨row, hrow⟩ := Option.isSome_iff_exists.mp hsome
      refine .inr ⟨row, hrow, ?_, hless⟩
      simp [Database.pageOf, hmore, hrow, ResolvedPage.tokenAt, token, hdirection, hdigest]

/-! ## A search read to its end -/

/-- **There is an end**: a call after which there is another one leaves fewer rows pending. -/
theorem exists_run (k : Nat) : ∃ pages last, p.Run k (after.map p.token) db pages last := by
  induction hn : (p.search.pending db.index after).length using Nat.strongRecOn
    generalizing db after done k with
  | ind n ih =>
    obtain ⟨page, db', out, after', hpage, -, hreached, hcursor⟩ := hp.exists_call h k
    rcases hcursor with ⟨hend, -⟩ | ⟨row, rfl, hmore, hless⟩
    · exact ⟨_, _, .last hpage hend⟩
    · rw [hn] at hless
      obtain ⟨pages, last, hrun⟩ := ih _ hless hreached (k + 1) rfl
      exact ⟨_, _, .next hpage hmore hrun⟩

/-- **At the end no row is pending.** -/
theorem reached_of_run {k : Nat} {token : Option String} {last : Database}
    {pages : List SearchPage} (hrun : p.Run k token db pages last)
    (htoken : token = after.map p.token) :
    ∃ out after', pages.flatMap SearchPage.records = out.map p.present ∧
      p.search.Reached p.start last after' (done ++ out) ∧
      p.search.pending last.index after' = [] := by
  induction hrun generalizing after done with
  | @last k token db db' page hpage hend =>
    obtain ⟨page, db', out, after', hcall, hout, hreached, hcursor⟩ := hp.exists_call h k
    rw [← htoken, hpage] at hcall
    obtain ⟨rfl, rfl⟩ : _ = page ∧ _ = db' := by simpa using hcall
    rcases hcursor with ⟨-, hnil⟩ | ⟨row, -, hmore, -⟩
    · exact ⟨out, after', by simpa using hout, hreached, hnil⟩
    · rw [hend] at hmore
      cases hmore
  | @next k token db db' last page next pages hpage hmore _ ih =>
    obtain ⟨page, db', out, after', hcall, hout, hreached, hcursor⟩ := hp.exists_call h k
    rw [← htoken, hpage] at hcall
    obtain ⟨rfl, rfl⟩ : _ = page ∧ _ = db' := by simpa using hcall
    rcases hcursor with ⟨hend, -⟩ | ⟨row, rfl, hcursor, -⟩
    · rw [hmore] at hend
      cases hend
    · rw [hmore] at hcursor
      obtain ⟨outs, after', houts, hreached, hnil⟩ := ih hreached hcursor
      refine ⟨out ++ outs, after', ?_, ?_, hnil⟩
      · rw [List.flatMap_cons, hout, houts, List.map_append]
      · rwa [← List.append_assoc]

end Valid

namespace Valid

variable (hp : p.Valid)
include hp

theorem exists_run_start : ∃ pages last, p.Run 0 none p.start pages last :=
  hp.exists_run (Search.reached_start hp.reachable) 0

theorem pairwise_rows : (p.search.rows p.start.index).Pairwise p.search.Before :=
  hp.exact.pairwise_rows fun _ _ h => h

theorem nodup_rows : (p.search.rows p.start.index).Nodup :=
  nodup_of_strict (fun _ hrow hself =>
    have hrow := Search.mem_rowsOf_of_mem_rows hrow
    hp.exact.not_before hrow hrow hself hself) hp.pairwise_rows

variable {pages : List SearchPage} {last : Database} (hrun : p.Run 0 none p.start pages last)
include hrun

/-- **The records of all pages** are those of the rows that the store confirms. -/
theorem records_of_run :
    pages.flatMap SearchPage.records = (p.search.rows p.start.index).filterMap p.record? := by
  obtain ⟨out, after, hout, hreached, hnil⟩ :=
    hp.reached_of_run (Search.reached_start hp.reachable) hrun rfl
  have haccounted := hreached.accounted
  rw [hnil, List.filterMap_nil, List.append_nil, List.nil_append] at haccounted
  rw [hout, haccounted, List.map_filterMap]
  exact List.filterMap_congr fun row _ => map_present_confirm? row

/-- **What is gone from the index** are the rows that the store has left behind. -/
theorem has_of_run {key : RowKey} {doc : Json} : last.index.Has key doc ↔
    p.start.index.Has key doc ∧ ¬ (p.search.Wants (key, doc) ∧ p.start.Outdates (key, doc)) := by
  obtain ⟨out, after, -, hreached, hnil⟩ :=
    hp.reached_of_run (Search.reached_start hp.reachable) hrun rfl
  constructor
  · refine fun hhas => ⟨hreached.within key doc hhas, ?_⟩
    rintro ⟨hwants, houtdated⟩
    have hrow := Search.mem_rows.mpr ⟨hhas, hwants⟩
    have hmem : (key, doc) ∈ p.search.pending last.index after :=
      List.mem_filter.mpr ⟨hrow, hreached.outdated _ hrow houtdated⟩
    rw [hnil] at hmem
    cases hmem
  · rintro ⟨hhas, hkept⟩
    by_contra hnot
    exact hkept (hreached.dropped key doc hhas hnot)

theorem store_of_run : last.store.records = p.start.store.records := by
  obtain ⟨_, _, -, hreached, -⟩ :=
    hp.reached_of_run (Search.reached_start hp.reachable) hrun rfl
  exact hreached.records

end Valid

theorem isSome_record?_iff {row : RowKey × Json} :
    (p.record? row).isSome = true ↔ p.Confirms row := by
  simp only [record?, Confirms, Option.isSome_map, Option.isSome_iff_exists,
    EntityStore.fieldsAt?_eq_some_iff]

theorem answers_of_record? (hdocs : ∀ id doc, p.start.store.Holds id doc → doc.Ordered)
    {row : RowKey × Json} {record : VerifiedRecord} (h : p.record? row = some record) :
    p.Answers row record := by
  obtain ⟨doc, hdoc, rfl⟩ := Option.map_eq_some_iff.mp h
  have hheld := EntityStore.fieldsAt?_eq_some_iff.mp hdoc
  have hordered := hdocs row.1.id doc ⟨row.1.version, hheld⟩
  exact ⟨rfl, rfl, ⟨doc, hheld, (Selection.shows_iff hordered).mpr rfl⟩, rfl⟩

/-- **A search that is read to its end gives every row that the store confirms, each once, and drops
the rows that the store has outdated.** There is an end, and at each end the following holds. The
records are those of the rows of the index that the search is for and that the store holds at the
version that was indexed, in the order of the rows, and each shows what the plan selects of what the
store holds, where documents are as they are read (`Json.ordered_ofText?`). Of the index, just the
rows that the search is for and that the store has left behind are gone, and the store has the
records that it had. -/
theorem search_lossless (p : Drain) (hp : p.Valid)
    (hdocs : ∀ id doc, p.start.store.Holds id doc → doc.Ordered) :
    (∃ pages last, p.Run 0 none p.start pages last) ∧
    ∀ pages last, p.Run 0 none p.start pages last →
      (∃ rows : List (RowKey × Json),
        (∀ row, row ∈ rows ↔ p.start.index.Has row.1 row.2 ∧ p.search.Wants row ∧ p.Confirms row) ∧
        rows.Nodup ∧ rows.Pairwise p.search.Before ∧
        List.Forall₂ p.Answers rows (pages.flatMap SearchPage.records)) ∧
      (∀ key doc, last.index.Has key doc ↔ p.start.index.Has key doc ∧
        ¬ (p.search.Wants (key, doc) ∧ p.start.Outdates (key, doc))) ∧
      last.store.records = p.start.store.records := by
  refine ⟨hp.exists_run_start, fun pages last hrun => ⟨?_, fun _ _ => hp.has_of_run hrun,
    hp.store_of_run hrun⟩⟩
  refine ⟨(p.search.rows p.start.index).filter fun row => (p.record? row).isSome, fun row => ?_,
    hp.nodup_rows.filter _, hp.pairwise_rows.filter _, ?_⟩
  · rw [List.mem_filter, Search.mem_rows, isSome_record?_iff, and_assoc]
  · rw [hp.records_of_run hrun]
    exact (forall₂_filterMap p.record? _).imp fun _ _ => answers_of_record? hdocs

/-- A search in descending order of a property, one record and one batch at a time, in an index with
a version that the store has left behind, the one that it holds, and one that it does not have yet.
It shows the property and a part of another one. -/
theorem search_lagging :
    let scope : Scope := ⟨"shop", "items"⟩
    let five : Json := .number (.natural 5)
    let doc : Json :=
      .ofMembers [("a", five), ("b", .ofMembers [("c", .string "x"), ("d", .bool true)])]
    let rows : Std.ExtTreeMap RowKey Json :=
      ((∅ : Std.ExtTreeMap RowKey Json).insert ⟨scope, 1, 1⟩ doc).insert ⟨scope, 1, 2⟩ doc
    let p : Drain :=
      { start :=
          { store := ((EntityStore.empty 2).put 1 2 (.payload doc)).put 3 4 (.payload doc)
            index := ⟨rows.insert ⟨scope, 3, 5⟩ doc, [], false⟩
            clock := .start }
        limits := ⟨10, 1000, 1⟩, reconcile := ⟨1⟩
        search := ⟨⟨.slices (.single ⟨"a", some ⟨.int 2, true⟩, none, false⟩),
          .fields ["b.c", "a", "b.z"], [⟨"a", .descending⟩]⟩, scope, .descending⟩
        sizes := fun _ => 1 }
    p.Valid ∧ (∀ id doc, p.start.store.Holds id doc → doc.Ordered) ∧
      ∃ pages last, p.Run 0 none p.start pages last ∧
        pages.flatMap SearchPage.records =
          [⟨1, 2, .object [("a", five), ("b", .object [("c", .string "x")])], none⟩] ∧
        ¬ last.index.Has ⟨scope, 1, 1⟩ doc ∧ last.index.Has ⟨scope, 3, 5⟩ doc := by
  intro scope five doc rows p
  have hhas : ∀ key held, p.start.index.Has key held ↔
      held = doc ∧ (key = ⟨scope, 1, 1⟩ ∨ key = ⟨scope, 1, 2⟩ ∨ key = ⟨scope, 3, 5⟩) := by
    intro key held
    simp only [SearchIndex.Has, p, rows, Std.ExtTreeMap.getElem?_insert, Std.compare_eq_iff_eq]
    split_ifs <;> simp_all [eq_comm]
  have hordered : doc.Ordered :=
    Json.ordered_ofMembers (by
      simpa using ⟨.number _, Json.ordered_ofMembers (by simpa using ⟨.string _, .bool _⟩)⟩)
  have hstore : p.start.store.get? 1 = some ⟨2, .payload doc⟩ ∧
      p.start.store.get? 3 = some ⟨4, .payload doc⟩ := by
    simp [p, EntityStore.get?_put]
  have hdocs : ∀ id held, p.start.store.Holds id held → held.Ordered := by
    rintro id held ⟨version, hheld⟩
    simp only [p, EntityStore.get?_put] at hheld
    split_ifs at hheld
    · cases hheld
      exact hordered
    · cases hheld
      exact hordered
    · simp [EntityStore.get?, EntityStore.empty] at hheld
  have hvalues : ∀ id, propertyValues id doc "a" = [.int 5] := by
    intro id
    have hkeywords : keywordsBase? "a" = none := by decide +kernel
    rw [propertyValues, if_neg (by decide), hkeywords]
    decide +kernel
  have hsort : ∀ term ∈ p.search.plan.sort, ∀ v ∈ p.start.index.sortValues scope term.property,
      v = .int 5 := by
    intro term hterm v hv
    obtain rfl := List.mem_singleton.mp hterm
    obtain ⟨⟨key, held⟩, hrow, hv⟩ := List.mem_filterMap.mp hv
    change (propertyValues key.id held "a").head? = some v at hv
    rw [((hhas key held).mp (SearchIndex.mem_rowsOf.mp hrow).1).1, hvalues] at hv
    exact (Option.some.inj hv).symm
  have hvalid : p.Valid :=
    { reachable := ⟨rfl, rfl⟩
      maxLimit_pos := by decide
      maxCandidatePages_pos := by decide
      sizes_pos := fun _ => Nat.le_refl 1
      exact := fun term hterm => .inl fun x hx => by cases hsort term hterm _ hx
      readsBack := fun term hterm v hv => by rw [hsort term hterm v hv]; trivial }
  have hwants : ∀ id version, p.search.Wants (⟨scope, id, version⟩, doc) := by
    intro id version
    have hslice : Slice.selects ⟨"a", some ⟨.int 2, true⟩, none, false⟩ id doc = true := by
      rw [Slice.selects, if_neg (by decide), hvalues]
      decide +kernel
    exact ⟨rfl, by simp [p, Selector.selects, SliceGroup.selects, SliceGroup.single, hslice]⟩
  obtain ⟨⟨pages, last, hrun⟩, hall⟩ := search_lossless p hvalid hdocs
  obtain ⟨⟨found, hfound, hnodup, -, hrecords⟩, hindex, -⟩ := hall pages last hrun
  -- Of the rows the store holds one.
  have hone : found = [(⟨scope, 1, 2⟩, doc)] := by
    refine List.perm_singleton.mp
      ((List.perm_ext_iff_of_nodup hnodup (List.nodup_singleton _)).mpr ?_)
    rintro ⟨key, held⟩
    rw [hfound, hhas, List.mem_singleton, Prod.mk.injEq]
    constructor
    · rintro ⟨⟨rfl, rfl | rfl | rfl⟩, -, held, hheld⟩
      · rw [hstore.1] at hheld
        cases hheld
      · exact ⟨rfl, rfl⟩
      · rw [hstore.2] at hheld
        cases hheld
    · rintro ⟨rfl, rfl⟩
      exact ⟨⟨rfl, .inr (.inl rfl)⟩, hwants 1 2, _, hstore.1⟩
  refine ⟨hvalid, hdocs, pages, last, hrun, ?_, ?_, ?_⟩
  · rw [hone] at hrecords
    obtain ⟨record, rest, hanswers, hrest, hrecords⟩ := List.forall₂_cons_left_iff.mp hrecords
    rw [hrecords, List.forall₂_nil_left_iff.mp hrest]
    obtain ⟨id, version, payload, distance⟩ := record
    obtain ⟨rfl, rfl, ⟨held, hheld, hshows⟩, rfl⟩ := hanswers
    cases hstore.1.symm.trans hheld
    obtain rfl := (Selection.shows_iff hordered).mp hshows
    rfl
  · rw [hindex, not_and, not_not]
    exact fun _ => ⟨hwants 1 1, _, hstore.1, .inl (by decide)⟩
  · rw [hindex]
    refine ⟨(hhas _ _).mpr ⟨rfl, .inr (.inr rfl)⟩, ?_⟩
    rintro ⟨-, held, hheld, houtdated⟩
    obtain rfl := Option.some.inj (hstore.2.symm.trans hheld)
    rcases houtdated with hlt | hdeleted
    · exact absurd hlt (by decide)
    · cases hdeleted

end Drain

end EntityQuery
