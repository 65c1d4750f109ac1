import EntityQuery.Proofs.Write.Commits

/-! # Histories of a database

A database starts empty and is written to, searched and cut off in any order: writes go through
either pipeline and draw their versions from the one clock of the database, whatever it reads; the
store and the index may be out of reach at any time; searches may have any plan, scope and limits.
As long as the versions last, a search never gives what is out of date, though its index may be.

* `History`: the databases that are come to so, each with what was committed.
* `History.agrees`: they agree with what was committed.
* `search_current`: what every search gives, and what no search drops. -/

namespace EntityQuery

/-- A history of a database over so many shards: what has been committed, the latest first, and the
database that it has come to. -/
inductive History (shards : Nat) : List Commit → Database → Prop
  | start : History shards [] (.empty shards)
  | write {log : List Commit} {db : Database} (h : History shards log db) (w : Write)
    (hversion : w.version db < VersionClock.maxVersion) :
    History shards ((w.commit? db).toList ++ log) (w.run db).2
  | cutStore {log : List Commit} {db : Database} (h : History shards log db) (unavailable : Bool) :
    History shards log { db with store := db.store.setUnavailable unavailable }
  | cutIndex {log : List Commit} {db : Database} (h : History shards log db) (unavailable : Bool) :
    History shards log { db with index := db.index.setUnavailable unavailable }
  | search {log : List Commit} {db : Database} (h : History shards log db) (limits : QueryLimits)
    (reconcile : ReconcileLimits) (plan : Plan) (scope : Scope) (request : PageRequest) :
    History shards log (db.search limits reconcile plan scope request).2

variable {shards : Nat} {log : List Commit} {db : Database}

theorem History.agrees (h : History shards log db) : Agrees log db := by
  induction h with
  | start => exact .empty shards
  | write _ w hversion ih => exact ih.write hversion
  | cutStore _ unavailable ih => exact ih.reads ⟨rfl, rfl, fun _ _ h => h, fun _ _ h _ => h⟩
  | cutIndex _ unavailable ih => exact ih.reads ⟨rfl, rfl, fun _ _ h => h, fun _ _ h _ => h⟩
  | search _ limits reconcile plan scope request ih =>
    exact ih.reads (Database.reads_search _ limits reconcile plan scope request).1

/-- **Searches are never out of date.** In every history, each record of a search is that of an
entity which the store then holds at just that version, and whose fields there pass the filter of
the search, though it was the copy in the index that was asked. And where the latest commit of an
entity has been taken into the index of a scope, its row is still there, whatever has been searched
for. -/
theorem search_current (h : History shards log db) :
    (∀ limits reconcile plan scope request page db',
      db.search limits reconcile plan scope request = (.ok page, db') →
      ∀ r ∈ page.records, ∃ doc,
        db'.store.get? r.id = some ⟨r.version, .payload doc⟩ ∧
        plan.selector.selects r.id doc = true ∧ r.payload = plan.selection.apply doc) ∧
    ∀ id c, (log.find? fun c => c.id = id) = some c →
      ∀ doc scope, c.body = .payload doc → c.scope? = some scope →
        db.index.Has ⟨scope, id, c.version⟩ doc := by
  refine ⟨fun limits reconcile plan scope request page db' hsearch r hr => ?_, h.agrees.indexed⟩
  obtain ⟨hreads, hfinds⟩ := Database.reads_search db limits reconcile plan scope request
  rw [hsearch] at hreads hfinds
  obtain ⟨found, hfound, rfl⟩ := hfinds page rfl r hr
  obtain ⟨doc, hhas, hselects⟩ := hfound.row
  have hheld : db.store.get? found.id = some ⟨found.version, .payload found.payload⟩ :=
    EntityStore.fieldsAt?_eq_some_iff.mp hfound.fields
  have hbody := h.agrees.body_eq_of_has hhas hheld
  obtain rfl := RecordBody.payload.inj hbody
  exact ⟨found.payload, by rw [EntityStore.get?_congr hreads.records, hheld], hselects, rfl⟩

/-- An entity is written twice while the clock steps back, and another one does not get through to
the index. A search cannot reach the index either; once one can, it finds the later version of the
first entity and drops the row of the earlier one. -/
theorem search_current_rewritten :
    let scope : Scope := ⟨"shop", "items"⟩
    let doc : Json := .object [("a", .number (.natural 5))]
    let first : Write := ⟨scope, 1, .payload (.object []), 5, true⟩
    let second : Write := ⟨scope, 1, .payload doc, 3, true⟩
    let other : Write := ⟨scope, 2, .payload doc, 9, true⟩
    let plan : Plan := ⟨.slices .fullScan, .all, []⟩
    let before := (second.run (first.run (.empty 2)).2).2
    let after := (other.run { before with index := before.index.setUnavailable true }).2
    let missed := (after.search {} {} plan scope {}).2
    let db := { missed with index := missed.index.setUnavailable false }
    let found := db.search {} {} plan scope {}
    db.index.versions scope 1 = [5, 6] ∧ found.2.index.versions scope 1 = [6] ∧
      (∃ page r, found.1 = .ok page ∧ page.records = [r] ∧ r.id = 1 ∧ r.version = 6 ∧
        r.payload = doc) ∧
      ∃ log, History 2 log found.2 ∧ log.length = 3 ∧ found.2.index.Has ⟨scope, 1, 6⟩ doc := by
  intro scope doc first second other plan before after missed db found
  have hfirst : History 2 _ (first.run (.empty 2)).2 := History.start.write first (by decide)
  have hsecond : History 2 _ before := hfirst.write second (by decide +kernel)
  have hafter : History 2 _ after := (hsecond.cutIndex true).write other (by decide +kernel)
  have hdb : History 2 _ db := (hafter.search {} {} plan scope {}).cutIndex false
  have hfound : History 2 _ found.2 := hdb.search {} {} plan scope {}
  have hkeys : (found.1.toOption.map fun page => page.records.map fun r => (r.id, r.version)) =
      some [(1, 6)] := by decide +kernel
  obtain ⟨page, hpage, hrecords⟩ := Option.map_eq_some_iff.mp hkeys
  obtain ⟨r, hr, hkey⟩ := List.map_eq_singleton_iff.mp hrecords
  obtain ⟨hid, hversion⟩ := Prod.mk.inj hkey
  have hok : found.1 = .ok page := by
    revert hpage
    cases found.1 with
    | error e => intro h; cases h
    | ok page' => intro h; rw [Option.some.inj h]
  have hsearch : found = (.ok page, found.2) := by rw [← hok]
  have hversions : db.index.versions scope 1 = [5, 6] ∧ found.2.index.versions scope 1 = [6] := by
    decide +kernel
  refine ⟨hversions.1, hversions.2, ⟨page, r, hok, hr, hid, hversion, ?_⟩, _, hfound, ?_, ?_⟩
  · obtain ⟨held, hheld, -, hpayload⟩ :=
      (search_current hdb).1 {} {} plan scope {} page found.2 hsearch r (by simp [hr])
    have hlatest : found.2.store.get? 1 = some ⟨6, .payload doc⟩ := hfound.agrees.store 1
    rw [hid, hlatest] at hheld
    rw [hpayload]
    exact (RecordBody.payload.inj (Record.mk.inj (Option.some.inj hheld)).2).symm
  · decide +kernel
  · exact (search_current hfound).2 1 ⟨1, 6, .payload doc, some scope⟩ rfl doc scope rfl rfl

end EntityQuery
