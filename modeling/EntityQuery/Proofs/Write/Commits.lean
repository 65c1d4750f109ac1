import EntityQuery.Proofs.Search.Reads
import EntityQuery.Write.Pipeline
import Mathlib.Data.List.Pairwise

/-! # What writes commit

Entities are written through one of two pipelines, of which one stops at the store and the other
goes on to the index. A write commits its entity if it gets through the step that does so; what it
does not get through later does not take that back. The commits of a database, the latest first, say
what its store holds, and each row of its index is a copy of one of them.

* `Write.run_cases`: what becomes of a write.
* `Agrees`: how a database and its commits go together.
* `Agrees.write`, `Agrees.reads`: they still do after a write and after a search. -/

namespace EntityQuery

/-! ## The clock and the parts of a database -/

namespace VersionClock

/-- The greatest version. -/
def maxVersion : Version := 0xFFFFFFFFFFFFFFFF

/-- **The clock goes on**, whatever it reads. -/
theorem last_lt_next {c : VersionClock} (h : c.last < maxVersion) (reading : Version) :
    c.last < (c.next reading).1 := by
  have hsucc : c.last < c.last + 1 := by
    have hmax : maxVersion.toNat = 18446744073709551615 := rfl
    have hone : (1 : Version).toNat = 1 := rfl
    rw [UInt64.lt_iff_toNat_lt] at h ⊢
    rw [UInt64.toNat_add]
    omega
  change c.last < if reading ≤ c.last + 1 then c.last + 1 else reading
  split_ifs with hle
  · exact hsucc
  · exact UInt64.lt_trans hsucc (UInt64.not_le.mp hle)

end VersionClock

theorem EntityStore.write_eq {s : EntityStore} {id : EntityId} {version : Version}
    (hlater : ∀ held, s.get? id = some held → held.version < version) (body : RecordBody) :
    s.write id version body =
      if s.unavailable then .error outage else .ok (s.put id version body) := by
  unfold write
  split_ifs
  · rfl
  · cases hheld : s.get? id with
    | none => rfl
    | some held => exact if_neg fun hlt => UInt64.lt_asymm hlt (hlater held hheld)

namespace SearchIndex

/-- The index with a version of an entity; a deletion is not indexed. -/
def holding (x : SearchIndex) (scope : Scope) (id : EntityId) (version : Version) :
    RecordBody → SearchIndex
  | .payload doc => { x with rows := x.rows.insert ⟨scope, id, version⟩ doc }
  | .tombstone => x

variable {x : SearchIndex} {scope : Scope} {id : EntityId} {version : Version}

theorem has_holding_iff {body : RecordBody} {key : RowKey} {doc : Json}
    (hnew : ∀ doc, ¬ x.Has ⟨scope, id, version⟩ doc) :
    (x.holding scope id version body).Has key doc ↔
      x.Has key doc ∨ key = ⟨scope, id, version⟩ ∧ body = .payload doc := by
  cases body with
  | tombstone => simp [holding]
  | payload fields =>
    unfold holding Has
    simp only [Std.ExtTreeMap.getElem?_insert, Std.compare_eq_iff_eq]
    by_cases hkey : RowKey.mk scope id version = key
    · subst hkey
      have hnot : x.rows[RowKey.mk scope id version]? ≠ some doc := hnew doc
      simp [hnot]
    · simp [hkey, Ne.symm hkey]

end SearchIndex

/-! ## Writes -/

/-- A write of an entity. -/
structure Write where
  scope : Scope
  id : EntityId
  body : RecordBody
  /-- What the clock reads when the version is drawn. -/
  reading : Version
  /-- Whether the write goes on to the index. -/
  indexed : Bool

/-- A write that got as far as the store. -/
structure Commit where
  id : EntityId
  version : Version
  body : RecordBody
  /-- The scope in whose index the write was taken in, if it was. -/
  scope? : Option Scope

def Commit.record (c : Commit) : Record := ⟨c.version, c.body⟩

namespace Write

/-- The steps that commit an entity. -/
def commitStages : List Stage := [.assignVersion, .commitEntity]

/-- Takes the entity of a write through steps. -/
def through (w : Write) (stages : List Stage) (db : Database) :
    Except RequestError Draft × Database :=
  db.runPipeline w.scope (stages.map fun stage => (stage, w.reading)) (.raw w.id w.body)

def run (w : Write) (db : Database) : Except RequestError Draft × Database :=
  w.through (if w.indexed then Database.standardStages else commitStages) db

/-- The version that a write draws. -/
def version (w : Write) (db : Database) : Version := (db.clock.next w.reading).1

/-- What a write commits: it has to get through the steps that commit an entity, and it was taken
into the index if it was to go there and got through all of its steps. -/
def commit? (w : Write) (db : Database) : Option Commit :=
  match (w.through commitStages db).1 with
  | .ok (.committed id version body) =>
    some ⟨id, version, body, if w.indexed && (w.run db).1.isOk then some w.scope else none⟩
  | _ => none

variable {w : Write} {db : Database}

/-- Through the first two steps, a write draws its version and hands it to the store. -/
theorem through_commit (w : Write) (db : Database) (rest : List Stage) :
    w.through (.assignVersion :: .commitEntity :: rest) db =
      match db.store.write w.id (w.version db) w.body with
      | .error e => (.error e, { db with clock := ⟨w.version db⟩ })
      | .ok store => Database.runPipeline ⟨store, db.index, ⟨w.version db⟩⟩ w.scope
          (rest.map fun stage => (stage, w.reading)) (.committed w.id (w.version db) w.body) := by
  cases hwrite : db.store.write w.id (w.version db) w.body with
  | error e =>
    unfold version at hwrite
    simp only [through, List.map_cons, Database.runPipeline, Database.applyStage, hwrite,
      Except.map]
    rfl
  | ok store =>
    unfold version at hwrite
    simp only [through, List.map_cons, Database.runPipeline, Database.applyStage, hwrite,
      Except.map]
    rfl

/-- The last step fails and has no effect, or the index takes the entity in. -/
theorem index_cases (db : Database) (scope : Scope) (reading : Version) (id : EntityId)
    (version : Version) (body : RecordBody) :
    (∃ e, db.runPipeline scope [(.indexEntity, reading)] (.committed id version body) =
        (.error e, db)) ∨
      db.runPipeline scope [(.indexEntity, reading)] (.committed id version body) =
        (.ok (.committed id version body),
          { db with index := db.index.holding scope id version body }) := by
  cases body with
  | tombstone => exact .inr rfl
  | payload doc =>
    cases havail : db.index.unavailable with
    | true =>
      left
      have hindex : db.index.index scope id version doc = .error SearchIndex.outage := if_pos havail
      exact ⟨_, by simp only [Database.runPipeline, Database.applyStage, hindex, Except.map]; rfl⟩
    | false =>
      right
      have hindex : db.index.index scope id version doc =
          .ok (db.index.holding scope id version (.payload doc)) := if_neg (by rw [havail]; decide)
      simp only [Database.runPipeline, Database.applyStage, hindex, Except.map]

/-- **What becomes of a write** of a version later than what the store holds: it only draws the
version, or it commits its entity, and then the index is as it was or has taken the entity in. -/
theorem run_cases (hlater : ∀ held, db.store.get? w.id = some held → held.version < w.version db) :
    (w.commit? db = none ∧ (w.run db).2 = { db with clock := ⟨w.version db⟩ }) ∨
      ∃ scope? index,
        w.commit? db = some ⟨w.id, w.version db, w.body, scope?⟩ ∧
        (w.run db).2 = ⟨db.store.put w.id (w.version db) w.body, index, ⟨w.version db⟩⟩ ∧
        (scope? = none ∧ index = db.index ∨
          scope? = some w.scope ∧
            index = db.index.holding w.scope w.id (w.version db) w.body) := by
  have hwrite := EntityStore.write_eq hlater w.body
  have hcommit := w.through_commit db []
  have hindex := w.through_commit db [.indexEntity]
  cases havail : db.store.unavailable with
  | true =>
    rw [if_pos havail] at hwrite
    simp only [hwrite] at hcommit hindex
    left
    refine ⟨by rw [commit?, commitStages, hcommit], ?_⟩
    unfold run
    split_ifs
    · exact congrArg Prod.snd hindex
    · exact congrArg Prod.snd hcommit
  | false =>
    rw [if_neg (by rw [havail]; decide)] at hwrite
    simp only [hwrite] at hcommit hindex
    right
    cases hw : w.indexed with
    | false =>
      have hrun : w.run db = w.through commitStages db := by rw [run, hw]; rfl
      rw [commitStages, hcommit] at hrun
      refine ⟨none, db.index, ?_, congrArg Prod.snd hrun, .inl ⟨rfl, rfl⟩⟩
      rw [commit?, commitStages, hcommit, hw]
      rfl
    | true =>
      have hrun : w.run db = w.through Database.standardStages db := by rw [run, hw]; rfl
      rw [Database.standardStages, hindex] at hrun
      have hcases := index_cases ⟨db.store.put w.id (w.version db) w.body, db.index, ⟨w.version db⟩⟩
        w.scope w.reading w.id (w.version db) w.body
      rcases hcases with ⟨e, hfailed⟩ | hdone
      · rw [List.map_singleton, hfailed] at hrun
        refine ⟨none, db.index, ?_, congrArg Prod.snd hrun, .inl ⟨rfl, rfl⟩⟩
        rw [commit?, commitStages, hcommit, hrun, hw]
        rfl
      · rw [List.map_singleton, hdone] at hrun
        refine ⟨some w.scope, _, ?_, congrArg Prod.snd hrun, .inr ⟨rfl, rfl⟩⟩
        rw [commit?, commitStages, hcommit, hrun, hw]
        rfl

end Write

/-! ## The commits of a database -/

/-- **How a database and its commits go together**, the latest commit first: their versions increase
up to what the clock gave out last, the store holds of each entity its latest commit, the rows of
the index are copies of commits, and a row for the latest commit of an entity is there if the index
has taken it in. -/
structure Agrees (log : List Commit) (db : Database) : Prop where
  clock : db.clock.last < VersionClock.maxVersion
  drawn : ∀ c ∈ log, c.version ≤ db.clock.last
  increasing : log.Pairwise fun a b => b.version < a.version
  store : ∀ id, db.store.get? id = (log.find? fun c => c.id = id).map Commit.record
  copies : ∀ key doc, db.index.Has key doc →
    ∃ c ∈ log, c.id = key.id ∧ c.version = key.version ∧ c.body = .payload doc
  indexed : ∀ id c, (log.find? fun c => c.id = id) = some c →
    ∀ doc scope, c.body = .payload doc → c.scope? = some scope →
      db.index.Has ⟨scope, id, c.version⟩ doc

namespace Agrees

variable {log : List Commit} {db db' : Database}

theorem empty (shards : Nat) : Agrees [] (Database.empty shards) where
  clock := (by decide : VersionClock.start.last < VersionClock.maxVersion)
  drawn c hc := by cases hc
  increasing := .nil
  store _ := by simp [Database.empty, EntityStore.empty, EntityStore.get?]
  copies key doc h := by simp [Database.empty, SearchIndex.empty, SearchIndex.Has] at h
  indexed _ _ h := by cases h

theorem eq_of_version_eq (h : Agrees log db) {a b : Commit} (ha : a ∈ log) (hb : b ∈ log)
    (hversion : a.version = b.version) : a = b := by
  have hdiffer : log.Pairwise fun a b => a.version ≠ b.version :=
    h.increasing.imp fun hlt => (UInt64.ne_of_lt hlt).symm
  have : Std.Symm fun a b : Commit => a.version ≠ b.version := ⟨fun _ _ => Ne.symm⟩
  by_contra hne
  exact hdiffer.forall ha hb hne hversion

theorem exists_of_get? (h : Agrees log db) {id : EntityId} {held : Record}
    (hheld : db.store.get? id = some held) : ∃ c ∈ log, c.id = id ∧ c.record = held := by
  rw [h.store] at hheld
  obtain ⟨c, hfind, hrecord⟩ := Option.map_eq_some_iff.mp hheld
  exact ⟨c, List.mem_of_find?_eq_some hfind, by simpa using List.find?_some hfind, hrecord⟩

/-- **A row of the version that the store holds has the fields that the store holds.** -/
theorem body_eq_of_has (h : Agrees log db) {key : RowKey} {doc : Json} (hhas : db.index.Has key doc)
    {body : RecordBody} (hheld : db.store.get? key.id = some ⟨key.version, body⟩) :
    body = .payload doc := by
  obtain ⟨a, ha, -, hversion, hbody⟩ := h.copies key doc hhas
  obtain ⟨b, hb, -, hrecord⟩ := h.exists_of_get? hheld
  obtain ⟨hversion', rfl⟩ := Record.mk.inj hrecord
  rw [h.eq_of_version_eq hb ha (hversion'.trans hversion.symm), hbody]

theorem reads (h : Agrees log db) (hreads : db.Reads db') : Agrees log db' where
  clock := by rw [hreads.clock]; exact h.clock
  drawn := by rw [hreads.clock]; exact h.drawn
  increasing := h.increasing
  store id := by rw [EntityStore.get?_congr hreads.records, h.store]
  copies key doc hhas := h.copies key doc (hreads.within key doc hhas)
  indexed id c hfind doc scope hbody hscope := by
    refine hreads.kept _ doc (h.indexed id c hfind doc scope hbody hscope) ?_
    rintro ⟨held, hheld, houtdated⟩
    rw [h.store, hfind] at hheld
    obtain rfl := Option.some.inj hheld
    rcases houtdated with hlt | hdeleted
    · exact UInt64.lt_irrefl _ hlt
    · rw [Commit.record, hbody] at hdeleted
      cases hdeleted

theorem lt_version (h : Agrees log db) (w : Write) {c : Commit} (hc : c ∈ log) :
    c.version < w.version db :=
  UInt64.lt_of_le_of_lt (h.drawn c hc) (VersionClock.last_lt_next h.clock w.reading)

theorem commit (h : Agrees log db) {c : Commit} {index : SearchIndex} {scope : Scope}
    (hmax : c.version < VersionClock.maxVersion) (hlater : db.clock.last < c.version)
    (hindex : c.scope? = none ∧ index = db.index ∨
      c.scope? = some scope ∧ index = db.index.holding scope c.id c.version c.body) :
    Agrees (c :: log) ⟨db.store.put c.id c.version c.body, index, ⟨c.version⟩⟩ := by
  have hlt : ∀ d ∈ log, d.version < c.version := fun d hd =>
    UInt64.lt_of_le_of_lt (h.drawn d hd) hlater
  have hnew : ∀ scope doc, ¬ db.index.Has ⟨scope, c.id, c.version⟩ doc := by
    intro scope doc hhas
    obtain ⟨d, hd, -, hversion, -⟩ := h.copies _ doc hhas
    exact UInt64.lt_irrefl _ (hversion ▸ hlt d hd)
  have hrows : ∀ key doc, index.Has key doc ↔ db.index.Has key doc ∨
      c.scope? = some key.scope ∧ key.id = c.id ∧ key.version = c.version ∧
        c.body = .payload doc := by
    intro key doc
    rcases hindex with ⟨hnone, rfl⟩ | ⟨hsome, rfl⟩
    · simp [hnone]
    · rw [SearchIndex.has_holding_iff (hnew scope), RowKey.eq_iff, hsome, Option.some.injEq]
      simp only [and_assoc, eq_comm (a := scope)]
  have hfind : ∀ id, (c :: log).find? (fun d => d.id = id) =
      if c.id = id then some c else log.find? fun d => d.id = id := by
    intro id
    by_cases hid : c.id = id <;> simp [hid]
  exact
    { clock := hmax
      drawn := by
        intro d hd
        rcases List.mem_cons.mp hd with rfl | hd
        · exact UInt64.le_refl _
        · exact UInt64.le_of_lt (hlt d hd)
      increasing := List.pairwise_cons.mpr ⟨hlt, h.increasing⟩
      store := by
        intro id
        rw [hfind, EntityStore.get?_put]
        split_ifs
        · rfl
        · exact h.store id
      copies := by
        intro key doc hhas
        rcases (hrows key doc).mp hhas with hhas | ⟨-, hid, hversion, hbody⟩
        · obtain ⟨d, hd, hrest⟩ := h.copies key doc hhas
          exact ⟨d, List.mem_cons_of_mem _ hd, hrest⟩
        · exact ⟨c, List.mem_cons_self, hid.symm, hversion.symm, hbody⟩
      indexed := by
        intro id d hd doc scope hbody hscope
        rw [hfind] at hd
        rw [hrows]
        split_ifs at hd with hid
        · obtain rfl := Option.some.inj hd
          exact .inr ⟨hscope, hid.symm, rfl, hbody⟩
        · exact .inl (h.indexed id d hd doc scope hbody hscope) }

/-- **A write** adds what it commits. -/
theorem write (h : Agrees log db) {w : Write} (hmax : w.version db < VersionClock.maxVersion) :
    Agrees ((w.commit? db).toList ++ log) (w.run db).2 := by
  have hlater : ∀ held, db.store.get? w.id = some held → held.version < w.version db := by
    intro held hheld
    obtain ⟨c, hc, -, rfl⟩ := h.exists_of_get? hheld
    exact h.lt_version w hc
  rcases Write.run_cases hlater with ⟨hnone, hrun⟩ | ⟨scope?, index, hsome, hrun, hindex⟩
  · rw [hnone, hrun]
    exact
      { clock := hmax
        drawn := fun c hc => UInt64.le_of_lt (h.lt_version w hc)
        increasing := h.increasing
        store := h.store
        copies := h.copies
        indexed := h.indexed }
  · rw [hsome, hrun]
    exact h.commit hmax (VersionClock.last_lt_next h.clock w.reading) hindex

end Agrees

end EntityQuery
