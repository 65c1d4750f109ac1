import EntityQuery.Search.Reconcile
import EntityQuery.Proofs.Stream.Scan

/-! # What the store confirms

Of a store and an index that can be reached, the check of candidates confirms those that are at the
version that the store holds, and drops the rows of those that the store has left behind. Nothing
else changes.

* `Database.exists_reconcile`: what the check of candidates does. -/

namespace EntityQuery

/-! ## The store -/

namespace EntityStore

variable {s : EntityStore} {id : EntityId} {version : Version}

/-- The fields of an entity, if the store holds it at the given version. -/
def fieldsAt? (s : EntityStore) (id : EntityId) (version : Version) : Option Json :=
  match s.get? id with
  | some ⟨current, .payload doc⟩ => if current = version then some doc else none
  | _ => none

/-- The store has left a version of an entity behind, by a later version or a deletion. -/
def Outdates (s : EntityStore) (id : EntityId) (version : Version) : Prop :=
  ∃ held, s.get? id = some held ∧ (version < held.version ∨ held.body = .tombstone)

/-- The record that a candidate is confirmed with. -/
def confirm? (s : EntityStore) (c : Candidate) : Option VerifiedRecord :=
  (s.fieldsAt? c.id c.version).map fun doc => ⟨c.id, c.version, doc, c.distance⟩

theorem fieldsAt?_eq_some_iff {doc : Json} :
    s.fieldsAt? id version = some doc ↔ s.get? id = some ⟨version, .payload doc⟩ := by
  unfold fieldsAt?
  rcases s.get? id with _ | ⟨current, held | _⟩
  · simp
  · by_cases hversion : current = version <;> simp [hversion]
  · simp

theorem Outdates.fieldsAt?_eq_none (h : s.Outdates id version) : s.fieldsAt? id version = none := by
  obtain ⟨⟨current, body⟩, hheld, hlt | rfl⟩ := h
  · have hne : current ≠ version := Ne.symm (UInt64.ne_of_lt hlt)
    cases body <;> simp [fieldsAt?, hheld, hne]
  · simp [fieldsAt?, hheld]

section Congr

variable {s' : EntityStore} (h : s.records = s'.records)
include h

theorem get?_congr : s.get? = s'.get? := by
  funext id
  rw [get?, get?, h]

theorem confirm?_congr : s.confirm? = s'.confirm? := by
  unfold confirm? fieldsAt?
  rw [get?_congr h]

theorem outdates_congr : s.Outdates = s'.Outdates := by
  unfold Outdates
  rw [get?_congr h]

end Congr

theorem lookup_filterMap_get? (s : EntityStore) (ids : List EntityId) (id : EntityId) :
    (ids.filterMap fun id => (s.get? id).map fun record => (id, record)).lookup id =
      if id ∈ ids then s.get? id else none := by
  induction ids with
  | nil => rfl
  | cons key ids ih =>
    by_cases hkey : id = key
    · subst hkey
      cases hheld : s.get? id with
      | none => simp [hheld, ih]
      | some record => simp [hheld]
    · cases hheld : s.get? key with
      | none => simp [hheld, ih, hkey]
      | some record =>
        have hbeq : (id == key) = false := beq_false_of_ne hkey
        simp [hheld, ih, hkey, hbeq, List.lookup_cons]

/-- The store after it has served a batch of records. -/
def loaded (s : EntityStore) : EntityStore := { s with loadCalls := s.loadCalls + 1 }

/-- A batch of records has what the store holds for each id that is asked for. -/
theorem exists_load (h : s.unavailable = false) (ids : List EntityId) :
    ∃ held, s.load ids = .ok (held, s.loaded) ∧ ∀ id ∈ ids, held.lookup id = s.get? id := by
  refine ⟨_, if_neg (by rw [h]; decide), fun id hid => ?_⟩
  rw [lookup_filterMap_get?, if_pos hid]

end EntityStore

/-! ## Verdicts -/

namespace Verdict

variable {s : EntityStore} {id : EntityId} {version : Version}

theorem of_eq_accepted_iff {doc : Json} :
    Verdict.of (s.get? id) version = .accepted doc ↔ s.fieldsAt? id version = some doc := by
  unfold Verdict.of EntityStore.fieldsAt?
  rcases s.get? id with _ | ⟨current, held | _⟩
  · simp
  · by_cases heq : current = version
    · simp [heq]
    · by_cases hlt : version < current
      · simp [heq, hlt]
      · have hgt : current < version := UInt64.lt_of_le_of_ne (UInt64.not_lt.mp hlt) heq
        simp [heq, hlt, hgt]
  · simp

theorem of_eq_stale_iff : Verdict.of (s.get? id) version = .stale ↔ s.Outdates id version := by
  unfold Verdict.of EntityStore.Outdates
  rcases s.get? id with _ | ⟨current, held | _⟩
  · simp
  · by_cases hlt : version < current
    · simp [hlt]
    · by_cases hgt : current < version
      · simp [hlt, hgt]
      · simp [hlt, hgt]
  · simp

end Verdict

/-! ## The check -/

namespace SearchIndex

/-- The index has a row. -/
def Has (x : SearchIndex) (key : RowKey) (doc : Json) : Prop := x.rows[key]? = some doc

/-- The index after a batch of rows has been dropped from it. -/
def dropped (x : SearchIndex) (scope : Scope) (entries : List (EntityId × Version)) :
    SearchIndex :=
  { x with
    rows := entries.foldl (fun rows (id, version) => rows.erase ⟨scope, id, version⟩) x.rows
    batches := x.batches ++ [entries] }

theorem deindex_eq {x : SearchIndex} (h : x.unavailable = false) (scope : Scope)
    (entries : List (EntityId × Version)) :
    x.deindex scope entries = .ok (x.dropped scope entries) := if_neg (by rw [h]; decide)

theorem deindex_of_outage {x : SearchIndex} (h : x.unavailable = true) (scope : Scope)
    (entries : List (EntityId × Version)) : x.deindex scope entries = .error outage := if_pos h

theorem has_dropped {x : SearchIndex} {scope : Scope} {entries : List (EntityId × Version)}
    {key : RowKey} {doc : Json} : (x.dropped scope entries).Has key doc ↔
      x.Has key doc ∧ ¬ (key.scope = scope ∧ (key.id, key.version) ∈ entries) := by
  have hfoldl : ∀ rows : Std.ExtTreeMap RowKey Json,
      (entries.foldl (fun rows (entry : EntityId × Version) =>
        rows.erase (RowKey.mk scope entry.1 entry.2)) rows)[key]? = some doc ↔
      rows[key]? = some doc ∧ ¬ (key.scope = scope ∧ (key.id, key.version) ∈ entries) := by
    induction entries with
    | nil => simp
    | cons entry entries ih =>
      obtain ⟨id, version⟩ := entry
      intro rows
      rw [List.foldl_cons, ih, Std.ExtTreeMap.getElem?_erase]
      obtain ⟨keyScope, keyId, keyVersion⟩ := key
      by_cases heq : RowKey.mk scope id version = ⟨keyScope, keyId, keyVersion⟩
      · obtain ⟨rfl, rfl, rfl⟩ := RowKey.mk.inj heq
        simp
      · have hne : ¬ (keyScope = scope ∧ keyId = id ∧ keyVersion = version) := by
          rintro ⟨rfl, rfl, rfl⟩
          exact heq rfl
        simp [heq]
        tauto
  exact hfoldl x.rows

end SearchIndex

namespace Reconciled

variable {s : EntityStore} {held : List (EntityId × Record)} {candidates : List Candidate}
  (hlookup : ∀ c ∈ candidates, held.lookup c.id = s.get? c.id)
include hlookup

theorem records_ofCandidates :
    (ofCandidates held candidates).records = candidates.filterMap s.confirm? := by
  refine List.filterMap_congr fun c hc => ?_
  rw [hlookup c hc]
  cases hverdict : Verdict.of (s.get? c.id) c.version with
  | accepted doc =>
    rw [EntityStore.confirm?, Verdict.of_eq_accepted_iff.mp hverdict]
    rfl
  | _ =>
    have hnone : s.fieldsAt? c.id c.version = none := by
      cases hfields : s.fieldsAt? c.id c.version with
      | none => rfl
      | some doc =>
        rw [Verdict.of_eq_accepted_iff.mpr hfields] at hverdict
        cases hverdict
    rw [EntityStore.confirm?, hnone]
    rfl

theorem mem_staleRows {id : EntityId} {version : Version} :
    (id, version) ∈ staleRows held candidates ↔
      s.Outdates id version ∧ ∃ c ∈ candidates, c.id = id ∧ c.version = version := by
  rw [staleRows, List.mem_eraseDups, List.mem_filterMap]
  constructor
  · rintro ⟨c, hc, hrow⟩
    rw [hlookup c hc] at hrow
    cases hverdict : Verdict.of (s.get? c.id) c.version with
    | stale =>
      rw [hverdict] at hrow
      obtain ⟨rfl, rfl⟩ := Prod.mk.inj (Option.some.inj hrow)
      exact ⟨Verdict.of_eq_stale_iff.mp hverdict, c, hc, rfl, rfl⟩
    | _ =>
      rw [hverdict] at hrow
      cases hrow
  · rintro ⟨hstale, c, hc, rfl, rfl⟩
    exact ⟨c, hc, by rw [hlookup c hc, Verdict.of_eq_stale_iff.mpr hstale]⟩

end Reconciled

namespace Database

/-- The parts of a database can be reached. -/
structure Reachable (db : Database) : Prop where
  store : db.store.unavailable = false
  index : db.index.unavailable = false

variable {db : Database} {scope : Scope} {candidates : List Candidate}

/-- The database after it has served a batch of records. -/
def loaded (db : Database) : Database := { db with store := db.store.loaded }

theorem reconcile_nil (db : Database) (scope : Scope) : db.reconcile scope [] = (.ok {}, db) := rfl

theorem reconcile_of_outage (hne : candidates ≠ []) (h : db.store.unavailable = true) :
    db.reconcile scope candidates = (.error EntityStore.outage, db) := by
  have hload : ∀ ids, db.store.load ids = .error EntityStore.outage := fun _ => if_pos h
  rw [reconcile, if_neg (by simpa using hne), hload]

/-- How the check of candidates ends, once the store has served their records: there is nothing to
drop, or the index cannot be reached to drop it, or it is dropped. -/
theorem reconcile_cases (hne : candidates ≠ []) (h : db.store.unavailable = false)
    (scope : Scope) :
    ∃ held, (∀ c ∈ candidates, held.lookup c.id = db.store.get? c.id) ∧
      ((Reconciled.staleRows held candidates = [] ∧
          db.reconcile scope candidates = (.ok (.ofCandidates held candidates), db.loaded)) ∨
        Reconciled.staleRows held candidates ≠ [] ∧ db.index.unavailable = true ∧
          db.reconcile scope candidates = (.error SearchIndex.outage, db.loaded) ∨
        Reconciled.staleRows held candidates ≠ [] ∧ db.index.unavailable = false ∧
          db.reconcile scope candidates = (.ok (.ofCandidates held candidates),
            { db.loaded with
              index := db.index.dropped scope (Reconciled.staleRows held candidates) })) := by
  obtain ⟨held, hload, hlookup⟩ :=
    EntityStore.exists_load h (candidates.map Candidate.id).eraseDups
  refine ⟨held, fun c hc => hlookup c.id (List.mem_eraseDups.mpr (List.mem_map_of_mem hc)), ?_⟩
  rw [reconcile, if_neg (by simpa using hne), hload]
  cases hstale : Reconciled.staleRows held candidates with
  | nil => exact .inl ⟨rfl, by simp only [hstale, loaded]⟩
  | cons row rows =>
    cases havail : db.index.unavailable with
    | true =>
      refine .inr (.inl ⟨List.cons_ne_nil _ _, rfl, ?_⟩)
      simp only [hstale, SearchIndex.deindex_of_outage havail, loaded]
    | false =>
      refine .inr (.inr ⟨List.cons_ne_nil _ _, rfl, ?_⟩)
      simp only [hstale, SearchIndex.deindex_eq havail, loaded]

/-- **The check of candidates** confirms those at the version that the store holds, and drops the
rows of those that the store has left behind. -/
theorem exists_reconcile {db : Database} (h : db.Reachable) (scope : Scope)
    (candidates : List Candidate) :
    ∃ r db', db.reconcile scope candidates = (.ok r, db') ∧
      r.records = candidates.filterMap db.store.confirm? ∧
      db'.store.records = db.store.records ∧ db'.Reachable ∧
      ∀ key doc, db'.index.Has key doc ↔ db.index.Has key doc ∧
        ¬ (key.scope = scope ∧ db.store.Outdates key.id key.version ∧
          ∃ c ∈ candidates, c.id = key.id ∧ c.version = key.version) := by
  by_cases hempty : candidates = []
  · subst hempty
    exact ⟨{}, db, reconcile_nil db scope, rfl, rfl, h, by simp⟩
  · obtain ⟨held, hheld, hcases⟩ := reconcile_cases hempty h.store scope
    have hrow : ∀ key : RowKey,
        key.scope = scope ∧ (key.id, key.version) ∈ Reconciled.staleRows held candidates ↔
          key.scope = scope ∧ db.store.Outdates key.id key.version ∧
            ∃ c ∈ candidates, c.id = key.id ∧ c.version = key.version :=
      fun _ => and_congr_right fun _ => Reconciled.mem_staleRows hheld
    have hrecords := Reconciled.records_ofCandidates hheld
    simp only [← hrow]
    rcases hcases with ⟨hnil, heq⟩ | ⟨-, hout, -⟩ | ⟨-, -, heq⟩
    · exact ⟨_, _, heq, hrecords, rfl, ⟨h.store, h.index⟩, by simp [hnil, loaded]⟩
    · rw [h.index] at hout
      cases hout
    · exact ⟨_, _, heq, hrecords, rfl, ⟨h.store, h.index⟩, fun _ _ => SearchIndex.has_dropped⟩

end Database

end EntityQuery
