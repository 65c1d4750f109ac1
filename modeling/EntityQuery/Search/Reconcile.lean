import EntityQuery.Database

/-! # Checking candidates against the store

What the index finds is only a hint. A candidate counts if the store holds the entity at the very
version that was indexed, and then with the fields that the store holds. A candidate that the store
has left behind, by a later version or a deletion, is stale: its row is dropped from the index. A
candidate that the store does not know, or not yet in that version, is passed over. -/

namespace EntityQuery

/-- A candidate that the store confirms. -/
structure VerifiedRecord where
  id : EntityId
  version : Version
  /-- The fields that the store holds. -/
  payload : Json
  distance : Option Float

/-- How many candidates there were of each kind. -/
structure ReconcileStats where
  accepted : Nat := 0
  /-- The store holds no record. -/
  missing : Nat := 0
  /-- The store holds a later version or a deletion. -/
  stale : Nat := 0
  /-- The store holds an earlier version. -/
  ahead : Nat := 0
  deriving DecidableEq

/-- The counts of two lists of candidates together. -/
def ReconcileStats.add (a b : ReconcileStats) : ReconcileStats :=
  ⟨a.accepted + b.accepted, a.missing + b.missing, a.stale + b.stale, a.ahead + b.ahead⟩

/-- What becomes of a candidate. -/
inductive Verdict where
  | missing
  | stale
  | ahead
  | accepted (payload : Json)

/-- What becomes of a candidate of the given version, when the store holds `held` for its id. -/
def Verdict.of (held : Option Record) (version : Version) : Verdict :=
  match held with
  | none => missing
  | some ⟨_, .tombstone⟩ => stale
  | some ⟨current, .payload doc⟩ =>
    if version < current then stale else if current < version then ahead else accepted doc

/-- Counts a verdict. -/
def Verdict.stats : Verdict → ReconcileStats
  | missing => { missing := 1 }
  | stale => { stale := 1 }
  | ahead => { ahead := 1 }
  | accepted _ => { accepted := 1 }

/-- What becomes of a list of candidates. -/
structure Reconciled where
  /-- The confirmed candidates, in their order. -/
  records : List VerifiedRecord := []
  stats : ReconcileStats := {}

namespace Reconciled

/-- What becomes of candidates, when the store holds `held`. -/
def ofCandidates (held : List (EntityId × Record)) (candidates : List Candidate) : Reconciled where
  records := candidates.filterMap fun c =>
    match Verdict.of (held.lookup c.id) c.version with
    | .accepted doc => some ⟨c.id, c.version, doc, c.distance⟩
    | _ => none
  stats := candidates.foldl
    (fun stats c => stats.add (Verdict.of (held.lookup c.id) c.version).stats) {}

/-- The rows of the stale candidates, each once. -/
def staleRows (held : List (EntityId × Record)) (candidates : List Candidate) :
    List (EntityId × Version) :=
  (candidates.filterMap fun c =>
    match Verdict.of (held.lookup c.id) c.version with
    | .stale => some (c.id, c.version)
    | _ => none).eraseDups

end Reconciled

namespace Database

/-- Checks candidates against one batch of records of the store, and drops the stale ones from the
index in one batch. -/
def reconcile (db : Database) (scope : Scope) (candidates : List Candidate) :
    Except RequestError Reconciled × Database :=
  if candidates.isEmpty then (.ok {}, db)
  else match db.store.load (candidates.map Candidate.id).eraseDups with
    | .error e => (.error e, db)
    | .ok (held, store) =>
      let db := { db with store }
      let result := Reconciled.ofCandidates held candidates
      match Reconciled.staleRows held candidates with
      | [] => (.ok result, db)
      | stale =>
        match db.index.deindex scope stale with
        | .error e => (.error e, db)
        | .ok index => (.ok result, { db with index })

end Database

end EntityQuery
