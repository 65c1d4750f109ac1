import EntityQuery.Store.Entities

/-! # The search index

The index holds copies of entities, one row for each version that was indexed, and answers searches
in the order of rows. It lags behind the store: it keeps a version until it is told to drop it. Rows
are kept apart by scope. The index remembers the batches of rows that it was told to drop, and it
can be out of reach. -/

namespace EntityQuery

/-- The part of the index that a search sees. -/
structure Scope where
  application : String
  collection : String
  deriving DecidableEq

/-- The key of a row: rows are ordered by scope, then by id, then by version. -/
structure RowKey where
  scope : Scope
  id : EntityId
  version : Version
  deriving DecidableEq

namespace RowKey

/-- The order of rows. -/
def compareKeys : RowKey → RowKey → Ordering :=
  compareLex (compareOn (·.scope.application)) <| compareLex (compareOn (·.scope.collection)) <|
    compareLex (compareOn (·.id)) (compareOn (·.version))

instance : Ord RowKey := ⟨compareKeys⟩

instance : Std.TransOrd RowKey :=
  inferInstanceAs <| Std.TransCmp <|
    compareLex (compareOn fun k : RowKey => k.scope.application) <|
      compareLex (compareOn fun k : RowKey => k.scope.collection) <|
        compareLex (compareOn fun k : RowKey => k.id) (compareOn fun k : RowKey => k.version)

instance : Std.LawfulEqOrd RowKey where
  eq_of_compare {a b} h := by
    obtain ⟨⟨a1, a2⟩, a3, a4⟩ := a
    obtain ⟨⟨b1, b2⟩, b3, b4⟩ := b
    have h : (compare a1 b1).then
        ((compare a2 b2).then ((compare a3 b3).then (compare a4 b4))) = .eq := h
    simp only [Ordering.then_eq_eq] at h
    have e1 : a1 = b1 := Std.LawfulEqOrd.eq_of_compare h.1
    have e2 : a2 = b2 := Std.LawfulEqOrd.eq_of_compare h.2.1
    have e3 : a3 = b3 := Std.LawfulEqOrd.eq_of_compare h.2.2.1
    have e4 : a4 = b4 := Std.LawfulEqOrd.eq_of_compare h.2.2.2
    rw [e1, e2, e3, e4]

end RowKey

/-- A row as it is found by a search: it may be out of date. -/
structure Candidate where
  id : EntityId
  version : Version
  /-- The distance from the centre of the first area of the search. -/
  distance : Option Float
  sortKey : SortKey

/-- The place of a candidate among the rows. -/
def Candidate.position (c : Candidate) : RowPosition := ⟨c.sortKey, c.id, c.version⟩

/-- What is asked of the index. -/
structure CandidateQuery where
  selector : Selector
  sort : List SortTerm
  direction : Direction
  /-- Only rows behind this one are asked for. -/
  after : Option RowPosition
  limit : Nat

/-- A search index. -/
structure SearchIndex where
  rows : Std.ExtTreeMap RowKey Json
  /-- The batches of rows to drop that have been received, the earliest first. -/
  batches : List (List (EntityId × Version))
  /-- Whether the index is out of reach. -/
  unavailable : Bool

namespace SearchIndex

/-- An index without rows. -/
def empty : SearchIndex := ⟨∅, [], false⟩

/-- The error of an index that is out of reach. -/
def outage : RequestError := .storage "search index marked unavailable"

/-- Sets whether the index is out of reach. -/
def setUnavailable (x : SearchIndex) (unavailable : Bool) : SearchIndex := { x with unavailable }

/-- The rows of a scope, in their order. -/
def rowsOf (x : SearchIndex) (scope : Scope) : List (RowKey × Json) :=
  x.rows.toList.filter fun (key, _) => key.scope = scope

/-- The versions of an entity that are indexed, from the least up. -/
def versions (x : SearchIndex) (scope : Scope) (id : EntityId) : List Version :=
  ((x.rowsOf scope).filter fun (key, _) => key.id = id).map fun (key, _) => key.version

/-- The candidate for a row. -/
def candidate (q : CandidateQuery) (key : RowKey) (doc : Json) : Candidate where
  id := key.id
  version := key.version
  distance := q.selector.firstArea?.bind (·.distanceTo? doc)
  sortKey := EntityQuery.sortKey q.sort key.id doc

/-- The rows of a scope that a search selects, behind the row at which it starts. -/
def matching (x : SearchIndex) (scope : Scope) (q : CandidateQuery) : List Candidate :=
  let selected := (x.rowsOf scope).filter fun (key, doc) => q.selector.selects key.id doc
  (selected.map fun (key, doc) => candidate q key doc).filter fun c =>
    c.position.isAfter q.sort q.direction q.after

/-- The first rows that a search selects. -/
def search (x : SearchIndex) (scope : Scope) (q : CandidateQuery) :
    Except RequestError (List Candidate) :=
  if x.unavailable then .error outage
  else
    let less (a b : Candidate) : Bool := a.position.compare q.sort q.direction b.position == .lt
    .ok ((sortAscending less (x.matching scope q)).take q.limit)

/-- Indexes a version of an entity. -/
def index (x : SearchIndex) (scope : Scope) (id : EntityId) (version : Version) (doc : Json) :
    Except RequestError SearchIndex :=
  if x.unavailable then .error outage
  else .ok { x with rows := x.rows.insert ⟨scope, id, version⟩ doc }

/-- Drops a batch of rows. -/
def deindex (x : SearchIndex) (scope : Scope) (entries : List (EntityId × Version)) :
    Except RequestError SearchIndex :=
  if x.unavailable then .error outage
  else .ok { x with
    rows := entries.foldl (fun rows (id, version) => rows.erase ⟨scope, id, version⟩) x.rows
    batches := x.batches ++ [entries] }

end SearchIndex

end EntityQuery
