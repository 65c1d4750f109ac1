import EntityQuery.Error
import EntityQuery.Graph.Edge

/-! # The store of edges

A store holds versions of edges, those of one application apart from those of another. It is asked
for the versions of an edge up to a time, and for the edges at a node that are there at a time: the
newest version up to that time decides. The store counts the changes that were made to it and
remembers the deletions that it was asked for. It can be out of reach, and the deletions that it
carries out can be limited in number. -/

namespace EntityQuery

/-- The key of a version: versions are ordered by application, then by edge, then by time. -/
structure VersionKey where
  application : String
  edge : Edge
  timestamp : Timestamp
  deriving DecidableEq

namespace VersionKey

instance : Ord VersionKey :=
  ⟨compareLex (compareOn (·.application)) <|
    compareLex (compareOn (·.edge)) (compareOn (·.timestamp))⟩

instance : Std.TransOrd VersionKey :=
  inferInstanceAs <| Std.TransCmp <|
    compareLex (compareOn fun k : VersionKey => k.application) <|
      compareLex (compareOn fun k : VersionKey => k.edge)
        (compareOn fun k : VersionKey => k.timestamp)

instance : Std.LawfulEqOrd VersionKey where
  eq_of_compare {a b} h := by
    have h : (compare a.application b.application).then
        ((compare a.edge b.edge).then (compare a.timestamp b.timestamp)) = .eq := h
    simp only [Ordering.then_eq_eq] at h
    have happlication : a.application = b.application := Std.LawfulEqOrd.eq_of_compare h.1
    have hedge : a.edge = b.edge := Std.LawfulEqOrd.eq_of_compare h.2.1
    have htimestamp : a.timestamp = b.timestamp := Std.LawfulEqOrd.eq_of_compare h.2.2
    cases a
    cases b
    simp_all

end VersionKey

/-- A store of versions of edges. -/
structure EdgeStore where
  /-- Whether the edge was deleted, for each version that is held. -/
  versions : Std.ExtTreeMap VersionKey Bool
  /-- How many changes have been made. -/
  mutations : Nat
  /-- Whether the store is out of reach. -/
  unavailable : Bool
  /-- How many more deletions are let through, if they are limited. -/
  deletionsLeft : Option Nat
  /-- The times of the versions whose deletion was asked for, the earliest request first. -/
  attempts : List Timestamp

namespace EdgeStore

/-- A store without versions. -/
def empty : EdgeStore := ⟨∅, 0, false, none, []⟩

/-- The error of a store that is out of reach. -/
def outage : RequestError := .storage "edge store marked unavailable"

/-- The error of a deletion that is not let through. -/
def refusal (v : EdgeVersion) : RequestError := .storage s!"delete of {v.text} rejected"

/-- Sets whether the store is out of reach. -/
def setUnavailable (s : EdgeStore) (unavailable : Bool) : EdgeStore := { s with unavailable }

/-- Limits the deletions that are let through from now on. -/
def limitDeletions (s : EdgeStore) (deletionsLeft : Option Nat) : EdgeStore :=
  { s with deletionsLeft }

/-- Holds a version, in the place of what was held of the edge for that time. -/
def write (s : EdgeStore) (application : String) (v : EdgeVersion) :
    Except RequestError EdgeStore :=
  if s.unavailable then .error outage
  else .ok { s with
    versions := s.versions.insert ⟨application, v.edge, v.timestamp⟩ v.deleted
    mutations := s.mutations + 1 }

/-- Drops what is held of an edge for a time. -/
def erase (s : EdgeStore) (key : VersionKey) : EdgeStore :=
  if key ∈ s.versions then
    { s with versions := s.versions.erase key, mutations := s.mutations + 1 }
  else s

/-- Deletes a version. The request is remembered whether or not it succeeds, and the limit on
deletions comes before the question whether the store can be reached. -/
def delete (s : EdgeStore) (application : String) (v : EdgeVersion) :
    Except RequestError Unit × EdgeStore :=
  let asked := { s with attempts := s.attempts ++ [v.timestamp] }
  if s.deletionsLeft = some 0 then (.error (refusal v), asked)
  else
    let passed := asked.limitDeletions (s.deletionsLeft.map (· - 1))
    if s.unavailable then (.error outage, passed)
    else (.ok (), passed.erase ⟨application, v.edge, v.timestamp⟩)

/-- The versions of an edge that are held up to a time, the newest first. -/
def history (s : EdgeStore) (application : String) (edge : Edge) (upTo : Timestamp) :
    List EdgeVersion :=
  let held := s.versions.toList.filter fun (key, _) =>
    key.application = application ∧ key.edge = edge ∧ key.timestamp ≤ upTo
  held.reverse.map fun (key, deleted) => ⟨edge, key.timestamp, deleted⟩

/-- The version that decides whether an edge is there at a time. -/
def newest? (s : EdgeStore) (application : String) (edge : Edge) (upTo : Timestamp) :
    Option EdgeVersion :=
  (s.history application edge upTo).head?

/-- The edges of an application of which a version is held, in their order. -/
def edges (s : EdgeStore) (application : String) : List Edge :=
  let keys := s.versions.keys.filter (·.application = application)
  (keys.map (·.edge)).eraseDups

/-- The versions of an edge up to a time, the newest first. -/
def versionsOf (s : EdgeStore) (application : String) (edge : Edge) (upTo : Timestamp) :
    Except RequestError (List EdgeVersion) :=
  if s.unavailable then .error outage else .ok (s.history application edge upTo)

end EdgeStore

/-- What edges are looked for at a node. -/
structure EdgeQuery where
  node : Node
  side : Side
  label : String
  /-- The kind of node at the other end. -/
  kind : String
  upTo : Timestamp

namespace EdgeQuery

/-- Whether an edge is one of those looked for, if it is there. -/
def selects (q : EdgeQuery) (e : Edge) : Bool :=
  e.near q.side = q.node && e.label = q.label && (e.far q.side).kind = q.kind

end EdgeQuery

namespace EdgeStore

/-- The edges looked for that are there, each by the version that decides it. -/
def present (s : EdgeStore) (application : String) (q : EdgeQuery) : List EdgeVersion :=
  ((s.edges application).filter q.selects).filterMap fun e =>
    (s.newest? application e q.upTo).filter (!·.deleted)

/-- The first edges looked for that are there. -/
def live (s : EdgeStore) (application : String) (q : EdgeQuery) (limit : Nat) :
    Except RequestError (List EdgeVersion) :=
  if s.unavailable then .error outage else .ok ((s.present application q).take limit)

end EdgeStore

end EntityQuery
