import EntityQuery.Error
import EntityQuery.Store.Matching
import Std.Data.ExtTreeMap

/-! # The store of entities

The store holds the current record of every entity and is the authority on it. Its ids are spread
over shards, and each shard can be scanned for the entities that a slice selects, a page at a time;
the entities of an area can be scanned too. Scans go through the ids in either direction and start
behind a given id. The store counts the calls that it serves, and it can be out of reach. -/

namespace EntityQuery

/-- A store of entities. -/
structure EntityStore where
  records : Std.ExtTreeMap EntityId Record
  /-- How many shards there are. -/
  shardCount : Nat
  shardCount_pos : 0 < shardCount
  /-- Whether the store is out of reach. -/
  unavailable : Bool
  /-- How many batches of records have been loaded. -/
  loadCalls : Nat
  /-- How many pages have been scanned of shards. -/
  scanCalls : Nat

namespace Direction

/-- Whether an id comes behind another one, or there is no other one. -/
def isAfter (d : Direction) (after : Option EntityId) (id : EntityId) : Bool :=
  after.all fun a => d.orient (compare id a) == .gt

/-- An ascending list in the given direction. -/
def arrange {α : Type} (d : Direction) (ascending : List α) : List α :=
  if d.isDescending then ascending.reverse else ascending

end Direction

namespace EntityStore

/-- A store without records; it has at least one shard. -/
def empty (shards : Nat) : EntityStore where
  records := ∅
  shardCount := max shards 1
  shardCount_pos := Nat.lt_of_lt_of_le Nat.zero_lt_one (Nat.le_max_right ..)
  unavailable := false
  loadCalls := 0
  scanCalls := 0

/-- The error of a store that is out of reach. -/
def outage : RequestError := .storage "memory store marked unavailable"

/-- Puts a record in the place of whatever is held for an id. -/
def put (s : EntityStore) (id : EntityId) (version : Version) (body : RecordBody) : EntityStore :=
  { s with records := s.records.insert id ⟨version, body⟩ }

/-- Drops what is held for an id. -/
def remove (s : EntityStore) (id : EntityId) : EntityStore :=
  { s with records := s.records.erase id }

/-- The record that is held for an id. -/
def get? (s : EntityStore) (id : EntityId) : Option Record := s.records[id]?

/-- The ids that a record is held for, from the least up. -/
def ids (s : EntityStore) : List EntityId := s.records.keys

/-- Sets whether the store is out of reach. -/
def setUnavailable (s : EntityStore) (unavailable : Bool) : EntityStore := { s with unavailable }

/-- Writes a record, unless a later version is held. -/
def write (s : EntityStore) (id : EntityId) (version : Version) (body : RecordBody) :
    Except RequestError EntityStore :=
  if s.unavailable then .error outage
  else match s.get? id with
    | some held => if version < held.version then .ok s else .ok (s.put id version body)
    | none => .ok (s.put id version body)

/-- The records held for the given ids, and the store after the call. -/
def load (s : EntityStore) (ids : List EntityId) :
    Except RequestError (List (EntityId × Record) × EntityStore) :=
  if s.unavailable then .error outage
  else
    let found := ids.filterMap fun id => (s.get? id).map fun record => (id, record)
    .ok (found, { s with loadCalls := s.loadCalls + 1 })

/-- The ids of the entities that are there and pass a test, in the given direction. -/
def select (s : EntityStore) (d : Direction) (test : EntityId → Json → Bool) : List EntityId :=
  (d.arrange s.records.toList).filterMap fun (id, record) =>
    match record.body with
    | .payload doc => if test id doc then some id else none
    | .tombstone => none

/-- The shard of an id. -/
def shardOf (s : EntityStore) (id : EntityId) : Nat := id.toNat % s.shardCount

/-- The shards over which a property is spread. -/
def shards (s : EntityStore) : Except RequestError (List Nat) :=
  if s.unavailable then .error outage else .ok (List.range s.shardCount)

end EntityStore

/-- What a scan goes through. -/
inductive ScanTarget where
  /-- The entities of one shard that a slice selects; the slice knows its direction. -/
  | range (shard : Nat) (slice : Slice)
  /-- The entities of an area. -/
  | area (area : GeoArea) (direction : Direction)

namespace ScanTarget

/-- The direction of a scan. -/
def direction : ScanTarget → Direction
  | range _ slice => if slice.reversed then .descending else .ascending
  | area _ d => d

/-- All ids that a scan goes through, in their order. -/
def ids (t : ScanTarget) (s : EntityStore) : List EntityId :=
  s.select t.direction <| match t with
    | .range shard slice => fun id doc => s.shardOf id == shard && slice.selects id doc
    | .area place _ => fun _ doc => place.covers doc

/-- The ids that a scan goes through behind a given one. -/
def idsAfter (t : ScanTarget) (s : EntityStore) (after : Option EntityId) : List EntityId :=
  (t.ids s).filter (t.direction.isAfter after)

/-- A page of a scan. -/
def page (t : ScanTarget) (s : EntityStore) (after : Option EntityId) (limit : Nat) :
    Except RequestError (List EntityId) :=
  if s.unavailable then .error EntityStore.outage else .ok ((t.idsAfter s after).take limit)

/-- How many of the store's calls a page is counted as. -/
def callsPerPage : ScanTarget → Nat
  | range .. => 1
  | area .. => 0

end ScanTarget

namespace EntityStore

/-- Scans a page of a shard. -/
def scan (s : EntityStore) (shard : Nat) (slice : Slice) (after : Option EntityId) (limit : Nat) :
    Except RequestError (List EntityId × EntityStore) :=
  ((ScanTarget.range shard slice).page s after limit).map fun ids =>
    (ids, { s with scanCalls := s.scanCalls + 1 })

/-- Scans a page of an area. -/
def within (s : EntityStore) (area : GeoArea) (d : Direction) (after : Option EntityId)
    (limit : Nat) : Except RequestError (List EntityId) :=
  (ScanTarget.area area d).page s after limit

end EntityStore

end EntityQuery
