import EntityQuery.Json.Basic

/-! # Records

An entity is kept under its id as one record: its fields, or a mark that it was deleted. A record
carries the version at which it was written. -/

namespace EntityQuery

/-- The number of an entity. -/
abbrev EntityId := UInt64

/-- The number of a write; later writes have greater numbers. -/
abbrev Version := UInt64

/-- What is kept of an entity. -/
inductive RecordBody where
  /-- The fields of an entity that is there. -/
  | payload (doc : Json)
  /-- The mark of a deletion. -/
  | tombstone

/-- The fields, if the entity is there. -/
def RecordBody.payload? : RecordBody → Option Json
  | payload doc => some doc
  | tombstone => none

/-- Whether the entity was deleted. -/
def RecordBody.isTombstone : RecordBody → Bool
  | payload _ => false
  | tombstone => true

/-- What a store holds for an id. -/
structure Record where
  version : Version
  body : RecordBody

end EntityQuery
