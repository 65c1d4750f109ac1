import EntityQuery.Search.Index
import EntityQuery.Write.Clock

/-! # The parts of a database

Entities are kept in a store and copied into a search index; a clock numbers the writes. -/

namespace EntityQuery

/-- A store, the search index over it and the clock of its writes. -/
structure Database where
  store : EntityStore
  index : SearchIndex
  clock : VersionClock

/-- A database without entities, whose store has the given count of shards. -/
def Database.empty (shards : Nat) : Database := ⟨.empty shards, .empty, .start⟩

end EntityQuery
