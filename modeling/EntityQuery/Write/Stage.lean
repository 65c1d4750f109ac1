/-! # Steps of a write

A write takes an entity through steps: it is given a version, committed to the store, and put into
the search index. Each step takes entities that have come just so far. -/

namespace EntityQuery

/-- How far an entity has come on its way through a write. -/
inductive Progress where
  | raw
  | versioned
  | committed
  deriving DecidableEq

/-- The name of a progress. -/
def Progress.text : Progress → String
  | raw => "raw"
  | versioned => "versioned"
  | committed => "committed"

/-- A step of a write. -/
inductive Stage where
  | assignVersion
  | commitEntity
  | indexEntity
  deriving DecidableEq

/-- The name of a step. -/
def Stage.name : Stage → String
  | assignVersion => "assign_version"
  | commitEntity => "commit_entity"
  | indexEntity => "index_entity"

/-- How far an entity must have come for a step. -/
def Stage.expects : Stage → Progress
  | assignVersion => .raw
  | commitEntity => .versioned
  | indexEntity => .committed

end EntityQuery
