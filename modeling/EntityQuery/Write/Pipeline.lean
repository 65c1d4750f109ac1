import EntityQuery.Database
import EntityQuery.Write.Stage

/-! # Writing entities

A pipeline is a list of steps that an entity goes through in order. A step refuses an entity that
has not come just as far as the step expects, and then has no effect. Deletions are committed but
not indexed; the rows of earlier versions stay in the index until a search finds them stale. -/

namespace EntityQuery

/-- An entity on its way through a pipeline. -/
inductive Draft where
  | raw (id : EntityId) (body : RecordBody)
  | versioned (id : EntityId) (version : Version) (body : RecordBody)
  | committed (id : EntityId) (version : Version) (body : RecordBody)

namespace Draft

/-- How far the entity has come. -/
def progress : Draft → Progress
  | raw .. => .raw
  | versioned .. => .versioned
  | committed .. => .committed

/-- The version, once there is one. -/
def version? : Draft → Option Version
  | raw .. => none
  | versioned _ version _ | committed _ version _ => some version

/-- What is written. -/
def body : Draft → RecordBody
  | raw _ body | versioned _ _ body | committed _ _ body => body

end Draft

namespace Database

/-- Takes an entity through one step, at a reading of the clock. -/
def applyStage (db : Database) (scope : Scope) (reading : Version) (stage : Stage) (draft : Draft) :
    Except RequestError (Draft × Database) :=
  match stage, draft with
  | .assignVersion, .raw id body =>
    let (version, clock) := db.clock.next reading
    .ok (.versioned id version body, { db with clock })
  | .commitEntity, .versioned id version body =>
    (db.store.write id version body).map fun store =>
      (.committed id version body, { db with store })
  | .indexEntity, .committed id version body =>
    match body with
    | .tombstone => .ok (.committed id version body, db)
    | .payload doc =>
      (db.index.index scope id version doc).map fun index =>
        (.committed id version body, { db with index })
  | stage, draft => .error (.stageMismatch stage stage.expects draft.progress)

/-- Takes an entity through steps. Each step has its reading of the clock; the effects of the steps
before one that fails remain. -/
def runPipeline (db : Database) (scope : Scope) :
    List (Stage × Version) → Draft → Except RequestError Draft × Database
  | [], draft => (.ok draft, db)
  | (stage, reading) :: rest, draft =>
    match db.applyStage scope reading stage draft with
    | .error e => (.error e, db)
    | .ok (draft, db) => runPipeline db scope rest draft

/-- The steps that make an entity searchable. -/
def standardStages : List Stage := [.assignVersion, .commitEntity, .indexEntity]

end Database

end EntityQuery
