import EntityQuery.Executor
import EntityQuery.Search.Basic
import EntityQuery.Settings.Basic

/-! # Listing entities

Entities that are given as a JSON array are put into a store, each under the id that it names; a
later entity takes the place of an earlier one with the same id. A query is then answered page by
page: without sort terms by ranges of ids, with sort terms by a search in an index of all entities.
-/

namespace EntityQuery

/-- Why a JSON value cannot be taken for entities. -/
inductive EntitiesError where
  /-- It is no array. -/
  | notAnArray
  /-- The entity at a place names no id. -/
  | noId (index : Nat)
  deriving DecidableEq

/-- The error in words. -/
def EntitiesError.message : EntitiesError → String
  | notAnArray => "the data is not a JSON array"
  | noId index => s!"entity {index} has no numeric id"

/-- The number of 64 bits under a key. -/
def Json.wordAt? (j : Json) (key : String) : Option UInt64 :=
  match j.member? key with
  | some (.number (.natural n)) => some n
  | _ => none

namespace EntityStore

/-- Puts entities into a store; the first of them is at the given place. -/
def putEntities (s : EntityStore) (index : Nat) : List Json → Except EntitiesError EntityStore
  | [] => .ok s
  | entity :: rest =>
    match entity.wordAt? "id" with
    | none => .error (.noId index)
    | some id =>
      let version := (entity.wordAt? "version").getD 1
      (s.put id version (.payload entity)).putEntities (index + 1) rest

/-- A store of the entities of an array. -/
def ofEntities : Json → Except EntitiesError EntityStore
  | .array entities => (empty 4).putEntities 0 entities
  | _ => .error .notAnArray

end EntityStore

/-- The index of all entities that are there, each at the version at which it is held. -/
def SearchIndex.ofStore (scope : Scope) (s : EntityStore) : SearchIndex :=
  let add (x : SearchIndex) (entry : EntityId × Record) : SearchIndex :=
    match entry.2.body with
    | .payload doc => { x with rows := x.rows.insert ⟨scope, entry.1, entry.2.version⟩ doc }
    | .tombstone => x
  s.records.toList.foldl add .empty

/-- A page of entities. -/
structure Listing where
  records : List Json
  /-- The token of the page, if there are more entities. -/
  cursor : Option String

namespace Listing

/-- A page of entities in the order of their ids. -/
def scanned (settings : Settings) (s : EntityStore) (plan : Plan) (request : PageRequest) :
    Except RequestError Listing :=
  let (result, _) := Executor.page ⟨s, settings.query, true⟩ plan request
  result.map fun page =>
    let docs := page.ids.filterMap fun id => (s.get? id).bind (·.body.payload?)
    ⟨docs.map plan.selection.apply, page.cursor⟩

/-- The part of an index in which entities are searched. -/
def scope : Scope := ⟨"cli", "data"⟩

/-- A page of entities in the order of the sort terms. -/
def sorted (settings : Settings) (s : EntityStore) (plan : Plan) (request : PageRequest) :
    Except RequestError Listing :=
  let db : Database := ⟨s, .ofStore scope s, .start⟩
  let (result, _) := db.search settings.query settings.reconcile plan scope request
  result.map fun page => ⟨page.records.map (·.payload), page.cursor⟩

/-- A page of entities. -/
def ofPlan (settings : Settings) (s : EntityStore) (plan : Plan) (request : PageRequest) :
    Except RequestError Listing :=
  if plan.sort.isEmpty then scanned settings s plan request else sorted settings s plan request

end Listing

end EntityQuery
