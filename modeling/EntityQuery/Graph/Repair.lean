import EntityQuery.Graph.Registry
import EntityQuery.Graph.Store
import EntityQuery.Graph.Window

/-! # Repairs of the graph

Versions of edges are kept twice, in a log of commits and in storage, and the registry says which
edges may be found in storage. Repairs bring the three back into agreement: they drop the versions
that a write has made obsolete, the versions of an edge that was deleted, and the entries of the
registry for which no edge is there any more. Every call of a repair is about one version or one
entry, so a repair that failed can be run again from the start. -/

namespace EntityQuery

/-- How repairs are run. -/
structure RepairLimits where
  /-- How many calls are under way at a time. -/
  batchSize : Nat := 100
  deriving DecidableEq

/-- A graph with its log, its storage and its registry. -/
structure Graph where
  log : EdgeStore
  storage : EdgeStore
  registry : EdgeRegistry

/-- How the repair after a deletion ends. -/
inductive DeletionRepair where
  /-- The log does not say that the edge was deleted at that time. -/
  | notDeleted
  /-- So many versions were dropped from storage, and the mark was dropped from the log. -/
  | repaired (removed : Nat)
  deriving DecidableEq

namespace Graph

/-- A graph without edges. -/
def empty : Graph := ⟨.empty, .empty, .empty⟩

/-- The latest time. -/
def maxTimestamp : Timestamp := 0xFFFFFFFFFFFFFFFF

/-- Deletes versions from storage and counts them. -/
def deleteStored (g : Graph) (limits : RepairLimits) (application : String)
    (versions : List EdgeVersion) : Except RequestError Nat × Graph :=
  let (result, storage) :=
    runWindowed limits.batchSize (fun s v => EdgeStore.delete s application v) g.storage versions
  (result.map List.length, { g with storage })

/-- Drops the versions in storage that are older than one that was written. -/
def repairWrite (g : Graph) (limits : RepairLimits) (application : String) (keep : EdgeVersion) :
    Except RequestError Nat × Graph :=
  match g.storage.versionsOf application keep.edge maxTimestamp with
  | .error e => (.error e, g)
  | .ok versions =>
    g.deleteStored limits application (versions.dropWhile (keep.timestamp ≤ ·.timestamp))

/-- Drops the versions in storage of an edge that the log says was deleted at a time, up to that
time, and then the mark of the deletion in the log. -/
def repairDelete (g : Graph) (limits : RepairLimits) (application : String) (v : EdgeVersion) :
    Except RequestError DeletionRepair × Graph :=
  match g.log.versionsOf application v.edge v.timestamp with
  | .error e => (.error e, g)
  | .ok logged =>
    match logged.find? fun mark => mark.timestamp = v.timestamp && mark.deleted with
    | none => (.ok .notDeleted, g)
    | some mark =>
      match g.storage.versionsOf application v.edge v.timestamp with
      | .error e => (.error e, g)
      | .ok stored =>
        match g.deleteStored limits application stored with
        | (.error e, g) => (.error e, g)
        | (.ok removed, g) =>
          let (result, log) := g.log.delete application mark
          (result.map fun _ => .repaired removed, { g with log })

/-- Whether an edge with a label to a node of a kind is there in storage; if there is none, the kind
is forgotten. -/
def checkKind (storage : EdgeStore) (key : RegistryKey) (upTo : Timestamp) (r : EdgeRegistry)
    (kind : String) : Except RequestError Bool × EdgeRegistry :=
  let query : EdgeQuery := ⟨key.node, key.side, key.label, kind, upTo⟩
  match storage.live key.application query 1 with
  | .error e => (.error e, r)
  | .ok [] => (.ok false, r.forgetKind key kind upTo)
  | .ok (_ :: _) => (.ok true, r)

/-- Forgets the kinds that are registered for a label and have no edge in storage, and the label too
if none of its kinds has one. Entries that were seen after a time stay. The kinds in use are
counted. -/
def repairRegistry (g : Graph) (limits : RepairLimits) (key : RegistryKey) (upTo : Timestamp) :
    Except RequestError Nat × Graph :=
  let kinds := g.registry.kinds key
  match runWindowed limits.batchSize (checkKind g.storage key upTo) g.registry kinds with
  | (.error e, registry) => (.error e, { g with registry })
  | (.ok found, registry) =>
    let inUse := found.count true
    let registry := if inUse = 0 then registry.forgetLabel key upTo else registry
    (.ok inUse, { g with registry })

end Graph

end EntityQuery
