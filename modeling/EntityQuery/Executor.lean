import EntityQuery.Paging.Request
import EntityQuery.Plan.Digest
import EntityQuery.Stream.Scan

/-! # Executing plans on a store

A selector becomes a stream: a slice is the union of the scans of all shards, a group of slices the
intersection of its slices, and a complement the difference from its group. Where a complement
stands beside another selector under `and`, it is taken off that selector directly. A slice whose
bounds cross is not scanned at all.

A page is read off the stream, and one id more tells whether another page follows. -/

namespace EntityQuery

/-- What plans are executed on. -/
structure Executor where
  store : EntityStore
  limits : QueryLimits
  /-- Whether the store also serves as an index of places. -/
  hasGeoIndex : Bool

/-- A page of ids. -/
structure Page where
  ids : List EntityId
  /-- The token of the page, if another one follows. -/
  cursor : Option String
  deriving DecidableEq

/-- The streams merged from left to right, or a stream in place of none. -/
def Stream.combineAll {S : Type} (op : SetOp) (none : Stream S) : List (Stream S) → Stream S
  | [] => none
  | s :: rest => rest.foldl (combine op) s

namespace Executor

/-- A scan of a target from its start or from behind an id. -/
def scan (x : Executor) (after : Option EntityId) (target : ScanTarget) : Stream Scan :=
  .source { store := x.store, target, after, pageSize := x.limits.scanPageSize }

/-- A stream without ids, which reads no page. -/
def nothing (x : Executor) : Stream Scan :=
  .source { store := x.store, target := .range 0 ⟨idProperty, none, none, false⟩, after := none,
            pageSize := x.limits.scanPageSize, exhausted := true }

/-- The stream of a slice. -/
def streamOfSlice (x : Executor) (d : Direction) (after : Option EntityId) (slice : Slice) :
    Except RequestError (Stream Scan) :=
  if slice.isEmptyRange then .ok x.nothing
  else x.store.shards.map fun shards =>
    .combineAll .union x.nothing (shards.map fun shard =>
      x.scan after (.range shard { slice with reversed := d.isDescending }))

/-- The stream of a group of slices. -/
def streamOfGroup (x : Executor) (d : Direction) (after : Option EntityId) (group : SliceGroup) :
    Except RequestError (Stream Scan) := do
  let streams ← group.slices.mapM (x.streamOfSlice d after)
  return .combineAll .intersection x.nothing streams

/-- The stream of a selector, from its start or from behind an id. -/
def stream (x : Executor) (d : Direction) (after : Option EntityId) :
    Selector → Except RequestError (Stream Scan)
  | .slices group => x.streamOfGroup d after group
  | .within area =>
    if x.hasGeoIndex then .ok (x.scan after (.area area d))
    else .error (.unsupported .noGeoIndex)
  | .or left right => do
    return .combine .union (← x.stream d after left) (← x.stream d after right)
  | .and other (.not subtract _) | .and (.not subtract _) other => do
    return .combine .difference (← x.stream d after other) (← x.stream d after subtract)
  | .and left right => do
    return .combine .intersection (← x.stream d after left) (← x.stream d after right)
  | .not subtract keep => do
    return .combine .difference (← x.streamOfGroup d after keep) (← x.stream d after subtract)

/-- How many of the store's calls have been made by a stream. -/
def callsOf (s : Stream Scan) : Nat :=
  s.sources.foldl (fun calls scan => calls + scan.pagesRead * scan.target.callsPerPage) 0

/-- The store after the calls of a stream. -/
def storeAfter (x : Executor) (s : Stream Scan) : EntityStore :=
  { x.store with scanCalls := x.store.scanCalls + callsOf s }

/-- Reads a page off a stream. -/
def readPage (page : ResolvedPage) (s : Stream Scan) : Except RequestError Page × Stream Scan :=
  match s.take page.direction page.limit with
  | (_, .failed e, rest) => (.error e, rest)
  | (ids, .ended, rest) => (.ok ⟨ids, none⟩, rest)
  | (ids, .full, rest) =>
    match rest.pull page.direction with
    | (.error e, rest) => (.error e, rest)
    | (.ok next, rest) =>
      (.ok ⟨ids, if next.isSome then ids.getLast?.map page.tokenAfter else none⟩, rest)

/-- A page of the ids that a plan selects, and the store after its calls. -/
def page (x : Executor) (plan : Plan) (request : PageRequest) :
    Except RequestError Page × EntityStore :=
  if !plan.sort.isEmpty then (.error (.unsupported .sortedScan), x.store)
  else match request.resolve plan.digest x.limits with
    | .error e => (.error e, x.store)
    | .ok resolved =>
      match x.stream resolved.direction resolved.after plan.selector with
      | .error e => (.error e, x.store)
      | .ok s =>
        let (result, rest) := readPage resolved s
        (result, x.storeAfter rest)

end Executor

end EntityQuery
