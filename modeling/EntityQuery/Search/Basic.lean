import EntityQuery.Paging.Request
import EntityQuery.Plan.Digest
import EntityQuery.Search.Reconcile

/-! # Searches

A search reads candidates from the index, as many rows at a time as its page has places, and keeps
those that the store confirms. It goes on until the page is full, the index has no more rows, or as
many batches of rows have been read as are allowed for one page. The cursor of a page is the last
row that it has used up, so the rows of one entity may lie on either side of it. -/

namespace EntityQuery

/-- How many batches of rows a page may read. -/
structure ReconcileLimits where
  maxCandidatePages : Nat := 8
  deriving DecidableEq

/-- What a selection shows of an entity. -/
def Selection.apply : Selection → Json → Json
  | all, doc => doc
  | fields paths, doc => doc.project paths

/-- A page of confirmed records. -/
structure SearchPage where
  records : List VerifiedRecord
  /-- The token of the page, if the index may have more rows. -/
  cursor : Option String
  stats : ReconcileStats
  /-- How many batches of rows have been read. -/
  candidatePages : Nat

/-- How far a search has come. -/
structure SearchState where
  records : List VerifiedRecord := []
  stats : ReconcileStats := {}
  candidatePages : Nat := 0
  /-- The last row that has been used up. -/
  after : Option RowPosition
  /-- Whether the index may have more rows. -/
  more : Bool := true

namespace SearchState

/-- The row of the candidate that a record was confirmed for. -/
def rowOf? (candidates : List Candidate) (record : VerifiedRecord) : Option RowPosition :=
  (candidates.find? fun c => c.id = record.id ∧ c.version = record.version).map Candidate.position

/-- Takes in a batch of candidates and what has become of them. If there are more records than
places, the batch is used up only as far as the last record that has a place. -/
def addBatch (s : SearchState) (limit : Nat) (candidates : List Candidate) (r : Reconciled) :
    SearchState :=
  let wanted := limit - s.records.length
  let s := { s with stats := s.stats.add r.stats, candidatePages := s.candidatePages + 1 }
  if wanted < r.records.length then
    let kept := r.records.take wanted
    { s with
      records := s.records ++ kept
      after := (kept.getLast?.bind (rowOf? candidates)).or s.after
      more := true }
  else
    { s with
      records := s.records ++ r.records
      after := (candidates.getLast?.map Candidate.position).or s.after
      more := candidates.length == limit }

end SearchState

namespace Database

/-- Reads at most `budget` batches of candidates. -/
def searchOn (plan : Plan) (scope : Scope) (page : ResolvedPage) :
    (budget : Nat) → SearchState → Database → Except RequestError SearchState × Database
  | 0, s, db => (.ok s, db)
  | budget + 1, s, db =>
    if !s.more || page.limit ≤ s.records.length then (.ok s, db)
    else match db.index.search scope
        ⟨plan.selector, plan.sort, page.direction, s.after, page.limit⟩ with
      | .error e => (.error e, db)
      | .ok candidates =>
        match db.reconcile scope candidates with
        | (.error e, db) => (.error e, db)
        | (.ok r, db) => searchOn plan scope page budget (s.addBatch page.limit candidates r) db

/-- The page that a search has come to. -/
def pageOf (plan : Plan) (page : ResolvedPage) (s : SearchState) : SearchPage where
  records := s.records.map fun r => { r with payload := plan.selection.apply r.payload }
  cursor := if s.more then s.after.map page.tokenAt else none
  stats := s.stats
  candidatePages := s.candidatePages

/-- A page of a search, and the database after it. -/
def search (db : Database) (limits : QueryLimits) (reconcile : ReconcileLimits) (plan : Plan)
    (scope : Scope) (request : PageRequest) : Except RequestError SearchPage × Database :=
  match request.resolve plan.digest limits with
  | .error e => (.error e, db)
  | .ok page =>
    match searchOn plan scope page reconcile.maxCandidatePages { after := page.resumeRow } db with
    | (.error e, db) => (.error e, db)
    | (.ok s, db) => (.ok (pageOf plan page s), db)

end Database

end EntityQuery
