import EntityQuery.Paging.Cursor

/-! # Requests for pages

A request names how many entities it wants at most, where the last page ended and the direction. It
is resolved against the plan and the configured limits: the count is clamped, and the cursor must
belong to the plan and the direction. -/

namespace EntityQuery

/-- The configured limits of pages. -/
structure QueryLimits where
  /-- The size of a page whose request names none. -/
  defaultLimit : Nat := 10
  /-- The size beyond which no page goes. -/
  maxLimit : Nat := 1000
  /-- How many ids are read from a range at once. -/
  scanPageSize : Nat := 100
  deriving DecidableEq

/-- A request for a page. -/
structure PageRequest where
  limit : Option Nat := none
  /-- The token of the last page. -/
  cursor : Option String := none
  direction : Direction := .ascending
  deriving DecidableEq

/-- A request that has been checked. -/
structure ResolvedPage where
  limit : Nat
  direction : Direction
  /-- The last id of the last page. -/
  after : Option UInt64
  /-- The last row of the last page, if that was a search. -/
  row : Option RowPosition
  digest : UInt64
  deriving DecidableEq

/-- The size of the page that is asked for. -/
def PageRequest.size (request : PageRequest) (limits : QueryLimits) : Nat :=
  min (request.limit.getD limits.defaultLimit) limits.maxLimit

/-- Checks a request for a page of the plan with the given digest. -/
def PageRequest.resolve (request : PageRequest) (digest : UInt64) (limits : QueryLimits) :
    Except RequestError ResolvedPage :=
  let limit := request.size limits
  if limit = 0 then .error .emptyPage
  else match request.cursor with
    | none => .ok ⟨limit, request.direction, none, none, digest⟩
    | some token =>
      match Cursor.ofTokenFor digest token with
      | .error e => .error (.cursor e)
      | .ok c =>
        if c.direction = request.direction then
          .ok ⟨limit, request.direction, some c.after, c.row, digest⟩
        else .error (.cursor (.otherDirection c.direction request.direction))

namespace ResolvedPage

/-- The token of a page that ended with an id. -/
def tokenAfter (page : ResolvedPage) (last : UInt64) : String :=
  Cursor.token ⟨page.digest, page.direction, last, none⟩

/-- The token of a page that ended with a row. -/
def tokenAt (page : ResolvedPage) (row : RowPosition) : String :=
  Cursor.token ⟨page.digest, page.direction, row.id, some row⟩

/-- The row behind which a search goes on: the recorded one, or the place behind all rows of the
last id. -/
def resumeRow (page : ResolvedPage) : Option RowPosition :=
  page.row <|> page.after.map fun id => .pastId id page.direction

end ResolvedPage

end EntityQuery
