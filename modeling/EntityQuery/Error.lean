import EntityQuery.Plan.Compile
import EntityQuery.Query.ParseError
import EntityQuery.Write.Stage

/-! # Why a request fails

The errors of queries, stores and writes. Only the failures of storage are worth a second try with
the same request. -/

namespace EntityQuery

/-- The sixteen hexadecimal digits of a digest. -/
def digestText (digest : UInt64) : String :=
  let digits := Nat.toDigits 16 digest.toNat
  String.ofList (List.replicate (16 - digits.length) '0' ++ digits)

/-- The direction as a word of its own. -/
def Direction.name : Direction → String
  | ascending => "Ascending"
  | descending => "Descending"

/-- Why a token is no cursor for a request. -/
inductive CursorError where
  /-- The token is not made of letters that stand for bytes. -/
  | notBase64
  /-- The bytes of the token do not spell out a cursor. -/
  | malformedBody
  /-- The cursor was handed out by another plan. -/
  | otherPlan (issued requested : UInt64)
  /-- The cursor was handed out for the other direction. -/
  | otherDirection (issued requested : Direction)
  deriving DecidableEq

/-- The error in words. -/
def CursorError.message : CursorError → String
  | notBase64 => "not base64"
  | malformedBody => "malformed body"
  | otherPlan issued requested =>
    s!"issued for plan {digestText issued}, not {digestText requested}"
  | otherDirection issued requested =>
    s!"issued for {issued.name} order, requested {requested.name}"

/-- A request that no part of the library serves. -/
inductive Unserved where
  /-- Ranges of ids come in the order of ids only. -/
  | sortedScan
  /-- There is no index of places. -/
  | noGeoIndex
  deriving DecidableEq

/-- The request in words. -/
def Unserved.text : Unserved → String
  | sortedScan => "order by is served by a search index, not by range scans"
  | noGeoIndex => "no geo index configured"

/-- Why a request fails. -/
inductive RequestError where
  | parse (e : Query.ParseError)
  | compile (e : CompileError)
  /-- A store does not answer. -/
  | storage (detail : String)
  /-- A store does not answer in time. -/
  | timeout (detail : String)
  | cursor (e : CursorError)
  /-- A step of a write was given an entity of another kind than it takes. -/
  | stageMismatch (stage : Stage) (expected found : Progress)
  | unsupported (request : Unserved)
  /-- A page of no entities is asked for. -/
  | emptyPage
  deriving DecidableEq

namespace RequestError

/-- The error in words. -/
def message : RequestError → String
  | parse e => e.message
  | compile e => e.message
  | storage detail => s!"storage unavailable: {detail}"
  | timeout detail => s!"storage timed out: {detail}"
  | cursor e => s!"invalid cursor: {e.message}"
  | stageMismatch stage expected found =>
    s!"stage '{stage.name}' expected a {expected.text} payload, found {found.text}"
  | unsupported request => s!"unsupported: {request.text}"
  | emptyPage => "invalid argument: page limit must be positive"

/-- Whether the same request may succeed later. -/
def isRetriable : RequestError → Bool
  | storage _ | timeout _ => true
  | _ => false

end RequestError

end EntityQuery
