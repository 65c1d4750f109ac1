import EntityQuery.Files.Basic
import EntityQuery.Graph.Repair
import EntityQuery.Search.Basic

/-! # Settings

The settings are the limits of queries, of searches and of repairs, each in a section of its own. No
limit is zero, and the size of a page that a request leaves open does not go beyond the greatest
size. -/

namespace EntityQuery

/-- The settings. -/
structure Settings where
  query : QueryLimits := {}
  reconcile : ReconcileLimits := {}
  repair : RepairLimits := {}
  deriving DecidableEq

/-- A section of the settings: its name, and its numbers by their names. -/
structure SettingsSection where
  name : String
  fields : List (String × Nat)

/-- Why settings cannot be had, or cannot be kept. -/
inductive SettingsError where
  /-- A file of settings cannot be read. -/
  | read (path : String) (e : FileError)
  /-- A text does not spell out settings. -/
  | parse (path : String)
  /-- A number is too large to be written down. -/
  | tooLarge
  /-- A file of settings cannot be written. -/
  | write (path : String) (e : FileError)
  /-- The folder for a file of settings cannot be made. -/
  | makeFolder (path : String) (e : FileError)
  /-- A limit is zero. -/
  | zero (key : String)
  /-- The size of a page that a request leaves open is beyond the greatest size. -/
  | defaultBeyondMax
  deriving DecidableEq

/-- The error in words. -/
def SettingsError.message : SettingsError → String
  | read path e => s!"failed to read config {path}: {e.text}"
  | parse path => s!"failed to parse config {path}: no settings are spelled out"
  | tooLarge => "failed to serialize config: a number is too large"
  | write path e => s!"failed to write config {path}: {e.text}"
  | makeFolder path e => s!"failed to create config directory {path}: {e.text}"
  | zero key => s!"config key {key} must be greater than zero"
  | defaultBeyondMax => "config key query.default_limit must not exceed query.max_limit"

namespace Settings

/-- The sections of the settings, in their order. -/
def sections (s : Settings) : List SettingsSection := [
  ⟨"query", [("default_limit", s.query.defaultLimit), ("max_limit", s.query.maxLimit),
    ("scan_page_size", s.query.scanPageSize)]⟩,
  ⟨"reconcile", [("max_candidate_pages", s.reconcile.maxCandidatePages)]⟩,
  ⟨"repair", [("batch_size", s.repair.batchSize)]⟩]

/-- The numbers of the settings by the names of their sections and their own. -/
def fields (s : Settings) : List (String × Nat) :=
  s.sections.flatMap fun part => part.fields.map fun (name, n) => (part.name ++ "." ++ name, n)

/-- Refuses a limit that is zero, the first one first, and then a page that a request leaves open
and that is beyond the greatest size. -/
def check (s : Settings) : Except SettingsError Unit :=
  match s.fields.find? fun (_, n) => n = 0 with
  | some (key, _) => .error (.zero key)
  | none =>
    if s.query.maxLimit < s.query.defaultLimit then .error .defaultBeyondMax else .ok ()

/-- The settings as JSON, a member for each section. -/
def toJson (s : Settings) : Json :=
  .ofMembers <| s.sections.map fun part =>
    (part.name, .ofMembers (part.fields.map fun (name, n) => (name, .ofUInt64 (.ofNat n))))

end Settings

end EntityQuery
