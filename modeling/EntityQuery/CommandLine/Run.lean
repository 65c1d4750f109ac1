import EntityQuery.CommandLine.Arguments
import EntityQuery.Json.Reader
import EntityQuery.Json.Writer
import EntityQuery.Listing
import EntityQuery.Plan.Digest
import EntityQuery.Plan.Explain
import EntityQuery.Plan.Request
import EntityQuery.Settings.File

/-! # Running the command line

An invocation loads the settings, then reads the query, then the data, and prints its result, as
lines or as JSON. The first of these steps that fails is the error that is told. Wrong arguments end
with the exit code 2, errors with 1. -/

namespace EntityQuery.CommandLine

/-- Why a command fails. -/
inductive CommandError where
  | settings (e : SettingsError)
  /-- A query that cannot be parsed or compiled, or a page that cannot be had. -/
  | request (e : RequestError)
  /-- The data cannot be read. -/
  | unreadableData (path : String) (e : FileError)
  /-- The data is not JSON. -/
  | malformedData
  | entities (e : EntitiesError)
  deriving DecidableEq

/-- The error in words; the kind of an error in a query stands in front of it. -/
def CommandError.message : CommandError → String
  | settings e => e.message
  | request (.parse e) => s!"[{e.code}] {e.message}"
  | request (.compile e) => s!"[{e.code}] {e.message}"
  | request e => e.message
  | unreadableData path e => s!"failed to read {path}: {e.text}"
  | malformedData => "the data is not JSON"
  | entities e => e.message

/-- The name and the version of a program. -/
structure Program where
  name : String
  version : String

/-- What the surroundings of a program say about its settings. -/
structure Environment where
  /-- The file of settings that is named by the environment. -/
  settingsPath : Option String
  /-- The file of settings of the user, which is taken if no other is named. -/
  userSettings : Option String

/-- How a program ends, and what it has printed. -/
structure ProgramOutcome where
  exitCode : UInt32
  stdout : String
  stderr : String
  deriving DecidableEq

/-- A result as lines of text and as JSON. -/
structure Report where
  text : String
  json : Json

/-- The result as it is printed. -/
def Report.print (r : Report) : OutputFormat → String
  | .text => r.text
  | .json => r.json.indented ++ "\n"

/-- The syntax of a query. -/
def reportSyntax (query : String) : Except CommandError Report :=
  match Query.parse query with
  | .error e => .error (.request (.parse e))
  | .ok q => .ok ⟨q.text ++ "\n", .ofMembers [("query", .string query), ("ast", .string q.text)]⟩

/-- The plan of a query, as far as it is compiled at all. -/
def planOf (query : String) : Except CommandError Plan :=
  (Plan.ofText .everything query).mapError .request

/-- The plan of a query. Its digest and its tree are shown in full even if literals are hidden. -/
def reportPlan (query : String) (redact : Bool) : Except CommandError Report := do
  let plan ← planOf query
  let digest := digestText plan.digest
  let tree := plan.explain redact
  return ⟨tree ++ s!"plan_hash: {digest}\n",
    .ofMembers [("plan_hash", .string digest), ("plan", .string tree), ("tree", plan.explainJson)]⟩

/-- A page of entities. -/
def reportPage (settings : Settings) (plan : Plan) (text : String) (request : PageRequest) :
    Except CommandError Report := do
  let some data := Json.ofText? text | .error .malformedData
  let store ← (EntityStore.ofEntities data).mapError .entities
  let page ← (Listing.ofPlan settings store plan request).mapError .request
  let lines := page.records.map Json.compact ++ page.cursor.toList.map ("cursor: " ++ ·)
  return ⟨String.join (lines.map (· ++ "\n")),
    .ofMembers [("records", .array page.records),
      ("cursor", (page.cursor.map Json.string).getD .null)]⟩

/-- The settings and the file that they are looked for in. -/
def reportSettings (settings : Settings) (path : Option String) : Except CommandError Report := do
  let text ← settings.toText.mapError .settings
  return ⟨text,
    .ofMembers [("path", (path.map Json.string).getD .null), ("config", settings.toJson)]⟩

section

variable {m : Type → Type} [Monad m] [FileSystem m]

/-- The result of a command under the settings at a path. -/
def execute (settings : Settings) (path : Option String) :
    Command → m (Except CommandError Report)
  | .parse query => return reportSyntax query
  | .explain query redact => return reportPlan query redact
  | .settings => return reportSettings settings path
  | .run query data request => do
    match planOf query with
    | .error e => return .error e
    | .ok plan =>
      match ← FileSystem.readText data with
      | .error e => return .error (.unreadableData data e)
      | .ok text => return reportPage settings plan text request

/-- The outcome of an invocation. -/
def Invocation.run (environment : Environment) (i : Invocation) : m ProgramOutcome := do
  let failed (e : CommandError) : ProgramOutcome := ⟨1, "", s!"error: {e.message}\n"⟩
  let path := i.settingsPath <|> environment.userSettings
  match ← Settings.load path with
  | .error e => return failed (.settings e)
  | .ok settings =>
    match ← execute settings path i.command with
    | .error e => return failed e
    | .ok report => return ⟨0, report.print i.format, ""⟩

/-- How the program is used. -/
def usage (program : Program) : String :=
  s!"Usage: {program.name} [--config PATH] [--format text|json] [-v] COMMAND\n\n" ++
  "Commands:\n" ++
  "  parse QUERY                 print the syntax of a query\n" ++
  "  explain QUERY [--redact]    print the plan of a query\n" ++
  "  run QUERY --data FILE [--limit N] [--cursor TOKEN] [--desc]\n" ++
  "                              print a page of the entities in a file\n" ++
  "  config                      print the settings\n"

/-- The outcome of a program that is given arguments. -/
def run (program : Program) (environment : Environment) (arguments : List String) :
    m ProgramOutcome :=
  match Invocation.ofArguments environment.settingsPath arguments with
  | .ok i => i.run environment
  | .error .help => return ⟨0, usage program, ""⟩
  | .error .version => return ⟨0, s!"{program.name} {program.version}\n", ""⟩
  | .error .misuse => return ⟨2, "", usage program⟩

end

end EntityQuery.CommandLine
