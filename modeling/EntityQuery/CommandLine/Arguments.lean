import EntityQuery.Number.Word
import EntityQuery.Paging.Request
import EntityQuery.Text.Digits

/-! # The arguments of the command line

A command line names a command and gives options to it. An option has a name behind two dashes, and
its value follows as the next argument or behind an equals sign; some options have a letter behind
one dash, and letters may stand together. The options that every command has may also stand before
the command; where one stands on both sides, the later one counts. Two dashes alone end the
options. -/

namespace EntityQuery.CommandLine

/-- How results are printed. -/
inductive OutputFormat where
  | text
  | json
  deriving DecidableEq

/-- What is asked for. -/
inductive Command where
  /-- Prints the syntax of a query. -/
  | parse (query : String)
  /-- Prints the plan of a query, without its literals if they are to be hidden. -/
  | explain (query : String) (redact : Bool)
  /-- Prints a page of the entities in a file. -/
  | run (query : String) (data : String) (request : PageRequest)
  /-- Prints the settings. -/
  | settings
  deriving DecidableEq

/-- A command with the options that every command has. -/
structure Invocation where
  /-- The file of settings that is named. -/
  settingsPath : Option String
  format : OutputFormat
  command : Command
  deriving DecidableEq

/-- Why arguments are no invocation. -/
inductive Stop where
  /-- They ask how the program is used. -/
  | help
  /-- They ask which version of the program this is. -/
  | version
  /-- They are wrong. -/
  | misuse
  deriving DecidableEq

/-- The command that arguments belong to, or none of them yet. -/
inductive Level where
  | top
  | parse
  | explain
  | run
  | settings
  deriving DecidableEq

/-- An option. -/
inductive Flag where
  | settings
  | format
  | verbose
  | redact
  | data
  | limit
  | cursor
  | descending
  | help
  | version
  deriving DecidableEq

/-- The name of an option. -/
def Flag.name : Flag → String
  | settings => "config"
  | format => "format"
  | verbose => "verbose"
  | redact => "redact"
  | data => "data"
  | limit => "limit"
  | cursor => "cursor"
  | descending => "desc"
  | help => "help"
  | version => "version"

/-- The letter of an option. -/
def Flag.letter? : Flag → Option Char
  | verbose => some 'v'
  | help => some 'h'
  | version => some 'V'
  | _ => none

/-- Whether an option has a value. -/
def Flag.takesValue : Flag → Bool
  | settings | format | data | limit | cursor => true
  | verbose | redact | descending | help | version => false

namespace Level

/-- The command of a name. -/
def ofName? : String → Option Level
  | "parse" => some parse
  | "explain" => some explain
  | "run" => some run
  | "config" => some settings
  | _ => none

/-- The options that may be given to a command, or before it. -/
def flags : Level → List Flag
  | top => [.settings, .format, .verbose, .help, .version]
  | parse | settings => [.settings, .format, .verbose, .help]
  | explain => [.settings, .format, .verbose, .help, .redact]
  | run => [.settings, .format, .verbose, .help, .data, .limit, .cursor, .descending]

/-- Whether a command is about a query. -/
def hasQuery : Level → Bool
  | parse | explain | run => true
  | top | settings => false

end Level

/-- What has been given so far. -/
structure Given where
  settingsPath : Option String := none
  format : Option OutputFormat := none
  redact : Bool := false
  data : Option String := none
  limit : Option Nat := none
  cursor : Option String := none
  descending : Bool := false
  query : Option String := none

/-- The number that digits denote, if it fits 64 bits. A plus may stand in front. -/
def count? (text : String) : Option Nat :=
  let ds := match text.toList with
    | '+' :: ds => ds
    | ds => ds
  if ds ≠ [] ∧ ds.all Char.isDigit then (word? (Text.digitsValue ds)).map UInt64.toNat else none

/-- Sets what has not been set yet. -/
def setOnce {α : Type} (old : Option α) (new : Option α) : Except Stop (Option α) :=
  if old.isSome || new.isNone then .error .misuse else .ok new

namespace Given

/-- Takes in an option with a value. Paths are not empty. -/
def give (g : Given) (flag : Flag) (v : String) : Except Stop Given := do
  let path := if v.isEmpty then none else some v
  match flag with
  | .settings => return { g with settingsPath := ← setOnce g.settingsPath path }
  | .format =>
    let format := if v = "text" then some .text else if v = "json" then some .json else none
    return { g with format := ← setOnce g.format format }
  | .data => return { g with data := ← setOnce g.data path }
  | .limit => return { g with limit := ← setOnce g.limit (count? v) }
  | .cursor => return { g with cursor := ← setOnce g.cursor (some v) }
  | _ => .error .misuse

/-- Takes in an option without a value. How much is told along the way may be asked for again and
again; nothing is told in any case. -/
def mark (g : Given) : Flag → Except Stop Given
  | .verbose => .ok g
  | .redact => if g.redact then .error .misuse else .ok { g with redact := true }
  | .descending => if g.descending then .error .misuse else .ok { g with descending := true }
  | .help => .error .help
  | .version => .error .version
  | _ => .error .misuse

/-- Takes in an argument that belongs to no option. -/
def addQuery (g : Given) (level : Level) (text : String) : Except Stop Given := do
  if level.hasQuery then return { g with query := ← setOnce g.query (some text) }
  else .error .misuse

/-- Takes in the letter of an option. -/
def addLetter (level : Level) (g : Given) (c : Char) : Except Stop Given :=
  match level.flags.find? fun flag => flag.letter? = some c with
  | some flag => g.mark flag
  | none => .error .misuse

end Given

/-- What an argument looks like. -/
inductive Argument where
  /-- The end of the options. -/
  | dashes
  /-- The name of an option, perhaps with a value. -/
  | named (name : String) (v : Option String)
  /-- Letters of options. -/
  | letters (cs : List Char)
  | plain (text : String)

/-- What an argument looks like. A single dash is plain. -/
def Argument.ofText (text : String) : Argument :=
  match text.toList with
  | ['-', '-'] => dashes
  | '-' :: '-' :: cs =>
    let name := String.ofList (cs.takeWhile (· ≠ '='))
    match cs.dropWhile (· ≠ '=') with
    | [] => named name none
    | _ :: v => named name (some (.ofList v))
  | '-' :: c :: cs => letters (c :: cs)
  | _ => plain text

/-- Whether an argument can be the value of an option before it. -/
def Argument.isPlain : Argument → Bool
  | plain _ => true
  | _ => false

/-- Takes in the arguments of a command, or those before it; in that case the command and what
follows it are left over. -/
def scan (level : Level) (g : Given) : List String → Except Stop (Given × List String)
  | [] => .ok (g, [])
  | text :: rest =>
    match Argument.ofText text with
    | .plain _ =>
      if level = .top then .ok (g, text :: rest)
      else do scan level (← g.addQuery level text) rest
    | .dashes => do
      let g ← rest.foldlM (fun g text => Given.addQuery g level text) g
      return (g, [])
    | .letters cs => do scan level (← cs.foldlM (Given.addLetter level) g) rest
    | .named name v =>
      match level.flags.find? fun flag => flag.name = name with
      | none => .error .misuse
      | some flag =>
        match flag.takesValue, v, rest with
        | false, none, rest => do scan level (← g.mark flag) rest
        | false, some _, _ => .error .misuse
        | true, some v, rest => do scan level (← g.give flag v) rest
        | true, none, [] => .error .misuse
        | true, none, v :: rest =>
          if (Argument.ofText v).isPlain then do scan level (← g.give flag v) rest
          else .error .misuse

/-- The command that the arguments of a level amount to. -/
def Given.command (g : Given) (level : Level) : Except Stop Command :=
  match level, g.query, g.data with
  | .settings, _, _ => .ok .settings
  | .parse, some query, _ => .ok (.parse query)
  | .explain, some query, _ => .ok (.explain query g.redact)
  | .run, some query, some data =>
    .ok (.run query data ⟨g.limit, g.cursor, if g.descending then .descending else .ascending⟩)
  | _, _, _ => .error .misuse

/-- The invocation that arguments amount to. A file of settings may also be named by the
environment, which is looked at on each side of the command where the option is not given; it must
not name an empty path there. -/
def Invocation.ofArguments (environment : Option String) (arguments : List String) :
    Except Stop Invocation := do
  let (before, rest) ← scan .top {} arguments
  let name :: rest := rest | .error .misuse
  let some level := Level.ofName? name | .error .misuse
  let (g, _) ← scan level {} rest
  if environment = some "" ∧ (before.settingsPath.isNone ∨ g.settingsPath.isNone) then
    .error .misuse
  else return {
    settingsPath := g.settingsPath <|> before.settingsPath <|> environment
    format := (g.format <|> before.format).getD .text
    command := ← g.command level }

end EntityQuery.CommandLine
