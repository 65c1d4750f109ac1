import EntityQuery.CommandLine.Run

/-! # The program

The outer layer of the command line: files, the environment and the streams of the process. The
program goes by the name of its executable, from which the names of its environment variable and of
its folder of settings are made. -/

namespace EntityQuery.CommandLine

/-- The reason for which the system refuses an access to a file. -/
def reasonOf : IO.Error → FileError
  | .noFileOrDirectory .. => .notFound
  | .alreadyExists .. => .alreadyThere
  | .inappropriateType _ code _ => if code = 21 then .isAFolder else .notAFolder
  | .invalidArgument _ 36 _ => .nameTooLong
  | e => .other e.toString

/-- The outcome of an access to a file. -/
def attempt {α : Type} (access : IO α) : IO (Except FileError α) := do
  return (← EIO.toBaseIO access).mapError reasonOf

instance : FileSystem IO where
  readText path := do
    match ← attempt (IO.FS.readBinFile path) with
    | .error e => return .error e
    | .ok bytes =>
      match String.fromUTF8? bytes with
      | some text => return .ok text
      | none => return .error .notText
  makeFolders path := if path.isEmpty then return .ok () else attempt (IO.FS.createDirAll path)
  writeText path text := attempt (IO.FS.writeFile path text)

/-- The file of settings of the user of a program. -/
def userSettings (name : String) : IO (Option String) := do
  let configured := (← IO.getEnv "XDG_CONFIG_HOME").filter (·.startsWith "/")
  let home := (← IO.getEnv "HOME").filter (!·.isEmpty)
  let base := configured <|> home.map (· ++ "/.config")
  return base.map fun folder => s!"{folder}/{name}/config.toml"

end EntityQuery.CommandLine

open EntityQuery.CommandLine in
/-- Runs the command line on the files and the environment of the process. -/
def main (arguments : List String) : IO UInt32 := do
  let name := (← IO.appPath).fileStem.getD "query"
  let environment : Environment :=
    ⟨← IO.getEnv (name.toUpper ++ "_CONFIG"), ← userSettings name⟩
  let outcome ← run ⟨name, "0.4.0"⟩ environment arguments
  IO.print outcome.stdout
  IO.eprint outcome.stderr
  return outcome.exitCode
