import EntityQuery.Settings.Text

/-! # Settings in files

Settings are loaded from a file and kept in one. A file that is not there stands for the default
settings. -/

namespace EntityQuery.Settings

variable {m : Type → Type} [Monad m] [FileSystem m]

/-- The settings in the file at a path, if a path is given. -/
def load : Option String → m (Except SettingsError Settings)
  | none => return .ok {}
  | some path => do
    match ← FileSystem.readText path with
    | .error e => return if e.isAbsence then .ok {} else .error (.read path e)
    | .ok text => return ofFile path text

/-- Writes the settings to the file at a path, for which folders are made. -/
def persist (s : Settings) (path : String) : m (Except SettingsError Unit) := do
  let folder := Path.parent path
  match ← FileSystem.makeFolders folder with
  | .error e => return .error (.makeFolder folder e)
  | .ok () =>
    match s.toText with
    | .error e => return .error e
    | .ok text => return (← FileSystem.writeText path text).mapError (.write path)

end EntityQuery.Settings
