import EntityQuery.Text.Split

/-! # Files

Texts are read from files and written to files. A path names a file by the folders that lead to it,
with slashes between them. Where the files are is left open: any monad can provide them. -/

namespace EntityQuery

namespace Path

/-- The steps of a path. -/
def steps (path : String) : List String :=
  (Text.splitWhere (· = '/') path.toList).map String.ofList

/-- Whether a step of a path stays where it is. -/
def stays (step : String) : Bool := step = "" || step = "."

/-- Whether a path starts at the root. -/
def isAbsolute (path : String) : Bool := path.toList.head? = some '/'

/-- A name has fewer bytes than this. -/
def nameLimit : Nat := 256

/-- A path has fewer bytes than this. -/
def sizeLimit : Nat := 4096

/-- The folder in which the last step of a path starts. -/
def parent (path : String) : String :=
  let start := if isAbsolute path then "/" else ""
  start ++ "/".intercalate ((steps path).filter (!stays ·)).dropLast

end Path

/-- Why a file cannot be read or written. -/
inductive FileError where
  /-- There is nothing at the path. -/
  | notFound
  /-- The path leads through a file. -/
  | notAFolder
  /-- There is a folder at the path. -/
  | isAFolder
  /-- There is a file where a folder is to be made. -/
  | alreadyThere
  /-- The path, or a name in it, has too many bytes. -/
  | nameTooLong
  /-- The path holds a character that no path can hold. -/
  | notAPath
  /-- The bytes of the file are no text. -/
  | notText
  /-- Any other reason. -/
  | other (reason : String)
  deriving DecidableEq

/-- The error in words. -/
def FileError.text : FileError → String
  | notFound => "No such file or directory (os error 2)"
  | notAFolder => "Not a directory (os error 20)"
  | isAFolder => "Is a directory (os error 21)"
  | alreadyThere => "File exists (os error 17)"
  | nameTooLong => "File name too long (os error 36)"
  | notAPath => "file name contained an unexpected NUL byte"
  | notText => "stream did not contain valid UTF-8"
  | other reason => reason

/-- Whether the error means that there is nothing to be had at the path. -/
def FileError.isAbsence : FileError → Bool
  | notFound | notAFolder | nameTooLong | notAPath => true
  | isAFolder | alreadyThere | notText | other _ => false

/-- Access to files. -/
class FileSystem (m : Type → Type) where
  /-- The text of a file. -/
  readText (path : String) : m (Except FileError String)
  /-- Makes a folder and those that lead to it, as far as they are not there. -/
  makeFolders (path : String) : m (Except FileError Unit)
  /-- Puts a text in the place of what is in a file. -/
  writeText (path text : String) : m (Except FileError Unit)

end EntityQuery
