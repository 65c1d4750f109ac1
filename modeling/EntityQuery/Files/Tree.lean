import EntityQuery.Files.Basic

/-! # A tree of files in memory

A tree of files has folders, with files and further folders in them. One of its folders is the
working folder, from which paths start unless they start with a slash and so at the root. A path is
walked step by step: an empty step or a single dot stays, two dots go back, and a name goes further;
only from a folder is there a way on. The folder above the root is the root. -/

namespace EntityQuery

/-- What is at a place. -/
inductive FileTreeEntry where
  | file (bytes : ByteArray)
  | folder

/-- A tree of files. A place in it is given by the names that lead to it from the root. -/
structure FileTree where
  /-- The place of the working folder. -/
  here : List String
  /-- What is at the places below the root. -/
  entries : List (List String × FileTreeEntry)

namespace FileTree

/-- A tree with nothing but the working folder and those that lead to it. -/
def bare (here : List String) : FileTree :=
  ⟨here, (List.range here.length).map fun n => (here.take (n + 1), .folder)⟩

/-- What is at a place. -/
def at? (t : FileTree) (place : List String) : Option FileTreeEntry :=
  if place.isEmpty then some .folder else t.entries.lookup place

/-- Puts an entry at a place. -/
def put (t : FileTree) (place : List String) (entry : FileTreeEntry) : FileTree :=
  { t with entries := (place, entry) :: t.entries.filter fun (p, _) => p ≠ place }

/-- The place at which a path starts. -/
def start (t : FileTree) (path : String) : Except FileError (List String) :=
  if path.toList.contains '\x00' then .error .notAPath
  else if path.utf8ByteSize < Path.sizeLimit then
    .ok (if Path.isAbsolute path then [] else t.here)
  else .error .nameTooLong

/-- The place to which steps lead. There may be nothing at it, but there are folders up to it. -/
def walk (t : FileTree) (place : List String) : List String → Except FileError (List String)
  | [] => .ok place
  | step :: steps =>
    match t.at? place with
    | none => .error .notFound
    | some (.file _) => .error .notAFolder
    | some .folder =>
      if Path.stays step then t.walk place steps
      else if step = ".." then t.walk place.dropLast steps
      else if step.utf8ByteSize < Path.nameLimit then t.walk (place ++ [step]) steps
      else .error .nameTooLong

/-- The place to which a path leads. -/
def find (t : FileTree) (path : String) : Except FileError (List String) := do
  if path.isEmpty then .error .notFound
  else t.walk (← t.start path) (Path.steps path)

/-- The text of a file. -/
def read (t : FileTree) (path : String) : Except FileError String := do
  match t.at? (← t.find path) with
  | none => .error .notFound
  | some .folder => .error .isAFolder
  | some (.file bytes) =>
    match String.fromUTF8? bytes with
    | some text => .ok text
    | none => .error .notText

/-- Writes the bytes of a file. -/
def write (t : FileTree) (path : String) (bytes : ByteArray) : Except FileError FileTree := do
  let place ← t.find path
  match t.at? place with
  | some .folder => .error .isAFolder
  | _ => .ok (t.put place (.file bytes))

/-- Makes the folders to which steps lead. -/
def makeAlong (t : FileTree) (place : List String) : List String → Except FileError FileTree
  | [] => .ok t
  | step :: steps =>
    if Path.stays step then t.makeAlong place steps
    else if step = ".." then t.makeAlong place.dropLast steps
    else if step.utf8ByteSize < Path.nameLimit then
      let next := place ++ [step]
      match t.at? next with
      | some .folder => t.makeAlong next steps
      | some (.file _) => .error (if steps.isEmpty then .alreadyThere else .notAFolder)
      | none => (t.put next .folder).makeAlong next steps
    else .error .nameTooLong

/-- Makes a folder and those that lead to it. -/
def make (t : FileTree) (path : String) : Except FileError FileTree := do
  t.makeAlong (← t.start path) (Path.steps path)

/-- A tree with a further file, for which folders are made. -/
def withFile (t : FileTree) (path : String) (bytes : ByteArray) : Except FileError FileTree := do
  (← t.make (Path.parent path)).write path bytes

/-- The outcome of a change of a tree, which fails without a trace. -/
def outcome (t : FileTree) : Except FileError FileTree → Except FileError Unit × FileTree
  | .ok changed => (.ok (), changed)
  | .error e => (.error e, t)

instance : FileSystem (StateM FileTree) where
  readText path := fun t => (t.read path, t)
  makeFolders path := fun t => t.outcome (t.make path)
  writeText path text := fun t => t.outcome (t.write path text.toUTF8)

end FileTree

end EntityQuery
