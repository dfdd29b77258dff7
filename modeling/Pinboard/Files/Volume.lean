import Pinboard.Files.Path

/-!
# A volume of files

A tree of directories, in which names stand for files. The contents of a file belong to the file and
not to its name: a file that is open can be renamed or removed and still be written to. Actions keep
what they have done when they fail halfway.
-/

namespace Pinboard.Files

/-- Why an action on files fails. -/
inductive FileError where
  /-- There is no such file. -/
  | notFound
  /-- There is one already. -/
  | alreadyExists
  /-- A directory stands where a file is needed. -/
  | isADirectory
  /-- A file stands where a directory is needed. -/
  | notADirectory
  /-- A directory that has to be empty is not. -/
  | directoryNotEmpty
  /-- A directory cannot move into itself. -/
  | invalidInput
  /-- The path holds the character zero. -/
  | zeroInPath
  /-- A name, or the whole path, is too long. -/
  | nameTooLong
  deriving DecidableEq, Repr

/-- The name of the kind of error. -/
def FileError.kind : FileError → String
  | notFound => "NotFound"
  | alreadyExists => "AlreadyExists"
  | isADirectory => "IsADirectory"
  | notADirectory => "NotADirectory"
  | directoryNotEmpty => "DirectoryNotEmpty"
  | invalidInput => "InvalidInput"
  | zeroInPath => "InvalidInput"
  | nameTooLong => "InvalidFilename"

/-- The wording of an error, with its number. -/
def FileError.message : FileError → String
  | notFound => "No such file or directory (os error 2)"
  | alreadyExists => "File exists (os error 17)"
  | isADirectory => "Is a directory (os error 21)"
  | notADirectory => "Not a directory (os error 20)"
  | directoryNotEmpty => "Directory not empty (os error 39)"
  | invalidInput => "Invalid argument (os error 22)"
  | zeroInPath => "file name contained an unexpected NUL byte"
  | nameTooLong => "File name too long (os error 36)"

/-- A place in the tree: the names on the way from the root. -/
abbrev Place := List String

/-- The number of a file, which it keeps whatever its name is. -/
abbrev FileId := Nat

/-- What a name stands for. -/
inductive Node where
  /-- A directory. -/
  | directory
  /-- A file. -/
  | file (id : FileId)
  deriving DecidableEq, Repr

/-- A tree of directories and files. -/
structure Volume where
  /-- What stands at each place; the root is not listed. -/
  nodes : List (Place × Node) := []
  /-- The contents of the files, by number. -/
  contents : Array ByteArray := #[]

/-- The working directory, where relative paths begin. -/
def home : Place := ["tmp", "workingdir"]

/-- A volume with nothing but an empty working directory. -/
def Volume.empty : Volume := { nodes := [(home.dropLast, .directory), (home, .directory)] }

namespace Volume

/-- What stands at a place. -/
def node? (v : Volume) : Place → Option Node
  | [] => some .directory
  | place => v.nodes.lookup place

/-- The contents of a file. -/
def content (v : Volume) (id : FileId) : ByteArray := v.contents.getD id ByteArray.empty

/-- The volume with a node at a place that was free. -/
def insert (v : Volume) (place : Place) (n : Node) : Volume :=
  { v with nodes := v.nodes ++ [(place, n)] }

/-- The volume without the node at a place. -/
def erase (v : Volume) (place : Place) : Volume :=
  { v with nodes := v.nodes.filter (·.1 ≠ place) }

/-- Is there anything below a place? -/
def hasChildren (v : Volume) (place : Place) : Bool :=
  v.nodes.any fun n => place.isPrefixOf n.1 && n.1 != place

/-- The volume with a node, and all that is below it, moved to another place. -/
def moveNode (v : Volume) (source target : Place) : Volume :=
  { v with nodes := v.nodes.map fun n =>
      if source.isPrefixOf n.1 then (target ++ n.1.drop source.length, n.2) else n }

/-- The volume with other contents in a file. -/
def setContent (v : Volume) (id : FileId) (bytes : ByteArray) : Volume :=
  { v with contents := v.contents.setIfInBounds id bytes }

/-- The longest name, in bytes. -/
def longestName : Nat := 255

/-- The longest path, in bytes. -/
def longestPath : Nat := 4095

/-- Walks from a directory along names that have to be directories. -/
def walk (v : Volume) (place : Place) : List String → Except FileError Place
  | [] => .ok place
  | name :: names =>
    if name.utf8ByteSize > longestName then .error .nameTooLong
    else
      let next := if name = "." then place else if name = ".." then place.dropLast
        else place ++ [name]
      match v.node? next with
      | none => .error .notFound
      | some (.file _) => .error .notADirectory
      | some .directory => walk v next names

/-- A place that a path leads to, and whether it can only be a directory. -/
structure Target where
  /-- The place; its parent is a directory. -/
  place : Place
  /-- The path ends in a slash or in dots. -/
  directory : Bool
  deriving DecidableEq, Repr

/-- The length of the last name on the way to a place, in bytes. -/
def Target.nameLength (t : Target) : Nat := (t.place.getLast?.getD "").utf8ByteSize

/-- Follows a path up to its last name, which need not be there and can be of any length. -/
def approach (v : Volume) (path : String) : Except FileError Target :=
  let p := Path.ofText path
  let start : Place := if p.absolute then [] else home
  if path.toList.contains '\x00' then .error .zeroInPath
  else if path = "" then .error .notFound
  else if path.utf8ByteSize > longestPath then .error .nameTooLong
  else match p.names.getLast? with
    | none => .ok ⟨start, true⟩
    | some last =>
      match walk v start p.names.dropLast with
      | .error e => .error e
      | .ok dir =>
        if last = "." then .ok ⟨dir, true⟩
        else if last = ".." then .ok ⟨dir.dropLast, true⟩
        else .ok ⟨dir ++ [last], p.trailing⟩

/-- Follows a path up to its last name, which need not be there. -/
def locate (v : Volume) (path : String) : Except FileError Target :=
  match v.approach path with
  | .error e => .error e
  | .ok t => if t.nameLength > longestName then .error .nameTooLong else .ok t

/-- What a path leads to, if there is anything. -/
def find? (v : Volume) (path : String) : Option Node :=
  match v.locate path with
  | .error _ => none
  | .ok target =>
    match v.node? target.place with
    | some (.file id) => if target.directory then none else some (.file id)
    | other => other

/-- Does the path lead to a directory? -/
def isDirectory (v : Volume) (path : String) : Bool := v.find? path == some .directory

/-- Does the path lead to a file? -/
def isFile (v : Volume) (path : String) : Bool :=
  match v.find? path with
  | some (.file _) => true
  | _ => false

/-- Does the path lead to anything? -/
def exists? (v : Volume) (path : String) : Bool := (v.find? path).isSome

/-- What is below the working directory, by relative path: the number of a file, or none for a
directory. -/
def listing (v : Volume) : List (String × Node) :=
  v.nodes.filterMap fun n =>
    if home.isPrefixOf n.1 && n.1 != home then
      some ("/".intercalate (n.1.drop home.length), n.2)
    else none

end Volume

/-! ## Actions -/

/-- An action on a volume. What it did before it failed stays done. -/
abbrev FileAction := ExceptT FileError (StateM Volume)

namespace FileAction

/-- The place a path leads to, and what stands there. -/
def target (path : String) : FileAction (Volume.Target × Option Node) := do
  let v ← get
  match v.locate path with
  | .error e => throw e
  | .ok t => pure (t, v.node? t.place)

/-- Follows the way to the last name of a path. -/
def approach (path : String) : FileAction Unit := do
  match (← get).approach path with
  | .error e => throw e
  | .ok _ => pure ()

/-- Reads a file. -/
def readAll (path : String) : FileAction ByteArray := do
  match ← target path with
  | (_, none) => throw .notFound
  | (_, some .directory) => throw .isADirectory
  | (t, some (.file id)) =>
    if t.directory then throw .notADirectory
    pure ((← get).content id)

/-- The number of the file at a path, which is made if it is not there. -/
def openOrCreate (path : String) : FileAction FileId := do
  match ← target path with
  | (_, some .directory) => throw .isADirectory
  | (t, some (.file id)) =>
    if t.directory then throw .notADirectory
    pure id
  | (t, none) =>
    if t.directory then throw .isADirectory
    let v ← get
    let id := v.contents.size
    set { v.insert t.place (.file id) with contents := v.contents.push ByteArray.empty }
    pure id

/-- Removes a file. -/
def removeFile (path : String) : FileAction Unit := do
  match ← target path with
  | (_, none) => throw .notFound
  | (_, some .directory) => throw .isADirectory
  | (t, some (.file _)) =>
    if t.directory then throw .notADirectory
    modify (·.erase t.place)

/-- Makes a directory. -/
def makeDirectory (path : String) : FileAction Unit := do
  match ← target path with
  | (_, some _) => throw .alreadyExists
  | (t, none) => modify (·.insert t.place .directory)

/-- Renames a file or a directory. A file or an empty directory that has the new name makes way.
The ways to both names are followed before anything is looked for at their ends, and the old name is
looked for first. -/
def rename (source goal : String) : FileAction Unit := do
  approach source
  approach goal
  let (s, there) ← target source
  if there.isNone then throw .notFound
  let (t, taken) ← target goal
  match there, taken with
  | none, _ => throw .notFound
  | some (.file _), some .directory => throw .isADirectory
  | some .directory, some (.file _) => throw .notADirectory
  | some .directory, some .directory =>
    if s.place = t.place then return ()
    if s.place.isPrefixOf t.place then throw .invalidInput
    if (← get).hasChildren t.place then throw .directoryNotEmpty
    modify fun v => (v.erase t.place).moveNode s.place t.place
  | some (.file _), some (.file _) =>
    if s.directory ∨ t.directory then throw .notADirectory
    if s.place = t.place then return ()
    modify fun v => (v.erase t.place).moveNode s.place t.place
  | some (.file _), none =>
    if s.directory ∨ t.directory then throw .notADirectory
    modify (·.moveNode s.place t.place)
  | some .directory, none =>
    if s.place.isPrefixOf t.place then throw .invalidInput
    modify (·.moveNode s.place t.place)

/-- Makes a directory. Where something on the way to it is missing, that is made first. A failure
counts for nothing if the directory is there all the same. -/
def makeDirectoryAfter (path : String) (before : FileAction Unit) : FileAction Unit := do
  let settle (e : FileError) : FileAction Unit := do
    if !(← get).isDirectory path then throw e
  try makeDirectory path
  catch e =>
    if e = .notFound then
      before
      try makeDirectory path catch e => settle e
    else settle e

/-- Makes a directory, given the names of its path from the last one, and those on the way to it
that are missing. -/
def makeDirectories (absolute : Bool) : List String → FileAction Unit
  | [] => pure ()
  | name :: parents =>
    makeDirectoryAfter (Path.text absolute (name :: parents).reverse)
      (makeDirectories absolute parents)

/-- Makes a directory and those on the way to it. The directory itself is made by its path as it is
given, so that a path which ends in a dot leads to nothing that is not there yet. -/
def makeDirectoryAll (path : String) : FileAction Unit :=
  let p := Path.ofText path
  match p.steps.reverse with
  | [] => pure ()
  | _ :: parents => makeDirectoryAfter path (makeDirectories p.absolute parents)

end FileAction

/-! ## Open files -/

/-- A file opened for writing. -/
structure OpenFile where
  /-- The file. -/
  file : FileId
  /-- Every write goes to the end, wherever that is by then. -/
  appending : Bool
  /-- Otherwise the place of the next write. -/
  offset : Nat
  deriving DecidableEq, Repr

/-- The bytes with others written over them from an offset on. A gap before it is filled with
zeros. -/
def overwrite (old : ByteArray) (offset : Nat) (new : ByteArray) : ByteArray :=
  old.extract 0 offset ++ ⟨Array.replicate (offset - old.size) 0⟩ ++ new ++
    old.extract (offset + new.size) old.size

namespace OpenFile

/-- Opens a file for writing at its end; it is made if it is not there. -/
def append (path : String) : FileAction OpenFile := do
  pure ⟨← FileAction.openOrCreate path, true, 0⟩

/-- Opens a file for writing from its beginning and empties it; it is made if it is not there. -/
def create (path : String) : FileAction OpenFile := do
  let id ← FileAction.openOrCreate path
  modify (·.setContent id ByteArray.empty)
  pure ⟨id, false, 0⟩

/-- Writes bytes, and moves on past them. -/
def write (f : OpenFile) (bytes : ByteArray) : FileAction OpenFile := do
  if bytes.isEmpty then return f
  let v ← get
  let old := v.content f.file
  if f.appending then
    set (v.setContent f.file (old ++ bytes))
    pure f
  else
    set (v.setContent f.file (overwrite old f.offset bytes))
    pure { f with offset := f.offset + bytes.size }

/-- Makes a file hold the given bytes and no others. -/
def replace (path : String) (bytes : ByteArray) : FileAction Unit := do
  let f ← create path
  let _ ← f.write bytes

/-- The length of the file. -/
def size (f : OpenFile) : FileAction Nat := do
  pure ((← get).content f.file).size

end OpenFile

end Pinboard.Files
