import LessTheme.Collection.SortedMap
import LessTheme.File.Fault
import LessTheme.File.Path

/-!
# File trees

A file tree is a value: the contents of all files by place.  A folder exists
if it was made or if a file lies below it.  In memory a file may be put
anywhere; on a disk it needs the folder that it lies in, and the way to it is
followed part by part.  A change of the files that fails half-way keeps what
has been done.
-/

namespace LessTheme

/-- What a file tree is kept in. -/
inductive Medium
  | memory
  | disk
  deriving DecidableEq, Repr

/-- Files and folders by place. -/
structure FileTree where
  /-- What the tree is kept in. -/
  medium : Medium
  /-- The contents of the files. -/
  files : SortedMap Bytes
  /-- The folders that were made. -/
  folders : SortedMap Unit
  /-- The places of files that may not be read. -/
  locked : SortedMap Unit
  deriving DecidableEq

namespace FileTree

/-- The tree without files. -/
def empty (medium : Medium) : FileTree := ⟨medium, .empty, .empty, .empty⟩

/-! ## Folders -/

/-- All places where something is. -/
def places (tree : FileTree) : List Text := tree.files.keys ++ tree.folders.keys

/-- Whether a folder is at a place.  A folder without name always exists. -/
def holdsFolder (tree : FileTree) (place : Text) : Bool :=
  Path.isUnnamed place || tree.folders.contains place ||
    tree.places.any fun other => (Path.below? place other).isSome

/-- The greatest number of bytes in the name of an entry of a disk. -/
def longestName : Nat := 255

/-- The greatest number of bytes in a path on a disk. -/
def longestPath : Nat := 4095

/-- Refuses a path that cannot lead anywhere on a disk. -/
def checkPath (path : Text) : Except SystemFault Unit :=
  if path.contains '\x00' then .error .zeroByte
  else if path.isEmpty then .error .noEntry
  else if longestPath < path.byteLength then .error .nameTooLong
  else .ok ()

/-- Refuses a place where no folder is. -/
def checkFolder (tree : FileTree) (place : Text) : Except SystemFault Unit :=
  if tree.files.contains place then .error .notFolder
  else if tree.holdsFolder place then .ok ()
  else .error .noEntry

/-- Follows parts from a place; everything on the way must be a folder. -/
def follow (tree : FileTree) : Text → List Text → Except SystemFault Text
  | here, [] => .ok here
  | here, part :: rest => do
      tree.checkFolder here
      if longestName < part.byteLength then .error .nameTooLong
      else tree.follow (Path.enter here part) rest

/-- The place on a disk that a path leads to. -/
def locate (tree : FileTree) (path : Text) : Except SystemFault Text := do
  checkPath path
  let place ← tree.follow (Path.origin path) (Path.parts path)
  if Path.namesFolder path && tree.files.contains place then .error .notFolder else .ok place

/-- The place that a path names, if there is a way to it. -/
def resolve? (tree : FileTree) (path : Text) : Option Text :=
  match tree.medium with
  | .memory => some (Path.place path)
  | .disk => (tree.locate path).toOption

/-- Whether a path names a file. -/
def isFile (tree : FileTree) (path : Text) : Bool := (tree.resolve? path).any tree.files.contains

/-- Whether a path names a folder. -/
def isFolder (tree : FileTree) (path : Text) : Bool := (tree.resolve? path).any tree.holdsFolder

/-- The names of the entries of a folder. -/
def entries (tree : FileTree) (path : Text) : List Text :=
  (tree.resolve? path).toList.flatMap fun folder =>
    tree.places.filterMap (Path.entryToward? folder)

/-! ## Reading -/

/-- The contents of a file on a disk. -/
def readDisk (tree : FileTree) (path : Text) : Except SystemFault Bytes := do
  let place ← tree.locate path
  match tree.files.get? place with
  | some bytes => if tree.locked.contains place then .error .denied else .ok bytes
  | none => .error (if tree.holdsFolder place then .isFolder else .noEntry)

/-- The contents of a file in memory. -/
def readMemory (tree : FileTree) (path : Text) : Except FileFault Bytes :=
  if tree.locked.contains (Path.place path) then .error (.denied path)
  else
    match tree.files.get? (Path.place path) with
    | some bytes => .ok bytes
    | none => .error (.absent path)

/-- The contents of a file. -/
def read (tree : FileTree) (path : Text) : Except FileFault Bytes :=
  match tree.medium with
  | .memory => tree.readMemory path
  | .disk => (tree.readDisk path).mapError .system

/-- The text in a file. -/
def readText (tree : FileTree) (path : Text) : Except FileFault Text := do
  (Utf8.decode (← tree.read path)).mapError (.notText path)

/-! ## Writing -/

/-- Puts contents at a place. -/
def put (tree : FileTree) (place : Text) (bytes : Bytes) : FileTree :=
  { tree with files := tree.files.insert place bytes }

/-- Takes the file at a place away. -/
def remove (tree : FileTree) (place : Text) : FileTree :=
  { tree with files := tree.files.erase place }

/-- A change of the files may fail, and a part of it may have been done then. -/
abbrev Change := ExceptT FileFault (StateM FileTree) Unit

/-- Changes a disk at once or not at all. -/
def changeDisk (change : FileTree → Except SystemFault FileTree) : Change := do
  match change (← get) with
  | .ok tree => set tree
  | .error fault => throw (.system fault)

/-- Writes a file on a disk.  A slash at the end asks for a folder, which cannot be written. -/
def writeDisk (tree : FileTree) (path : Text) (bytes : Bytes) : Except SystemFault FileTree := do
  checkPath path
  let parts := Path.parts path
  let wayParts := if Path.endsInName path then parts.dropLast else parts
  let folder ← tree.follow (Path.origin path) wayParts
  tree.checkFolder folder
  if !Path.endsInName path || Path.endsInSlash path then .error .isFolder
  else
    let place ← tree.follow folder (parts.drop wayParts.length)
    if tree.holdsFolder place then .error .isFolder else .ok (tree.put place bytes)

/-- Writes a file. -/
def write (path : Text) (bytes : Bytes) : Change := do
  match (← get).medium with
  | .memory => modify fun tree => tree.put (Path.place path) bytes
  | .disk => changeDisk fun tree => tree.writeDisk path bytes

/-- Makes one folder on a disk, if it is not there. -/
def makeFolder (tree : FileTree) (origin : Text) (parts : List Text) :
    Except SystemFault FileTree := do
  let place ← tree.follow origin parts
  if tree.holdsFolder place then .ok tree
  else if tree.files.contains place then .error .exists
  else .ok { tree with folders := tree.folders.insert place () }

/--
Makes a folder on a disk and the folders above it that are missing.  The parts
are given from the last to the first.
-/
def makeFolders (origin : Text) : List Text → Change
  | [] => return
  | part :: above => do
      let make := changeDisk fun tree => tree.makeFolder origin (part :: above).reverse
      tryCatch make fun
        | .system .noEntry => do
            makeFolders origin above
            make
        | fault => throw fault

/-- Makes the folder that a path lies in; in memory no file needs one. -/
def makeParent (path : Text) : Change := do
  let folder := Path.folderOf path
  let tree ← get
  if tree.medium = .memory || folder.isEmpty || tree.isFolder folder then return
  changeDisk fun tree => (checkPath folder).map fun _ => tree
  makeFolders (Path.origin folder) (Path.parts folder).reverse

/-! ## Changes -/

/-- The files that an earlier tree does not hold or holds with other contents. -/
def changedFiles (tree earlier : FileTree) : List (Text × Bytes) :=
  tree.files.entries.filter fun entry => earlier.files.get? entry.1 != some entry.2

/-- The folders that were made since an earlier tree. -/
def newFolders (tree earlier : FileTree) : List Text :=
  tree.folders.keys.filter fun folder => !earlier.holdsFolder folder

end FileTree
end LessTheme
