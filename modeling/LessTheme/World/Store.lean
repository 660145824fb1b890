import LessTheme.File.Tree
import LessTheme.Override.Document
import LessTheme.World.Fault

/-!
# The store of overrides

The overrides of all units are kept in memory or in a file.  A file is read
for every request and written whole for every change, and a file that is
missing holds no overrides.  A file that cannot be understood is never
written.
-/

namespace LessTheme

/-- Where overrides are kept. -/
inductive Store
  /-- In memory. -/
  | memory (table : OverrideTable)
  /-- In the file under a path. -/
  | file (path : Text)
  deriving DecidableEq

/-- What requests read and change: the files and the stored overrides. -/
structure World where
  /-- The files. -/
  files : FileTree
  /-- Where overrides are kept. -/
  store : Store
  deriving DecidableEq

namespace World

/-- The overrides that a file of a tree holds. -/
def tableIn (files : FileTree) (path : Text) : Except WorldFault OverrideTable := do
  if files.isFile path then
    let text ← (files.readText path).mapError .file
    match OverrideTable.read? text with
    | some table => return table
    | none => .error (.store (path ++ ": not an object of objects of strings"))
  else return .empty

/-- The overrides of all units. -/
def table (world : World) : Except WorldFault OverrideTable :=
  match world.store with
  | .memory table => .ok table
  | .file path => tableIn world.files path

/-- The overrides of a unit. -/
def overridesOf (world : World) (unit : Text) : Except WorldFault Overrides := do
  return ((← world.table).get? unit).getD .empty

/-! ## Changes -/

/-- A change of the world may fail, and a part of it may have been done then. -/
abbrev Change := ExceptT WorldFault (StateM World) Unit

/-- Changes the files; what was changed before a fault stays. -/
def changeFiles (change : FileTree.Change) : Change := do
  let world ← get
  let (result, files) := change.run.run world.files
  set { world with files := files }
  return (← result.mapError WorldFault.file)

/-- Keeps the overrides of all units. -/
def keep (table : OverrideTable) : Change := do
  match (← get).store with
  | .memory _ => modify fun world => { world with store := .memory table }
  | .file path =>
      changeFiles do
        FileTree.makeParent path
        FileTree.write path (Utf8.encode table.print)

/-- Sets the overrides of a unit. -/
def setOverrides (unit : Text) (overrides : Overrides) : Change := do
  let table ← (← get).table
  keep (table.insert unit overrides)

/-- Removes the overrides of a unit; the store is not written if there are none. -/
def removeOverrides (unit : Text) : Change := do
  let table ← (← get).table
  if table.contains unit then keep (table.erase unit)

end World
end LessTheme
