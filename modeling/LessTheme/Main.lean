import LessTheme.Command.Extent
import LessTheme.Command.Line

/-!
# The program

The command line as a program.  What a command may use is read from the disk,
the command runs on that snapshot, and what it changed is written back.  No
other program is started, so compiling prints the fallback properties.
-/

namespace LessTheme
namespace Disk

/-- Adds a place to a snapshot, if something is there. -/
def addPlace (tree : FileTree) (place : Text) : IO FileTree := do
  let path := (← IO.currentDir) / String.ofList place
  if ← path.isDir then return { tree with folders := tree.folders.insert place () }
  if !(← path.pathExists) then return tree
  match ← (IO.FS.readBinFile path).toBaseIO with
  | .ok bytes => return tree.put place bytes.toList
  | .error _ => return { tree.put place [] with locked := tree.locked.insert place () }

/-- Adds all places on the way along a path to a snapshot. -/
def addPath (tree : FileTree) (path : Text) : IO FileTree := (Path.way path).foldlM addPlace tree

/-- Adds a folder and its entries to a snapshot. -/
def addFolder (tree : FileTree) (path : Text) : IO FileTree := do
  let tree ← addPath tree path
  match ← (((← IO.currentDir) / String.ofList path).readDir).toBaseIO with
  | .ok entries =>
      entries.foldlM (fun tree entry => addPath tree (Path.join path entry.fileName)) tree
  | .error _ => return tree

/-- The snapshot of all places that a command may use. -/
def snapshot (invocation : Invocation) : IO FileTree := do
  let tree ← invocation.namedPaths.foldlM addPath (.empty .disk)
  match invocation.engine? tree with
  | none => return tree
  | some engine => addFolder (← engine.paths.foldlM addPath tree) engine.theme.unitFolder

/-- Writes what has changed since a snapshot. -/
def write (earlier tree : FileTree) : IO Unit := do
  let base ← IO.currentDir
  for folder in tree.newFolders earlier do
    IO.FS.createDirAll (base / String.ofList folder)
  for entry in tree.changedFiles earlier do
    IO.FS.writeBinFile (base / String.ofList entry.1) ⟨entry.2.toArray⟩

/-- Runs some arguments on the disk; the result is the exit code. -/
def run (arguments : List Text) : IO UInt32 := do
  let tree ← match Arguments.read arguments with
    | .ok invocation => snapshot invocation
    | .error _ => pure (.empty .disk)
  let outcome := (Command.runLine {} tree arguments).withoutPrograms tree
  write tree outcome.files
  IO.print (String.ofList outcome.output)
  IO.eprint (String.ofList outcome.report)
  return outcome.exit.toUInt32

end Disk
end LessTheme

/-- Runs the command line and returns the exit code. -/
def main (arguments : List String) : IO UInt32 :=
  LessTheme.Disk.run (arguments.map String.toList)
