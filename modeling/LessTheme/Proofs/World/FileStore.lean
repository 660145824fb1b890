import LessTheme.Proofs.Override.Document
import LessTheme.Proofs.World.Refinement

/-!
# Stores in a file

Overrides in a file refine a table as long as the file can be written, holds
what is written to it and is no file of the theme.
-/

namespace LessTheme

namespace FileTree

/-- Writes a file; the folder that it lies in is made. -/
def replaceFile
    (path : Text)
    (bytes : Bytes) : Change := do
  makeParent path
  write path bytes

/-- A relation of file trees to the contents of a file, which every write keeps. -/
structure Slot (path : Text) where
  /-- A tree holds contents of the file, if the file is there. -/
  Holds : FileTree → Option Bytes → Prop
  isFile : ∀ {tree contents}, Holds tree contents → tree.isFile path = contents.isSome
  reads : ∀ {tree bytes}, Holds tree (some bytes) → tree.read path = .ok bytes
  writes : ∀ {tree contents}, Holds tree contents → ∀ bytes, ∃ later,
    (replaceFile path bytes).run.run tree = (.ok (), later) ∧ Holds later (some bytes)

theorem readText_of_read_eq_ok
    {tree : FileTree}
    {path text : Text}
    (reads : tree.read path = .ok (Utf8.encode text)) :
    tree.readText path = .ok text := by
  unfold readText
  rw [reads]
  change Except.mapError _ (Utf8.decode (Utf8.encode text)) = _
  rw [Utf8.decode_encode]
  rfl

end FileTree

namespace World

variable {theme : Theme} {files tree : FileTree} {path : Text} {table : OverrideTable}

theorem run_changeFiles
    (change : FileTree.Change)
    (world : World) :
    (changeFiles change).run.run world =
      ((change.run.run world.files).1.mapError .file,
        { world with files := (change.run.run world.files).2 }) := by
  have asks : (changeFiles change).run.run world =
      (fun answer : Except FileFault Unit × FileTree => (do
        set { world with files := answer.2 }
        return (← answer.1.mapError WorldFault.file) : Change).run.run world)
        (change.run.run world.files) := rfl
  rw [asks]
  cases change.run.run world.files with
  | mk outcome files => cases outcome <;> rfl

theorem run_keep_file
    (table : OverrideTable)
    (files : FileTree)
    (path : Text) :
    (keep table).run.run ⟨files, .file path⟩ =
      (((FileTree.replaceFile path (Utf8.encode table.print)).run.run files).1.mapError .file,
        ⟨((FileTree.replaceFile path (Utf8.encode table.print)).run.run files).2, .file path⟩) :=
  run_changeFiles (FileTree.replaceFile path (Utf8.encode table.print)) ⟨files, .file path⟩

theorem tableIn_of_holds
    (slot : FileTree.Slot path)
    (holds : slot.Holds tree (some (Utf8.encode table.print))) :
    tableIn tree path = .ok table := by
  unfold tableIn
  rw [slot.isFile holds, Option.isSome_some, if_pos rfl,
    FileTree.readText_of_read_eq_ok (slot.reads holds)]
  simp only [Except.mapError, bind, Except.bind]
  rw [OverrideTable.read?_print]
  rfl

/-- The overrides are kept in the file of a slot. -/
def IsKeptIn
    (world : World)
    (slot : FileTree.Slot path) : Prop :=
  world.store = .file path ∧ ∃ contents, slot.Holds world.files contents

theorem IsKeptIn.keep
    {world : World}
    {slot : FileTree.Slot path}
    (isKept : world.IsKeptIn slot)
    (table : OverrideTable) :
    ∃ later, (keep table).run.run world = (.ok (), later) ∧ later.IsKeptIn slot ∧
      later.table = .ok table := by
  obtain ⟨files, store⟩ := world
  obtain ⟨rfl, contents, holds⟩ := isKept
  obtain ⟨later, writes, holdsLater⟩ := slot.writes holds (Utf8.encode table.print)
  refine ⟨⟨later, .file path⟩, ?_, ⟨rfl, _, holdsLater⟩, tableIn_of_holds slot holdsLater⟩
  rw [run_keep_file, writes]
  rfl

/-- Stores in the file of a slot. -/
def fileRefinement (slot : FileTree.Slot path) : TableRefinement where
  Holds world table := world.IsKeptIn slot ∧ world.table = .ok table
  answers holds := holds.2
  sets := by
    rintro world table ⟨isKept, isTable⟩ unit overrides
    rw [run_setOverrides isTable]
    exact isKept.keep (table.insert unit overrides)
  removes := by
    rintro world table ⟨isKept, isTable⟩ unit
    rw [run_removeOverrides isTable]
    split
    case isTrue => exact isKept.keep (table.erase unit)
    case isFalse absent =>
      rw [SortedMap.erase_of_contains_eq_false absent]
      exact ⟨world, rfl, isKept, isTable⟩

/-- A store in a file refines its table, if the file can be written and no theme file is. -/
theorem keeps_file
    (slot : FileTree.Slot path)
    (sees : ∀ tree contents, slot.Holds tree contents → theme.SeesSame tree files)
    {contents : Option Bytes}
    (holds : slot.Holds tree contents)
    (stores : tableIn tree path = .ok table) :
    Keeps ⟨tree, .file path⟩ theme files table := by
  refine ⟨(fileRefinement slot).within ?_, ⟨rfl, contents, holds⟩, stores⟩
  rintro world table ⟨⟨-, contents, holds⟩, -⟩
  exact sees world.files contents holds

end World

/-! ## Files in memory -/

namespace FileTree

theorem put_put
    (tree : FileTree)
    (place : Text)
    (earlier later : Bytes) :
    (tree.put place earlier).put place later = tree.put place later := by
  have same : (tree.files.insert place earlier).insert place later =
      tree.files.insert place later := by
    apply SortedMap.eq_of_get?
    intro other
    rw [SortedMap.get?_insert, SortedMap.get?_insert, SortedMap.get?_insert]
    split <;> rfl
  unfold put
  rw [same]

theorem run_replaceFile_memory
    {tree : FileTree}
    (inMemory : tree.medium = .memory)
    (path : Text)
    (bytes : Bytes) :
    (replaceFile path bytes).run.run tree = (.ok (), tree.put (Path.place path) bytes) := by
  cases tree
  cases inMemory
  rfl

theorem read_memory
    {tree : FileTree}
    (inMemory : tree.medium = .memory)
    {path : Text}
    (unlocked : tree.locked.contains (Path.place path) = false)
    {bytes : Bytes}
    (isThere : tree.files.get? (Path.place path) = some bytes) :
    tree.read path = .ok bytes := by
  unfold read readMemory
  rw [inMemory, unlocked, isThere]
  rfl

theorem isFile_memory
    {tree : FileTree}
    (inMemory : tree.medium = .memory)
    (path : Text) :
    tree.isFile path = (tree.files.get? (Path.place path)).isSome := by
  unfold isFile resolve?
  rw [inMemory]
  rfl

/-- A file in memory that may be read. -/
def memorySlot
    {files : FileTree}
    {path : Text}
    (inMemory : files.medium = .memory)
    (unlocked : files.locked.contains (Path.place path) = false) :
    Slot path where
  Holds tree contents :=
    (tree = files ∨ ∃ bytes, tree = files.put (Path.place path) bytes) ∧
      tree.files.get? (Path.place path) = contents
  isFile := by
    rintro tree contents ⟨rfl | ⟨bytes, rfl⟩, rfl⟩
    · exact isFile_memory inMemory path
    · exact @isFile_memory (files.put (Path.place path) bytes) inMemory path
  reads := by
    rintro tree bytes ⟨rfl | ⟨others, rfl⟩, isThere⟩
    · exact read_memory inMemory unlocked isThere
    · exact @read_memory (files.put (Path.place path) others) inMemory path unlocked _ isThere
  writes := by
    rintro tree contents ⟨rfl | ⟨others, rfl⟩, -⟩ bytes
    · refine ⟨_, run_replaceFile_memory inMemory path bytes, Or.inr ⟨bytes, rfl⟩, ?_⟩
      exact (SortedMap.get?_insert _ _ _ _).trans (if_pos rfl)
    · refine ⟨_, @run_replaceFile_memory (files.put (Path.place path) others) inMemory path
        bytes, Or.inr ⟨bytes, put_put _ _ _ _⟩, ?_⟩
      exact (SortedMap.get?_insert _ _ _ _).trans (if_pos rfl)

end FileTree

/-- A store in a file in memory refines its table, if the file belongs to no layer of the theme. -/
theorem World.keeps_file_memory
    {theme : Theme}
    {files : FileTree}
    {path : Text}
    {table : OverrideTable}
    (inMemory : files.medium = .memory)
    (unlocked : files.locked.contains (Path.place path) = false)
    (apart : ∀ bytes, theme.SeesSame (files.put (Path.place path) bytes) files)
    (stores : tableIn files path = .ok table) :
    Keeps ⟨files, .file path⟩ theme files table := by
  refine keeps_file (FileTree.memorySlot inMemory unlocked) ?_ ⟨Or.inl rfl, rfl⟩ stores
  rintro tree contents ⟨rfl | ⟨bytes, rfl⟩, -⟩
  · exact Theme.SeesSame.refl theme tree
  · exact apart bytes

end LessTheme
