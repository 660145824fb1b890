import LessTheme.Proofs.File.Writing
import LessTheme.Proofs.World.FileStore

/-!
# Replaced overrides

When the overrides of a unit have been replaced, the store holds a table with
the new ones, and it can replace them again.  A file is read back from where it
was written, whatever folders were made for it.
-/

namespace LessTheme

namespace FileTree

/-- A file on a disk that is written in a folder, to which a path leads, and may be read. -/
def takenSlot (folder name there : Text) : Slot (Path.child folder name) where
  Holds tree contents :=
    tree.medium = .disk ∧ tree.TakesFile folder name there ∧
      tree.locked.contains (Path.child there name) = false ∧
      tree.files.get? (Path.child there name) = contents
  isFile := by
    rintro tree contents ⟨onDisk, takes, -, rfl⟩
    exact isFile_eq_contains ((resolve?_eq_some_iff_of_disk onDisk).2 takes.locate)
  reads := by
    rintro tree bytes ⟨onDisk, takes, unlocked, isThere⟩
    unfold read readDisk
    rw [onDisk, takes.locate]
    change Except.mapError _ (match tree.files.get? (Path.child there name) with
      | some bytes => _
      | none => _) = _
    rw [isThere]
    dsimp only
    rw [unlocked]
    rfl
  writes := by
    rintro tree contents ⟨onDisk, takes, unlocked, -⟩ bytes
    refine ⟨tree.put (Path.child there name) bytes, ?_, onDisk, takes.put bytes, unlocked, ?_⟩
    · unfold replaceFile
      rw [run_bind_of_ok (takes.hasFolderOf onDisk).run_makeParent, run_write_disk onDisk,
        writeDisk_eq_ok_iff.2 ⟨folder, name, there, rfl, takes, rfl⟩]
    · rw [get?_files_put, if_pos rfl]

/-- A file that has been written holds what was written from now on. -/
theorem exists_slot_of_run_replaceFile
    {tree later : FileTree}
    {path : Text}
    {bytes : Bytes}
    (unlocked : tree.locked.contains (tree.placeOf path) = false)
    (writes : (replaceFile path bytes).run.run tree = (.ok (), later)) :
    ∃ slot : Slot path, slot.Holds later (some bytes) := by
  have sameFiles := sameFiles_makeParent tree path
  unfold replaceFile at writes
  rw [run_bind] at writes
  split at writes
  case h_2 => injection writes with fails _; contradiction
  case h_1 made ran =>
    rw [ran] at sameFiles
    have samePlace : made.placeOf path = tree.placeOf path := by
      rw [placeOf, placeOf, sameFiles.medium]
    rw [← samePlace, ← sameFiles.locked] at unlocked
    cases medium : made.medium with
    | memory =>
        rw [run_write_memory medium] at writes
        obtain ⟨-, rfl⟩ := Prod.mk.inj writes
        rw [placeOf, medium] at unlocked
        refine ⟨@memorySlot (made.put (Path.place path) bytes) path medium unlocked, .inl rfl, ?_⟩
        rw [get?_files_put, if_pos rfl]
    | disk =>
        rw [run_write_disk medium] at writes
        split at writes
        case h_2 => injection writes with fails _; contradiction
        case h_1 written isWritten =>
          obtain ⟨-, rfl⟩ := Prod.mk.inj writes
          obtain ⟨folder, name, there, rfl, takes, rfl⟩ := writeDisk_eq_ok_iff.1 isWritten
          rw [takes.placeOf medium] at unlocked
          refine ⟨takenSlot folder name there, medium, takes.put bytes, unlocked, ?_⟩
          rw [get?_files_put, if_pos rfl]

end FileTree

namespace World

variable {world later : World} {table : OverrideTable} {unit : Text} {overrides : Overrides}

/-- The file that keeps the overrides, if they are kept in one, may be read. -/
def IsReadable (world : World) : Prop :=
  ∀ path, world.store = .file path →
    world.files.locked.contains (world.files.placeOf path) = false

/-- A store that has been written holds what was written from now on. -/
theorem exists_holds_of_run_keep
    (readable : world.IsReadable)
    (runs : (keep table).run.run world = (.ok (), later)) :
    ∃ refinement : TableRefinement, refinement.Holds later table := by
  obtain ⟨files, store⟩ := world
  cases store with
  | memory earlier =>
      obtain ⟨-, rfl⟩ := Prod.mk.inj runs
      exact ⟨memoryRefinement files, rfl⟩
  | file path =>
      rw [run_keep_file] at runs
      obtain ⟨succeeds, rfl⟩ := Prod.mk.inj runs
      rw [Outcome.mapError_eq_ok_iff] at succeeds
      obtain ⟨slot, holds⟩ := FileTree.exists_slot_of_run_replaceFile (readable path rfl)
        (Prod.ext succeeds rfl)
      exact ⟨fileRefinement slot, ⟨rfl, _, holds⟩, tableIn_of_holds slot holds⟩

/--
When the overrides of a unit have been replaced, the store has been read and
holds the new ones, and they can be replaced again.
-/
theorem of_run_replaceOverrides
    (readable : world.IsReadable)
    (runs : (replaceOverrides unit overrides).run.run world = (.ok (), later)) :
    ∃ table, world.table = .ok table ∧ later.table = .ok (table.replace unit overrides) ∧
      ∃ again, (replaceOverrides unit overrides).run.run later = (.ok (), again) := by
  cases isTable : world.table with
  | error fault =>
      rw [replaceOverrides_of_table_eq_error isTable] at runs
      injection runs with fails _
      contradiction
  | ok table =>
      refine ⟨table, rfl, ?_⟩
      have written := runs
      rw [run_replaceOverrides isTable] at written
      split at written
      case isTrue isNothing =>
        obtain ⟨-, rfl⟩ := Prod.mk.inj written
        rw [OverrideTable.replace_eq_self isNothing]
        exact ⟨isTable, world, runs⟩
      case isFalse =>
        obtain ⟨refinement, holds⟩ := exists_holds_of_run_keep readable written
        obtain ⟨again, replaces, -⟩ := refinement.replaces holds unit overrides
        exact ⟨refinement.answers holds, again, replaces⟩

/-! ## Changes that fail -/

/-- If the overrides of a unit cannot be replaced, the store holds what it held. -/
def FailsUnchanged
    (world : World)
    (unit : Text) : Prop :=
  ∀ overrides fault later, (replaceOverrides unit overrides).run.run world = (.error fault, later) →
    later.table = world.table

/-- The folder of the file that keeps the overrides, if they are kept in one, is there. -/
def HasFolder (world : World) : Prop :=
  ∀ path, world.store = .file path → world.files.HasFolderOf path

theorem eq_of_run_replaceFile_eq_error
    {tree later : FileTree}
    {path : Text}
    {bytes : Bytes}
    {fault : FileFault}
    (hasFolder : tree.HasFolderOf path)
    (fails : (FileTree.replaceFile path bytes).run.run tree = (.error fault, later)) :
    later = tree := by
  unfold FileTree.replaceFile at fails
  rw [FileTree.run_bind_of_ok hasFolder.run_makeParent] at fails
  cases medium : tree.medium with
  | memory =>
      rw [FileTree.run_write_memory medium] at fails
      injection fails with fails _
      contradiction
  | disk =>
      rw [FileTree.run_write_disk medium] at fails
      split at fails
      case h_1 => injection fails with fails _; contradiction
      case h_2 => exact (Prod.mk.inj fails).2.symm

/-- Where no folder has to be made, a change that fails has changed nothing. -/
theorem HasFolder.failsUnchanged
    (hasFolder : world.HasFolder)
    (unit : Text) :
    world.FailsUnchanged unit := by
  intro overrides fault later fails
  suffices same : later = world by rw [same]
  cases isTable : world.table with
  | error other =>
      rw [replaceOverrides_of_table_eq_error isTable] at fails
      exact (Prod.mk.inj fails).2.symm
  | ok table =>
      rw [run_replaceOverrides isTable] at fails
      split at fails
      case isTrue => injection fails with fails _; contradiction
      case isFalse =>
        obtain ⟨files, store⟩ := world
        cases store with
        | memory earlier => injection fails with fails _; contradiction
        | file path =>
            rw [run_keep_file] at fails
            cases ran : (FileTree.replaceFile path
                (Utf8.encode (table.replace unit overrides).print)).run.run files with
            | mk outcome changed =>
                rw [ran] at fails
                cases outcome with
                | ok => injection fails with fails _; contradiction
                | error cause =>
                    obtain ⟨-, rfl⟩ := Prod.mk.inj fails
                    have same : changed = files :=
                      eq_of_run_replaceFile_eq_error (hasFolder path rfl) ran
                    rw [same]

end World
end LessTheme
