import LessTheme.Proofs.File.Tree
import LessTheme.Theme.Source

/-!
# Units that are listed

A unit that can be read and is no shared layer is listed among the units that
can be compiled, wherever the layout places the folder of the units.
-/

namespace LessTheme

theorem ne_slash_of_isNameChar
    {char : Char}
    (isName : isNameChar char = true) :
    char ≠ '/' := by
  rintro rfl
  exact absurd isName (by decide)

theorem isName_unitFile
    {unit : Text}
    (isUnit : isUnitName unit = true) :
    Path.IsName (unit ++ '.' :: unitExtension) := by
  rw [isUnitName, Bool.and_eq_true, List.all_eq_true] at isUnit
  have long : 5 ≤ (unit ++ '.' :: unitExtension).length := by
    rw [List.length_append]
    exact Nat.le_add_left 5 _
  refine ⟨?_, ?_, ?_, ?_⟩
  · rintro same
    rw [same] at long
    contradiction
  · intro member
    obtain inUnit | inExtension := List.mem_append.1 member
    · exact ne_slash_of_isNameChar (isUnit.2 _ inUnit) rfl
    · exact absurd inExtension (by decide)
  · rintro same
    rw [same] at long
    contradiction
  · rintro same
    rw [same] at long
    contradiction

namespace Theme

variable {theme : Theme} {files : FileTree} {unit : Text}

/-- The file of a unit is an entry of the folder of the units. -/
theorem unitPath_eq_child
    (isUnit : isUnitName unit = true) :
    theme.unitPath unit = Path.child theme.unitFolder (unit ++ '.' :: unitExtension) := by
  have relative := (isName_unitFile isUnit).isAbsolute
  rw [unitPath, Layout.unitPath, Path.join_assoc _ _ relative]
  exact Path.join_of_relative _ relative

theorem isUnitName_and_isFile_of_unitText_eq_ok
    {text : Text}
    (isRead : theme.unitText files unit = .ok text) :
    isUnitName unit = true ∧ files.isFile (theme.unitPath unit) = true := by
  unfold unitText at isRead
  dsimp only at isRead
  split at isRead
  case isTrue found => exact Bool.and_eq_true_iff.1 found
  case isFalse => contradiction

/-- The units that are listed are the compilable ones with an entry in their folder. -/
theorem mem_units_iff :
    unit ∈ theme.units files ↔
      theme.isCompilable unit = true ∧
        unit ++ '.' :: unitExtension ∈ files.entries theme.unitFolder := by
  dsimp only [units]
  rw [SortedMap.mem_keys_iff, SortedMap.contains, SortedMap.get?_ofList, isSome_lastValue?_iff,
    List.map_map]
  change unit ∈ List.map id _ ↔ _
  rw [List.map_id, List.mem_filter, List.mem_filterMap, and_comm]
  refine and_congr_right fun compilable => ?_
  have nonempty : unit ≠ [] := by
    rintro rfl
    contradiction
  simp only [Path.stem?_eq_some_iff]
  constructor
  · rintro ⟨name, isEntry, -, rfl⟩
    exact isEntry
  · exact fun isEntry => ⟨_, isEntry, nonempty, rfl⟩

/-- A unit that can be read is listed, unless it is a shared layer. -/
theorem mem_units_of_unitText_eq_ok
    (reachable : files.medium = .memory ∨ theme.unitFolder ≠ [])
    (isOwn : theme.layout.isShared unit = false)
    {text : Text}
    (isRead : theme.unitText files unit = .ok text) :
    unit ∈ theme.units files := by
  obtain ⟨isUnit, isFile⟩ := isUnitName_and_isFile_of_unitText_eq_ok isRead
  rw [unitPath_eq_child isUnit] at isFile
  have compilable : theme.isCompilable unit = true := by
    rw [isCompilable, isUnit, isOwn]
    rfl
  exact mem_units_iff.2
    ⟨compilable, FileTree.mem_entries_of_isFile (isName_unitFile isUnit) reachable isFile⟩

end Theme
end LessTheme
