import LessTheme.Program.Defaults
import LessTheme.Proofs.Program.Assembly
import LessTheme.Proofs.Theme.Unit

/-!
# Units that are listed and missing

A unit is listed by the name of an entry of its folder, and it is read only if
that entry is a file.  So a folder whose name ends in the extension of units is
a stray entry: it is listed, and reading it says that the unit is not found.
Whoever reads all units, for the program of another one or for the defaults,
fails at the first stray entry.
-/

namespace LessTheme
namespace Theme

variable {theme : Theme} {files : FileTree} {unit missing path : Text}

/-- The entry of a unit is no file: it is a folder, or a disk refuses the way to it. -/
def IsStray (theme : Theme) (files : FileTree) (unit : Text) : Prop :=
  files.Refuses theme.unitFolder (unit ++ '.' :: unitExtension) ∨
    (files.isFolder (theme.unitPath unit) = true ∧ files.isFile (theme.unitPath unit) = false)

/-- A unit is the first of some units that is stray; those before it can be read. -/
def IsFirstStray (theme : Theme) (files : FileTree) (units : List Text) (missing : Text) : Prop :=
  ∃ front back, units = front ++ missing :: back ∧
    (∀ earlier ∈ front, ∃ text, theme.unitText files earlier = .ok text) ∧
    theme.IsStray files missing

/-- What an assembly reads before it comes to the other units can be read. -/
structure ReachesOthers (theme : Theme) (files : FileTree) (unit : Text) : Prop where
  own : ∃ text, theme.unitText files unit = .ok text
  base : ∃ text, theme.base files = .ok text
  mixins : ∃ text, theme.mixins files = .ok text
  overall : ∃ text, theme.overall files = .ok text

/-! ## One unit -/

theorem zero_not_mem_unitFile
    (isUnit : isUnitName unit = true) :
    '\x00' ∉ unit ++ '.' :: unitExtension := by
  rw [isUnitName, Bool.and_eq_true, List.all_eq_true] at isUnit
  intro member
  obtain inUnit | inExtension := List.mem_append.1 member
  · exact absurd (isUnit.2 _ inUnit) (by decide)
  · exact absurd inExtension (by decide)

theorem mapError_ofFile_ne_unitNotFound
    {Result : Type}
    {outcome : Except FileFault Result} :
    outcome.mapError ThemeError.ofFile ≠ .error (.unitNotFound missing path) := by
  cases outcome <;> simp [Except.mapError, ThemeError.ofFile]

theorem unitText_eq_unitNotFound_iff :
    theme.unitText files unit = .error (.unitNotFound missing path) ↔
      missing = unit ∧ path = theme.unitPath unit ∧
        (isUnitName unit && files.isFile (theme.unitPath unit)) = false := by
  dsimp only [unitText]
  split
  case isTrue found => simp [found, mapError_ofFile_ne_unitNotFound]
  case isFalse notFound =>
    rw [Bool.eq_false_iff.2 notFound, Except.error.injEq, ThemeError.unitNotFound.injEq]
    simp [eq_comm]

/-- A shared layer is never missing. -/
theorem layerText_ne_unitNotFound :
    theme.layerText files unit ≠ .error (.unitNotFound missing path) := by
  rw [layerText, Ne, Outcome.map_eq_error_iff]
  dsimp only [layerText?]
  split
  · exact mapError_ofFile_ne_unitNotFound
  · nofun

/-- A unit that is listed is missing exactly if its entry is stray. -/
theorem isFile_unitPath_eq_false_iff_isStray
    (isListed : unit ∈ theme.units files) :
    (isUnitName unit && files.isFile (theme.unitPath unit)) = false ↔
      theme.IsStray files unit := by
  obtain ⟨compilable, isEntry⟩ := mem_units_iff.1 isListed
  obtain ⟨isUnit, -⟩ := (Bool.and_eq_true _ _).mp compilable
  rw [isUnit, Bool.true_and, IsStray, unitPath_eq_child isUnit]
  exact FileTree.isFile_child_eq_false_iff (isName_unitFile isUnit) (zero_not_mem_unitFile isUnit)
    isEntry

/-! ## All units -/

/-- Reading listed units fails for want of one exactly at the first that is stray. -/
theorem mapM_unitText_eq_unitNotFound_iff
    {Result : Type}
    {parse : Text → Result}
    {units : List Text}
    (areListed : units ⊆ theme.units files) :
    (units.mapM fun unit => (theme.unitText files unit).map parse) =
        .error (.unitNotFound missing path) ↔
      path = theme.unitPath missing ∧ theme.IsFirstStray files units missing := by
  simp only [Outcome.mapM_eq_error_iff, Outcome.map_eq_error_iff, Outcome.map_eq_ok_iff,
    unitText_eq_unitNotFound_iff]
  constructor
  · rintro ⟨front, unit, back, rfl, areRead, rfl, rfl, notFound⟩
    refine ⟨rfl, front, back, rfl, fun earlier member => ?_, ?_⟩
    · obtain ⟨-, text, isRead, -⟩ := areRead earlier member
      exact ⟨text, isRead⟩
    · exact (isFile_unitPath_eq_false_iff_isStray (areListed (by simp))).1 notFound
  · rintro ⟨rfl, front, back, rfl, areRead, isStray⟩
    refine ⟨front, missing, back, rfl, fun earlier member => ?_, rfl, rfl, ?_⟩
    · obtain ⟨text, isRead⟩ := areRead earlier member
      exact ⟨parse text, text, isRead, rfl⟩
    · exact (isFile_unitPath_eq_false_iff_isStray (areListed (by simp))).2 isStray

theorem declarationLines_eq_unitNotFound_iff
    {units : List Text}
    (areListed : units ⊆ theme.units files) :
    theme.declarationLines files units = .error (.unitNotFound missing path) ↔
      path = theme.unitPath missing ∧ theme.IsFirstStray files units missing := by
  simp only [declarationLines, Outcome.bind_eq_error_iff, Outcome.pure_ne_error, and_false,
    exists_false, or_false, mapM_unitText_eq_unitNotFound_iff areListed]

theorem unitDeclarations_eq_unitNotFound_iff
    {units : List Text}
    (areListed : units ⊆ theme.units files) :
    theme.unitDeclarations files units = .error (.unitNotFound missing path) ↔
      path = theme.unitPath missing ∧ theme.IsFirstStray files units missing := by
  simp only [unitDeclarations, Outcome.bind_eq_error_iff, Outcome.pure_ne_error, and_false,
    exists_false, or_false, mapM_unitText_eq_unitNotFound_iff areListed]

theorem assemble_eq_unitNotFound_iff
    {overrides : Overrides} :
    theme.assemble files unit overrides = .error (.unitNotFound missing path) ↔
      path = theme.unitPath missing ∧
        (missing = unit ∧ (isUnitName unit && files.isFile (theme.unitPath unit)) = false ∨
          theme.ReachesOthers files unit ∧
            theme.IsFirstStray files ((theme.units files).filter (· != unit)) missing) := by
  have areListed : (theme.units files).filter (· != unit) ⊆ theme.units files :=
    List.filter_sublist.subset
  -- The layers are never missing, so only the unit itself and the other units remain.
  simp only [assemble, Outcome.bind_eq_error_iff, base, mixins, overall, globals, inverse,
    layerText_ne_unitNotFound, Outcome.pure_ne_error, and_false, exists_false, or_false, false_or,
    declarationLines_eq_unitNotFound_iff areListed, unitText_eq_unitNotFound_iff]
  constructor
  · rintro (⟨rfl, rfl, notFound⟩ | ⟨text, own, base, isBase, mixins, isMixins, overall, isOverall,
      rfl, isFirst⟩)
    · exact ⟨rfl, .inl ⟨rfl, notFound⟩⟩
    · exact ⟨rfl, .inr ⟨⟨⟨text, own⟩, ⟨base, isBase⟩, ⟨mixins, isMixins⟩, overall, isOverall⟩,
        isFirst⟩⟩
  · rintro ⟨rfl, ⟨rfl, notFound⟩ | ⟨⟨⟨text, own⟩, ⟨base, isBase⟩, ⟨mixins, isMixins⟩, overall,
      isOverall⟩, isFirst⟩⟩
    · exact .inl ⟨rfl, rfl, notFound⟩
    · exact .inr ⟨text, own, base, isBase, mixins, isMixins, overall, isOverall, rfl, isFirst⟩

theorem defaults_eq_unitNotFound_iff :
    theme.defaults files = .error (.unitNotFound missing path) ↔
      path = theme.unitPath missing ∧ (∃ base, theme.base files = .ok base) ∧
        theme.IsFirstStray files (theme.units files) missing := by
  simp only [defaults, Outcome.bind_eq_error_iff, base, overall, globals,
    layerText_ne_unitNotFound, Outcome.pure_ne_error, and_false, exists_false, or_false, false_or,
    unitDeclarations_eq_unitNotFound_iff (List.Subset.refl _)]
  constructor
  · rintro ⟨base, isBase, rfl, isFirst⟩
    exact ⟨rfl, ⟨base, isBase⟩, isFirst⟩
  · rintro ⟨rfl, ⟨base, isBase⟩, isFirst⟩
    exact ⟨base, isBase, rfl, isFirst⟩

/--
A listed unit is not found exactly if its entry is stray.  An assembly misses
the unit that it is for, or the first stray one of the others; the defaults
miss the first stray unit.
-/
theorem unitNotFound_iff_stray
    (theme : Theme)
    (files : FileTree) :
    (∀ unit ∈ theme.units files, ∀ missing path,
      theme.unitText files unit = .error (.unitNotFound missing path) ↔
        missing = unit ∧ path = theme.unitPath unit ∧ theme.IsStray files unit) ∧
    (∀ unit overrides missing path,
      theme.assemble files unit overrides = .error (.unitNotFound missing path) ↔
        path = theme.unitPath missing ∧
          (missing = unit ∧ (isUnitName unit && files.isFile (theme.unitPath unit)) = false ∨
            theme.ReachesOthers files unit ∧
              theme.IsFirstStray files ((theme.units files).filter (· != unit)) missing)) ∧
    (∀ missing path,
      theme.defaults files = .error (.unitNotFound missing path) ↔
        path = theme.unitPath missing ∧ (∃ base, theme.base files = .ok base) ∧
          theme.IsFirstStray files (theme.units files) missing) := by
  refine ⟨fun unit isListed missing path => ?_, fun _ _ _ _ => assemble_eq_unitNotFound_iff,
    fun _ _ => defaults_eq_unitNotFound_iff⟩
  rw [unitText_eq_unitNotFound_iff, isFile_unitPath_eq_false_iff_isStray isListed]

end Theme

namespace Sample

/-- A theme with one unit, next to which a folder has the name of a unit file. -/
def strayFiles : FileTree :=
  { FileTree.empty .memory with
    files := .ofList [
      ("t/components/button.less", Utf8.encode "@b: 2px;\n"),
      ("t/components/x.less/y", [])] }

end Sample

namespace Theme

/-- The folder is stray, so it is the unit that is not found. -/
theorem unitNotFound_iff_stray_folder :
    ("x" : Text) ∈ Sample.theme.units Sample.strayFiles ∧
      Sample.theme.unitText Sample.strayFiles "x" =
        .error (.unitNotFound "x" "t/components/x.less") := by
  have isListed : ("x" : Text) ∈ Sample.theme.units Sample.strayFiles := by decide +kernel
  have isStray : Sample.theme.IsStray Sample.strayFiles "x" := .inr (by decide +kernel)
  exact ⟨isListed, ((unitNotFound_iff_stray Sample.theme Sample.strayFiles).1 _ isListed _ _).2
    ⟨rfl, by decide +kernel, isStray⟩⟩

/-- A unit that is listed is not found, and so the unit next to it has no program. -/
theorem unitNotFound_of_listed_folder :
    Sample.theme.units Sample.strayFiles = ["button", "x"] ∧
      Sample.theme.unitText Sample.strayFiles "x" =
        .error (.unitNotFound "x" "t/components/x.less") ∧
      Sample.theme.assemble Sample.strayFiles "button" .empty =
        .error (.unitNotFound "x" "t/components/x.less") ∧
      Sample.theme.defaults Sample.strayFiles =
        .error (.unitNotFound "x" "t/components/x.less") := by
  refine ⟨by decide +kernel, by decide +kernel, ?_, ?_⟩ <;> rfl

end Theme
end LessTheme
