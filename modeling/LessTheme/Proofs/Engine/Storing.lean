import LessTheme.Proofs.Engine.Reading
import LessTheme.Proofs.Engine.SaveCourse

/-!
# Requests on a store that refines a table

Resetting a unit takes its overrides out of the table, and saving puts the
merged overrides in.  Neither changes the files of the theme, and no request
fails for another reason than a catalog that cannot be read.
-/

namespace LessTheme

/-! ## What a theme says in a world -/

namespace Theme

theorem SeesSame.catalogOf_eq
    {theme : Theme}
    {files other : FileTree}
    (sees : theme.SeesSame files other)
    (unit : Text) :
    theme.catalogOf files unit = theme.catalogOf other unit := by
  have globals : theme.globals files = theme.globals other := by
    apply sees.layerText
    simp [layerPaths]
  unfold catalogOf catalogSource
  rw [globals, sees.unitText]

theorem isNamed_of_catalogOf_eq_ok
    {theme : Theme}
    {files : FileTree}
    {unit : Text}
    {catalog : Catalog}
    (catalogRead : theme.catalogOf files unit = .ok catalog) :
    catalog.IsNamed ∧ catalog.unit = unit := by
  obtain ⟨text, -, rfl⟩ := Outcome.map_eq_ok_iff.1 catalogRead
  exact ⟨Catalog.isNamed_read unit text, Catalog.read_unit unit text⟩

/-- The units whose overrides are seen. -/
def visibleUnits
    (theme : Theme)
    (files : FileTree) : List Text :=
  theme.units files ++ [theme.layout.globalUnit]

end Theme

namespace World.Keeps

variable {world : World} {theme : Theme} {files : FileTree} {table : OverrideTable}

theorem catalogOf_eq
    (keeps : world.Keeps theme files table)
    (unit : Text) :
    theme.catalogOf world.files unit = theme.catalogOf files unit :=
  keeps.sees.catalogOf_eq unit

theorem lookupOf_eq (keeps : world.Keeps theme files table) :
    theme.lookupOf world = .ok (table.lookup (theme.visibleUnits files)) := by
  unfold Theme.lookupOf Engine.overrideLookup Theme.visibleUnits
  rw [← keeps.sees.units]
  apply Outcome.foldlM_eq_ok
  intro lookup unit
  change Except.mapError _ (Except.map _ (world.overridesOf unit)) = _
  rw [keeps.overridesOf_eq]
  rfl

theorem resolverOf_eq_ok_iff
    (keeps : world.Keeps theme files table)
    {resolver : Resolver} :
    theme.resolverOf world = .ok resolver ↔
      ∃ globals, theme.catalogOf files theme.layout.globalUnit = .ok globals ∧
        resolver = ⟨globals, table.lookup (theme.visibleUnits files)⟩ := by
  unfold Theme.resolverOf
  rw [keeps.lookupOf_eq, keeps.catalogOf_eq]
  simp only [Outcome.bind_eq_ok_iff, Outcome.pure_eq_ok_iff, Except.ok.injEq]
  constructor
  · rintro ⟨lookup, rfl, globals, globalsRead, rfl⟩
    exact ⟨globals, globalsRead, rfl⟩
  · rintro ⟨globals, globalsRead, rfl⟩
    exact ⟨_, rfl, globals, globalsRead, rfl⟩

end World.Keeps

/-! ## Requests -/

namespace Engine

/-- An engine for a theme with certain files and overrides. -/
structure Serves
    (engine : Engine)
    (theme : Theme)
    (files : FileTree)
    (table : OverrideTable) : Prop where
  sameTheme : engine.theme = theme
  keeps : engine.world.Keeps theme files table
  coherent : engine.IsCoherent

theorem serves_start
    {theme : Theme}
    {world : World}
    {files : FileTree}
    {table : OverrideTable}
    (keeps : world.Keeps theme files table)
    (fallback : Fallback) :
    (start theme fallback world).Serves theme files table :=
  ⟨rfl, keeps, isCoherent_start theme fallback world⟩

namespace Serves

variable {engine : Engine} {theme : Theme} {files : FileTree} {table : OverrideTable}

/-- A request that only reads leaves theme and world. -/
theorem reads
    {Result : Type}
    {request : Request Result}
    {answer : Theme → World → Except ThemeError Result}
    (serves : engine.Serves theme files table)
    (onlyReads : request.Reads answer) :
    ∃ later, request.on engine = (answer theme engine.world, later) ∧
      later.world = engine.world ∧ later.Serves theme files table := by
  obtain ⟨cache, answers, coherent⟩ := onlyReads engine serves.coherent
  refine ⟨{ engine with cache := cache }, ?_, rfl, serves.sameTheme, serves.keeps, coherent⟩
  rw [answers, serves.sameTheme]

/-- Changing the world and forgetting the catalog of a unit keeps the cache coherent. -/
theorem after_change
    (serves : engine.Serves theme files table)
    {later : World}
    {changed : OverrideTable}
    (keepsLater : later.Keeps theme files changed)
    (unit : Text) :
    Serves { engine with world := later, cache := engine.cache.erase unit } theme files
      changed := by
  refine ⟨serves.sameTheme, keepsLater, ?_⟩
  refine IsCoherent.withWorld (serves.coherent.erase unit) fun other => ?_
  change engine.theme.catalogOf later.files other = engine.theme.catalogOf engine.world.files other
  rw [serves.sameTheme, keepsLater.catalogOf_eq, serves.keeps.catalogOf_eq]

theorem reset
    (serves : engine.Serves theme files table)
    (unit : Text) :
    ∃ later, (Engine.reset unit).on engine = (.ok (), later) ∧
      later.Serves theme files (table.erase unit) := by
  obtain ⟨world, runs, keepsLater⟩ := serves.keeps.removes unit
  have changes := on_changeWorld_of_ok runs
  exact ⟨_, Request.on_bind_of_ok changes, serves.after_change keepsLater unit⟩

theorem save
    (serves : engine.Serves theme files table)
    {unit : Text}
    {found : Catalog}
    (catalogRead : theme.catalogOf files unit = .ok found)
    (submitted : Overrides) :
    ∃ later, (Engine.save unit submitted).on engine =
        (.ok ((table.overridesOf unit).submit found submitted), later) ∧
      later.Serves theme files
        (table.replace unit ((table.overridesOf unit).submit found submitted)) := by
  obtain ⟨read, answers, -, readServes⟩ := serves.reads (Request.reads_catalog unit)
  rw [serves.keeps.catalogOf_eq, catalogRead] at answers
  obtain ⟨world, runs, keepsLater⟩ :=
    serves.keeps.replaces unit ((table.overridesOf unit).submit found submitted)
  obtain rfl : (Engine.catalog unit).after engine = read := by rw [Request.after, answers]
  exact ⟨_, on_save_of_ok (by rw [answers]) (serves.keeps.overridesOf_eq unit) runs,
    readServes.after_change keepsLater unit⟩

theorem save_error
    (serves : engine.Serves theme files table)
    {unit : Text}
    {error : ThemeError}
    (unreadable : theme.catalogOf files unit = .error error)
    (submitted : Overrides) :
    ∃ later, (Engine.save unit submitted).on engine = (.error error, later) ∧
      later.Serves theme files table := by
  obtain ⟨later, answers, -, laterServes⟩ := serves.reads (Request.reads_catalog unit)
  rw [serves.keeps.catalogOf_eq, unreadable] at answers
  exact ⟨later, Request.on_bind_of_error answers, laterServes⟩

end Serves
end Engine

/-!
## Requests on a store that may fail

Saving and resetting may fail for many reasons: a unit may be missing, or the
store may refuse to answer or to be written.  Either the table of overrides
changes as it is meant to, or it stays what it is.
-/

namespace Engine

variable {theme : Theme} {files : FileTree} {table : OverrideTable} {engine : Engine}

/-- An engine for a theme with certain files, over a store that may fail. -/
structure Attends
    (engine : Engine)
    (refinement : World.FallibleRefinement theme files)
    (table : OverrideTable) : Prop where
  sameTheme : engine.theme = theme
  holds : refinement.Holds engine.world table
  coherent : engine.IsCoherent

namespace Attends

variable {refinement : World.FallibleRefinement theme files}

theorem catalogOf_eq
    (attends : engine.Attends refinement table)
    (unit : Text) :
    theme.catalogOf engine.world.files unit = theme.catalogOf files unit :=
  (refinement.sees attends.holds).catalogOf_eq unit

/-- A request that only reads leaves theme and store. -/
theorem reads
    {Result : Type}
    {request : Request Result}
    {answer : Theme → World → Except ThemeError Result}
    (attends : engine.Attends refinement table)
    (onlyReads : request.Reads answer) :
    ∃ later, request.on engine = (answer theme engine.world, later) ∧
      later.Attends refinement table := by
  obtain ⟨cache, answers, coherent⟩ := onlyReads engine attends.coherent
  refine ⟨{ engine with cache := cache }, ?_, attends.sameTheme, attends.holds, coherent⟩
  rw [answers, attends.sameTheme]

theorem forget
    (attends : engine.Attends refinement table)
    (unit : Text) :
    Attends { engine with cache := engine.cache.erase unit } refinement table :=
  ⟨attends.sameTheme, attends.holds, attends.coherent.erase unit⟩

theorem withWorld
    (attends : engine.Attends refinement table)
    {later : World}
    {changed : OverrideTable}
    (holdsLater : refinement.Holds later changed) :
    Attends { engine with world := later } refinement changed := by
  refine ⟨attends.sameTheme, holdsLater, attends.coherent.withWorld fun unit => ?_⟩
  change _ = engine.theme.catalogOf engine.world.files unit
  rw [attends.sameTheme, attends.catalogOf_eq]
  exact (refinement.sees holdsLater).catalogOf_eq unit

/-- Resetting takes the overrides of a unit away or fails. -/
theorem after_reset
    (attends : engine.Attends refinement table)
    (unit : Text) :
    ((Engine.reset unit).after engine).Attends refinement (table.erase unit) ∨
      ((Engine.reset unit).after engine).Attends refinement table := by
  have changes := on_changeWorld (World.removeOverrides unit) engine
  unfold Engine.reset Request.after
  cases runs : (World.removeOverrides unit).run.run engine.world with
  | mk outcome later =>
      have attendsLater := attends.withWorld (refinement.removes attends.holds unit runs)
      rw [runs] at changes
      cases outcome with
      | error fault =>
          rw [Request.on_bind_of_error changes]
          exact Or.inr attendsLater
      | ok =>
          rw [Request.on_bind_of_ok changes]
          exact Or.inl (attendsLater.forget unit)

/-- Saving merges what is submitted into the overrides of a unit or leaves everything. -/
theorem after_save
    (attends : engine.Attends refinement table)
    (unit : Text)
    (submitted : Overrides) :
    (∃ catalog, theme.catalogOf files unit = .ok catalog ∧
      ((Engine.save unit submitted).after engine).Attends refinement
        (table.replace unit ((table.overridesOf unit).submit catalog submitted))) ∨
      ((Engine.save unit submitted).after engine).Attends refinement table := by
  obtain ⟨read, answers, attendsRead⟩ := attends.reads (Request.reads_catalog unit)
  rw [attends.catalogOf_eq] at answers
  obtain rfl : (Engine.catalog unit).after engine = read := by rw [Request.after, answers]
  have course := saveCourse_on engine unit submitted
  unfold Request.after
  cases ends : (Engine.save unit submitted).on engine with
  | mk outcome later =>
      rw [ends] at course
      cases course with
      | unread fails => exact Or.inr attendsRead
      | unanswered fails => exact Or.inr attendsRead
      | unstored reads told fails =>
          exact Or.inr (attendsRead.withWorld (refinement.replaces attends.holds fails))
      | @stored catalog stored world reads told stores =>
          rw [answers] at reads
          obtain rfl := refinement.overridesOf_eq attends.holds told
          have holdsLater := refinement.replaces attends.holds stores
          exact Or.inl ⟨catalog, reads, (attendsRead.withWorld holdsLater).forget unit⟩

end Attends
end Engine
end LessTheme
