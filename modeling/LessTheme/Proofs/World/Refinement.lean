import LessTheme.Proofs.Override.Lookup
import LessTheme.Proofs.Theme.Outcome
import LessTheme.Theme.Source
import LessTheme.World.Store

/-!
# Stores that refine a table

A store refines a table of overrides if it answers what the table holds and
every change of it changes the table in the same way.  The files of the theme
stay what they are.  A store in memory is the table.
-/

namespace LessTheme

/-- Two file trees hold the same units and shared layers of a theme. -/
structure Theme.SeesSame
    (theme : Theme)
    (files other : FileTree) : Prop where
  units : theme.units files = theme.units other
  unitText : ∀ unit, theme.unitText files unit = theme.unitText other unit
  layerText : ∀ path, Path.join theme.root path ∈ theme.layerPaths →
    theme.layerText files path = theme.layerText other path

theorem Theme.SeesSame.refl
    (theme : Theme)
    (files : FileTree) :
    theme.SeesSame files files :=
  ⟨rfl, fun _ => rfl, fun _ _ => rfl⟩

namespace World

/-! ## Changes of a store -/

/-- Gives a unit its overrides; a unit without overrides is taken out of the store. -/
def replaceOverrides
    (unit : Text)
    (overrides : Overrides) : Change :=
  if overrides.isEmpty then removeOverrides unit else setOverrides unit overrides

section Changes

variable {world : World} {table : OverrideTable} {fault : WorldFault}

theorem overridesOf_of_table_eq_ok
    (isTable : world.table = .ok table)
    (unit : Text) :
    world.overridesOf unit = .ok (table.overridesOf unit) := by
  unfold overridesOf
  rw [isTable]
  rfl

theorem run_setOverrides
    (isTable : world.table = .ok table)
    (unit : Text)
    (overrides : Overrides) :
    (setOverrides unit overrides).run.run world =
      (keep (table.insert unit overrides)).run.run world := by
  change ((liftM world.table : ExceptT WorldFault (StateM World) OverrideTable) >>=
    fun table => keep (table.insert unit overrides)).run.run world = _
  rw [isTable]
  rfl

theorem run_removeOverrides
    (isTable : world.table = .ok table)
    (unit : Text) :
    (removeOverrides unit).run.run world =
      (if table.contains unit then keep (table.erase unit) else pure ()).run.run world := by
  change ((liftM world.table : ExceptT WorldFault (StateM World) OverrideTable) >>=
    fun table => if table.contains unit then keep (table.erase unit) else pure ()).run.run
      world = _
  rw [isTable]
  rfl

/-- The store is written unless there is nothing to take out of it. -/
theorem run_replaceOverrides
    (isTable : world.table = .ok table)
    (unit : Text)
    (overrides : Overrides) :
    (replaceOverrides unit overrides).run.run world =
      if overrides.isEmpty && !table.contains unit then (.ok (), world)
      else (keep (table.replace unit overrides)).run.run world := by
  unfold replaceOverrides OverrideTable.replace OverrideLookup.insert
  cases overrides.isEmpty with
  | true =>
      rw [if_pos rfl, run_removeOverrides isTable]
      cases table.contains unit <;> rfl
  | false => exact run_setOverrides isTable unit overrides

theorem overridesOf_of_table_eq_error
    (broken : world.table = .error fault)
    (unit : Text) :
    world.overridesOf unit = .error fault := by
  unfold overridesOf
  rw [broken]
  rfl

theorem setOverrides_of_table_eq_error
    (broken : world.table = .error fault)
    (unit : Text)
    (overrides : Overrides) :
    (setOverrides unit overrides).run.run world = (.error fault, world) := by
  change ((liftM world.table >>= fun table => keep (table.insert unit overrides)) :
    Change).run.run world = _
  rw [broken]
  rfl

theorem removeOverrides_of_table_eq_error
    (broken : world.table = .error fault)
    (unit : Text) :
    (removeOverrides unit).run.run world = (.error fault, world) := by
  change ((liftM world.table >>= fun table =>
    if table.contains unit then keep (table.erase unit) else pure ()) : Change).run.run world = _
  rw [broken]
  rfl

theorem replaceOverrides_of_table_eq_error
    (broken : world.table = .error fault)
    (unit : Text)
    (overrides : Overrides) :
    (replaceOverrides unit overrides).run.run world = (.error fault, world) := by
  unfold replaceOverrides
  split
  · exact removeOverrides_of_table_eq_error broken unit
  · exact setOverrides_of_table_eq_error broken unit overrides

end Changes

/-! ## Refinement -/

/-- A relation of worlds to the tables that their stores hold, which every change keeps. -/
structure TableRefinement where
  /-- A world holds a table. -/
  Holds : World → OverrideTable → Prop
  answers : ∀ {world table}, Holds world table → world.table = .ok table
  sets : ∀ {world table}, Holds world table → ∀ unit overrides, ∃ later,
    (setOverrides unit overrides).run.run world = (.ok (), later) ∧
      Holds later (table.insert unit overrides)
  removes : ∀ {world table}, Holds world table → ∀ unit, ∃ later,
    (removeOverrides unit).run.run world = (.ok (), later) ∧ Holds later (table.erase unit)

/-- A unit gets its overrides; without any it is taken out of the store. -/
theorem TableRefinement.replaces
    {world : World}
    {table : OverrideTable}
    (refinement : TableRefinement)
    (holds : refinement.Holds world table)
    (unit : Text)
    (overrides : Overrides) :
    ∃ later, (replaceOverrides unit overrides).run.run world = (.ok (), later) ∧
      refinement.Holds later (table.replace unit overrides) := by
  unfold replaceOverrides OverrideTable.replace OverrideLookup.insert
  split
  · exact refinement.removes holds unit
  · exact refinement.sets holds unit overrides

/-- A refinement of tables that leaves the files of a theme as they are. -/
structure StoreRefinement
    (theme : Theme)
    (files : FileTree) where
  /-- A world holds a table. -/
  Holds : World → OverrideTable → Prop
  sees : ∀ {world table}, Holds world table → theme.SeesSame world.files files
  answers : ∀ {world table}, Holds world table → world.table = .ok table
  sets : ∀ {world table}, Holds world table → ∀ unit overrides, ∃ later,
    (setOverrides unit overrides).run.run world = (.ok (), later) ∧
      Holds later (table.insert unit overrides)
  removes : ∀ {world table}, Holds world table → ∀ unit, ∃ later,
    (removeOverrides unit).run.run world = (.ok (), later) ∧ Holds later (table.erase unit)

/-- The store of a world holds a table and refines it from now on. -/
def Keeps
    (world : World)
    (theme : Theme)
    (files : FileTree)
    (table : OverrideTable) : Prop :=
  ∃ refinement : StoreRefinement theme files, refinement.Holds world table

/-- A refinement of tables whose worlds all show the same theme. -/
def TableRefinement.within
    {theme : Theme}
    {files : FileTree}
    (refinement : TableRefinement)
    (sees : ∀ world table, refinement.Holds world table → theme.SeesSame world.files files) :
    StoreRefinement theme files where
  Holds := refinement.Holds
  sees holds := sees _ _ holds
  answers := refinement.answers
  sets := refinement.sets
  removes := refinement.removes

namespace Keeps

variable {world : World} {theme : Theme} {files : FileTree} {table : OverrideTable}

theorem sees (keeps : world.Keeps theme files table) :
    theme.SeesSame world.files files := by
  obtain ⟨refinement, holds⟩ := keeps
  exact refinement.sees holds

theorem table_eq (keeps : world.Keeps theme files table) :
    world.table = .ok table := by
  obtain ⟨refinement, holds⟩ := keeps
  exact refinement.answers holds

theorem overridesOf_eq
    (keeps : world.Keeps theme files table)
    (unit : Text) :
    world.overridesOf unit = .ok (table.overridesOf unit) :=
  overridesOf_of_table_eq_ok keeps.table_eq unit

theorem removes
    (keeps : world.Keeps theme files table)
    (unit : Text) :
    ∃ later, (removeOverrides unit).run.run world = (.ok (), later) ∧
      later.Keeps theme files (table.erase unit) := by
  obtain ⟨refinement, holds⟩ := keeps
  obtain ⟨later, runs, holdsLater⟩ := refinement.removes holds unit
  exact ⟨later, runs, refinement, holdsLater⟩

theorem replaces
    (keeps : world.Keeps theme files table)
    (unit : Text)
    (overrides : Overrides) :
    ∃ later, (replaceOverrides unit overrides).run.run world = (.ok (), later) ∧
      later.Keeps theme files (table.replace unit overrides) := by
  unfold replaceOverrides OverrideTable.replace OverrideLookup.insert
  split
  · exact keeps.removes unit
  · obtain ⟨refinement, holds⟩ := keeps
    obtain ⟨later, runs, holdsLater⟩ := refinement.sets holds unit overrides
    exact ⟨later, runs, refinement, holdsLater⟩

end Keeps

/-! ## Changes that fail -/

/--
A relation of worlds to tables that even failing changes keep.  A store need
not answer, but what it answers is the table, and a change that fails leaves
the table.  The files of a theme stay what they are.
-/
structure FallibleRefinement
    (theme : Theme)
    (files : FileTree) where
  /-- A world holds a table. -/
  Holds : World → OverrideTable → Prop
  sees : ∀ {world table}, Holds world table → theme.SeesSame world.files files
  answers : ∀ {world table}, Holds world table →
    ∀ {found}, world.table = .ok found → found = table
  sets : ∀ {world table}, Holds world table → ∀ unit overrides {outcome later},
    (setOverrides unit overrides).run.run world = (outcome, later) →
      Holds later (if outcome.isOk then table.insert unit overrides else table)
  removes : ∀ {world table}, Holds world table → ∀ unit {outcome later},
    (removeOverrides unit).run.run world = (outcome, later) →
      Holds later (if outcome.isOk then table.erase unit else table)

namespace FallibleRefinement

variable {theme : Theme} {files : FileTree} {world : World} {table : OverrideTable}

theorem overridesOf_eq
    (refinement : FallibleRefinement theme files)
    (holds : refinement.Holds world table)
    {unit : Text}
    {overrides : Overrides}
    (found : world.overridesOf unit = .ok overrides) :
    overrides = table.overridesOf unit := by
  obtain ⟨answer, answers, rfl⟩ := Outcome.map_eq_ok_iff.1 found
  rw [refinement.answers holds answers]
  rfl

/-- A unit gets its overrides, or the change fails and leaves the table. -/
theorem replaces
    (refinement : FallibleRefinement theme files)
    (holds : refinement.Holds world table)
    {unit : Text}
    {overrides : Overrides}
    {outcome : Except WorldFault Unit}
    {later : World}
    (runs : (replaceOverrides unit overrides).run.run world = (outcome, later)) :
    refinement.Holds later (if outcome.isOk then table.replace unit overrides else table) := by
  unfold replaceOverrides at runs
  unfold OverrideTable.replace OverrideLookup.insert
  split at runs
  case isTrue isEmpty =>
    rw [if_pos isEmpty]
    exact refinement.removes holds unit runs
  case isFalse nonempty =>
    rw [if_neg nonempty]
    exact refinement.sets holds unit overrides runs

end FallibleRefinement

/-- A store whose changes all succeed. -/
def StoreRefinement.fallible
    {theme : Theme}
    {files : FileTree}
    (refinement : StoreRefinement theme files) : FallibleRefinement theme files where
  Holds := refinement.Holds
  sees := refinement.sees
  answers holds := by
    rintro found answers
    rw [refinement.answers holds] at answers
    exact (Except.ok.inj answers).symm
  sets holds unit overrides := by
    rintro outcome later runs
    obtain ⟨changed, sets, holdsChanged⟩ := refinement.sets holds unit overrides
    obtain ⟨rfl, rfl⟩ := Prod.mk.inj (runs.symm.trans sets)
    exact holdsChanged
  removes holds unit := by
    rintro outcome later runs
    obtain ⟨changed, removes, holdsChanged⟩ := refinement.removes holds unit
    obtain ⟨rfl, rfl⟩ := Prod.mk.inj (runs.symm.trans removes)
    exact holdsChanged

/-! ## Stores in memory -/

/-- A store in memory beside some files. -/
def memoryRefinement (files : FileTree) : TableRefinement where
  Holds world table := world = ⟨files, .memory table⟩
  answers := by
    rintro _ table rfl
    rfl
  sets := by
    rintro _ table rfl unit overrides
    exact ⟨_, rfl, rfl⟩
  removes := by
    rintro _ table rfl unit
    rw [run_removeOverrides rfl]
    split
    case isTrue => exact ⟨_, rfl, rfl⟩
    case isFalse absent =>
      rw [SortedMap.erase_of_contains_eq_false absent]
      exact ⟨_, rfl, rfl⟩

/-- Stores in memory, for a theme in the files beside them. -/
def memoryStore
    (theme : Theme)
    (files : FileTree) : StoreRefinement theme files :=
  (memoryRefinement files).within fun _ _ isMemory => isMemory ▸ Theme.SeesSame.refl theme files

/-- A store in memory refines its table, whatever the theme is. -/
theorem keeps_memory
    (theme : Theme)
    (files : FileTree)
    (table : OverrideTable) :
    Keeps ⟨files, .memory table⟩ theme files table :=
  ⟨memoryStore theme files, rfl⟩

end World
end LessTheme
