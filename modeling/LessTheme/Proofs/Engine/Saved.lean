import LessTheme.Proofs.Engine.Run
import LessTheme.Proofs.Theme.Unit
import LessTheme.Proofs.Variable.Reading
import LessTheme.Proofs.Variable.Resolver

/-!
# What is seen after saving

Saving writes the overrides of any unit whose file can be read.  The overrides
are looked up for the listed units and for the global defaults.  What is saved
is seen at once where these meet.
-/

namespace LessTheme

theorem Overrides.isSome_find?_of_get?_submit_eq_some
    {catalog : Catalog}
    {stored submitted : Overrides}
    {name value : Text}
    (saved : (submit catalog stored submitted).get? name = some value) :
    (catalog.find? name).isSome = true := by
  rw [submit, SortedMap.get?_filter, Option.filter_eq_some_iff] at saved
  obtain ⟨found, isFound, -⟩ := (Option.any_eq_true _ _).1 saved.2
  rw [isFound]
  rfl

theorem OverrideTable.own?_lookup_of_mem
    {units : List Text}
    {unit : Text}
    (table : OverrideTable)
    (member : unit ∈ units)
    (name : Text) :
    (table.lookup units).own? unit name = (table.overridesOf unit).get? name := by
  unfold OverrideLookup.own?
  rw [units_lookup, if_pos member]
  split
  case isTrue isEmpty => exact (SortedMap.get?_eq_none_of_isEmpty isEmpty name).symm
  case isFalse => rfl

theorem OverrideTable.get?_lookup_of_mem
    {table : OverrideTable}
    {units : List Text}
    {unit name value : Text}
    (member : unit ∈ units)
    (stored : (table.overridesOf unit).get? name = some value) :
    (table.lookup units).get? unit name = some value := by
  rw [OverrideLookup.get?_eq_own?_or_foreign?, table.own?_lookup_of_mem member, stored]
  rfl

namespace Theme

/-- A unit with a catalog is looked up, unless it is the inverse layer. -/
theorem mem_visibleUnits_of_catalogOf_eq_ok
    {theme : Theme}
    {files : FileTree}
    {unit : Text}
    {catalog : Catalog}
    (reachable : files.medium = .memory ∨ theme.unitFolder ≠ [])
    (isSeen : unit = theme.layout.globalUnit ∨ unit ≠ theme.layout.inverseUnit)
    (catalogRead : theme.catalogOf files unit = .ok catalog) :
    unit ∈ theme.visibleUnits files := by
  unfold visibleUnits
  by_cases isGlobal : unit = theme.layout.globalUnit
  · exact List.mem_append_right _ (List.mem_singleton.2 isGlobal)
  · have isOwn : theme.layout.isShared unit = false := by
      have notInverse := isSeen.resolve_left isGlobal
      simp [Layout.isShared, isGlobal, notInverse]
    obtain ⟨text, isRead, -⟩ := Outcome.map_eq_ok_iff.1 catalogRead
    rw [catalogSource, if_neg (by simpa using isGlobal)] at isRead
    exact List.mem_append_left _ (mem_units_of_unitText_eq_ok reachable isOwn isRead)

end Theme

namespace Resolver

variable {resolver : Resolver} {catalog : Catalog} {name value : Text}

/-- An overridden variable is listed once, with its override. -/
theorem listed_of_get?_overrides_eq_some
    (isNamed : catalog.IsNamed)
    (declared : (catalog.find? name).isSome = true)
    (overridden : resolver.overrides.get? catalog.unit name = some value) :
    (∃ found ∈ resolver.resolveCatalog catalog, found.declared.name = name) ∧
      ∀ found ∈ resolver.resolveCatalog catalog, found.declared.name = name →
        found.value = value ∧ found.isOverridden = true := by
  constructor
  · obtain ⟨found, isFound⟩ := Option.isSome_iff_exists.1 declared
    have member := OrderedMap.mem_entries_of_get?_eq_some isFound
    exact ⟨resolver.resolveVariable catalog found,
      List.mem_map.2 ⟨found, List.mem_map.2 ⟨_, member, rfl⟩, rfl⟩,
      (Catalog.cleanName_of_find?_eq_some isNamed isFound).1⟩
  · intro found member isNameOf
    obtain ⟨own, -, rfl⟩ := List.mem_map.1 member
    change own.name = name at isNameOf
    simp [resolveVariable, isNameOf, overridden]

theorem resolve_of_get?_overrides_eq_some
    (overridden : resolver.overrides.get? catalog.unit name = some value)
    (budget : Nat) :
    resolver.resolve catalog name budget = resolver.follow catalog value budget := by
  have isValue : resolver.value? catalog name = some value := by
    rw [value?, overridden]
    rfl
  rw [resolve, isValue]

end Resolver

namespace Request

theorem reads_resolve (unit name : Text) :
    Reads (Engine.resolve unit name) fun theme world => do
      let resolver ← theme.resolverOf world
      return resolver.resolve (← theme.catalogOf world.files unit) name defaultBudget := by
  exact reads_resolver.bind fun resolver => (reads_catalog unit).bind fun catalog =>
    reads_pure (resolver.resolve catalog name defaultBudget)

end Request

namespace Engine

variable {engine : Engine} {theme : Theme} {files : FileTree} {table : OverrideTable}

/-- Saving that succeeds has read the catalog of the unit and changed the overrides of the unit. -/
theorem Serves.of_save
    (serves : engine.Serves theme files table)
    {unit : Text}
    {submitted saved : Overrides}
    {later : Engine}
    (saves : (Engine.save unit submitted).on engine = (.ok saved, later)) :
    ∃ catalog, theme.catalogOf files unit = .ok catalog ∧
      saved = (table.overridesOf unit).submit catalog submitted ∧
      later.Serves theme files (table.replace unit saved) := by
  cases catalogRead : theme.catalogOf files unit with
  | error error =>
      obtain ⟨_, fails, -⟩ := serves.save_error catalogRead submitted
      have impossible := fails.symm.trans saves
      injection impossible with impossible
      contradiction
  | ok catalog =>
      obtain ⟨_, answers, laterServes⟩ := serves.save catalogRead submitted
      rw [saves] at answers
      obtain ⟨same, rfl⟩ := Prod.mk.inj answers
      obtain rfl := Except.ok.inj same
      exact ⟨catalog, rfl, rfl, laterServes⟩

/--
What has been saved is listed as overriding and resolves from the saved value,
if the unit is not the inverse layer and the global defaults can be read.
-/
theorem inspect_and_resolve_after_save
    (serves : engine.Serves theme files table)
    {unit : Text}
    {submitted saved : Overrides}
    {later : Engine}
    (saves : (save unit submitted).on engine = (.ok saved, later))
    (isSeen : unit = theme.layout.globalUnit ∨ unit ≠ theme.layout.inverseUnit)
    (reachable : files.medium = .memory ∨ theme.unitFolder ≠ [])
    {globals : Text}
    (globalsRead : theme.globals files = .ok globals) :
    ∃ resolver catalog listed shown,
      (Engine.resolver.on later).1 = .ok resolver ∧
      ((Engine.catalog unit).on later).1 = .ok catalog ∧
      (inspect unit).on later = (.ok listed, shown) ∧
      ∀ name value, saved.get? name = some value →
        (∃ found ∈ listed, found.declared.name = name) ∧
        (∀ found ∈ listed, found.declared.name = name →
          found.value = value ∧ found.isOverridden = true) ∧
        ((resolve unit name).on later).1 =
          .ok (resolver.follow catalog value defaultBudget) := by
  obtain ⟨catalog, catalogRead, isSaved, laterServes⟩ := serves.of_save saves
  obtain ⟨isNamed, rfl⟩ := Theme.isNamed_of_catalogOf_eq_ok catalogRead
  have globalCatalog : theme.catalogOf files theme.layout.globalUnit =
      .ok (Catalog.read theme.layout.globalUnit globals) := by
    rw [Theme.catalogOf, Theme.catalogSource, if_pos (beq_self_eq_true _), globalsRead]
    rfl
  obtain ⟨resolver, isResolver⟩ : ∃ resolver, resolver = Resolver.mk
      (Catalog.read theme.layout.globalUnit globals)
      ((table.replace catalog.unit saved).lookup (theme.visibleUnits files)) := ⟨_, rfl⟩
  have resolverRead :=
    laterServes.keeps.resolverOf_eq_ok_iff.2 ⟨_, globalCatalog, isResolver⟩
  have catalogSeen := (laterServes.keeps.catalogOf_eq catalog.unit).trans catalogRead
  obtain ⟨_, readsResolver, -⟩ := laterServes.reads Request.reads_resolver
  obtain ⟨_, readsCatalog, -⟩ := laterServes.reads (Request.reads_catalog catalog.unit)
  obtain ⟨shown, inspects, -⟩ := laterServes.reads (Request.reads_inspect catalog.unit)
  rw [resolverRead, catalogSeen] at inspects
  refine ⟨resolver, catalog, _, shown, ?_, ?_, inspects, fun name value isValue => ?_⟩
  · rw [readsResolver, resolverRead]
  · rw [readsCatalog]
    exact catalogSeen
  have stored : ((table.replace catalog.unit saved).overridesOf catalog.unit).get? name =
      some value := by
    rw [OverrideTable.overridesOf_replace, if_pos rfl, isValue]
  have overridden : resolver.overrides.get? catalog.unit name = some value := by
    rw [isResolver]
    exact OverrideTable.get?_lookup_of_mem
      (Theme.mem_visibleUnits_of_catalogOf_eq_ok reachable isSeen catalogRead) stored
  rw [isSaved] at isValue
  have declared := Overrides.isSome_find?_of_get?_submit_eq_some isValue
  obtain ⟨isListed, allListed⟩ :=
    Resolver.listed_of_get?_overrides_eq_some isNamed declared overridden
  refine ⟨isListed, allListed, ?_⟩
  obtain ⟨_, resolves, -⟩ := laterServes.reads (Request.reads_resolve catalog.unit name)
  rw [resolverRead, catalogSeen] at resolves
  rw [resolves]
  exact congrArg Except.ok (Resolver.resolve_of_get?_overrides_eq_some overridden defaultBudget)

/-- An override that refers to a global default is listed and resolves to the default. -/
theorem inspect_and_resolve_after_save_sample :
    ∃ saved later listed shown,
      (save "card" (.ofList [("card", "@size"), ("other", "1px")])).on
        (start Sample.theme .builtIn ⟨Sample.files, .memory .empty⟩) = (.ok saved, later) ∧
      saved = .ofList [("card", "@size")] ∧
      (inspect "card").on later = (.ok listed, shown) ∧
      (∃ found ∈ listed, found.declared.name = "card") ∧
      (∀ found ∈ listed, found.declared.name = "card" →
        found.value = "@size" ∧ found.isOverridden = true) ∧
      ((resolve "card" "card").on later).1 = .ok "2px" := by
  have saves : ∃ saved later,
      (save "card" (.ofList [("card", "@size"), ("other", "1px")])).on
        (start Sample.theme .builtIn ⟨Sample.files, .memory .empty⟩) = (.ok saved, later) ∧
      saved = .ofList [("card", "@size")] ∧
      ((resolve "card" "card").on later).1 = .ok "2px" := by
    refine ⟨_, _, rfl, ?_, ?_⟩
    · decide
    · rfl
  obtain ⟨saved, later, saves, isSaved, resolves⟩ := saves
  have serves := serves_start (World.keeps_memory Sample.theme Sample.files .empty) .builtIn
  obtain ⟨resolver, catalog, listed, shown, -, -, inspects, seen⟩ :=
    inspect_and_resolve_after_save serves saves (Or.inr (by decide)) (Or.inl rfl)
      (show Sample.theme.globals Sample.files = .ok "@size: 2px;\n@color: @size;\n" from rfl)
  obtain ⟨isListed, allListed, -⟩ := seen "card" "@size" (by rw [isSaved]; decide)
  exact ⟨saved, later, listed, shown, saves, isSaved, inspects, isListed, allListed, resolves⟩

/-- Files of the theme whose global defaults are no text. -/
def garbledGlobals : FileTree :=
  { FileTree.empty .memory with
    files := .ofList [
      ("t/components/global.less", [0xff]),
      ("t/components/button.less", Utf8.encode "@b: 1px;\n")] }

/-- Files of the theme with an inverse layer that declares a variable. -/
def declaringInverse : FileTree :=
  { FileTree.empty .memory with
    files := .ofList [("t/components/inverse.less", Utf8.encode "@x: 1px;\n")] }

/-- A theme whose unit files lie beside each other in a folder without a name. -/
def unnamedFolder : Theme := ⟨"", { components := "" }⟩

/-- Files on a disk, where no path without a name leads to the folder. -/
def besideEachOther : FileTree :=
  { FileTree.empty .disk with files := .ofList [("button.less", Utf8.encode "@b: 1px;\n")] }

/--
Saving succeeds though the global defaults are no text, and then nothing can
be listed; what is saved for the inverse layer is not looked up; and neither is
what is saved for a unit whose folder cannot be listed.
-/
theorem saved_not_listed_sample :
    (∃ saved later fault,
      (save "button" (.ofList [("b", "2px")])).on
        (start Sample.theme .builtIn ⟨garbledGlobals, .memory .empty⟩) = (.ok saved, later) ∧
      saved.get? "b" = some "2px" ∧
      ((inspect "button").on later).1 = .error fault) ∧
    (∃ saved later listed shown,
      (save "inverse" (.ofList [("x", "2px")])).on
        (start Sample.theme .builtIn ⟨declaringInverse, .memory .empty⟩) = (.ok saved, later) ∧
      saved.get? "x" = some "2px" ∧
      (inspect "inverse").on later = (.ok listed, shown) ∧
      ∀ found ∈ listed, found.value = "1px" ∧ found.isOverridden = false) ∧
    ∃ saved later listed shown,
      (save "button" (.ofList [("b", "2px")])).on
        (start unnamedFolder .builtIn ⟨besideEachOther, .memory .empty⟩) = (.ok saved, later) ∧
      saved.get? "b" = some "2px" ∧
      (inspect "button").on later = (.ok listed, shown) ∧
      ∀ found ∈ listed, found.value = "1px" ∧ found.isOverridden = false := by
  refine ⟨?garbled, ?inverse, ?unnamed⟩
  case garbled =>
    refine ⟨_, _, _, rfl, ?_, rfl⟩
    decide
  case inverse =>
    refine ⟨_, _, _, _, rfl, ?_, rfl, ?_⟩
    · decide
    · decide
  case unnamed =>
    refine ⟨_, _, _, _, rfl, ?_, rfl, ?_⟩
    · decide
    · decide

end Engine
end LessTheme
