import LessTheme.Proofs.Engine.Run
import LessTheme.Proofs.Program.Assembly

/-!
# Exporting, resetting and applying again

The export of a unit is meant to bring the unit back to what it looks like.
It does so for every variable whose chain of references stops, unless an
override of the unit itself resolves to a value that saving does not store.
-/

namespace LessTheme

/-- Resets a unit, applies an export to it and exports it again. -/
def Engine.reexport
    (unit : Text)
    (first : Overrides) : Request Overrides := do
  reset unit
  discard (save unit first)
  exported unit

namespace Engine

variable {engine : Engine} {theme : Theme} {files : FileTree} {table : OverrideTable}

/-- What an export that succeeds has read. -/
theorem Serves.of_exported
    (serves : engine.Serves theme files table)
    {unit : Text}
    {first : Overrides}
    {later : Engine}
    (exports : (exported unit).on engine = (.ok first, later)) :
    ∃ resolver catalog,
      theme.resolverOf engine.world = .ok resolver ∧ theme.catalogOf files unit = .ok catalog ∧
      first = resolver.exported catalog ∧
      later.world = engine.world ∧ later.Serves theme files table := by
  obtain ⟨_, answers, sameWorld, laterServes⟩ := serves.reads (Request.reads_exported unit)
  rw [exports] at answers
  obtain ⟨answered, rfl⟩ := Prod.mk.inj answers
  obtain ⟨resolver, resolverRead, rest⟩ := Outcome.bind_eq_ok_iff.1 answered.symm
  obtain ⟨catalog, catalogRead, isExport⟩ := Outcome.bind_eq_ok_iff.1 rest
  rw [serves.keeps.catalogOf_eq] at catalogRead
  exact ⟨resolver, catalog, resolverRead, catalogRead, (Except.ok.inj isExport).symm, sameWorld,
    laterServes⟩

/-- What a resolver sees once only the overrides of a unit have changed. -/
theorem Serves.resolverOf_changed
    {changed : OverrideTable}
    {later : Engine}
    (serves : engine.Serves theme files table)
    (laterServes : later.Serves theme files changed)
    {unit : Text}
    (others : ∀ other, other ≠ unit → changed.overridesOf other = table.overridesOf other)
    {resolver : Resolver}
    (resolverRead : theme.resolverOf engine.world = .ok resolver) :
    theme.resolverOf later.world =
      .ok (if unit ∈ theme.visibleUnits files then
        resolver.withOwn unit (changed.overridesOf unit) else resolver) := by
  obtain ⟨globals, globalsRead, rfl⟩ := serves.keeps.resolverOf_eq_ok_iff.1 resolverRead
  refine laterServes.keeps.resolverOf_eq_ok_iff.2 ⟨globals, globalsRead, ?_⟩
  split
  case isTrue member =>
    rw [OverrideTable.lookup_eq_insert member others]
    rfl
  case isFalse absent => rw [OverrideTable.lookup_eq_self absent others]

/-- The engine and the export after an export has been applied again. -/
theorem Serves.reexport
    (serves : engine.Serves theme files table)
    {resolver : Resolver}
    {catalog : Catalog}
    {unit : Text}
    (resolverRead : theme.resolverOf engine.world = .ok resolver)
    (catalogRead : theme.catalogOf files unit = .ok catalog) :
    ∃ later, (Engine.reexport unit (resolver.exported catalog)).on engine =
        (.ok ((if unit ∈ theme.visibleUnits files then
          resolver.withOwn unit (resolver.reapplied catalog) else resolver).exported catalog),
          later) := by
  obtain ⟨cleared, resets, clearedServes⟩ := serves.reset unit
  obtain ⟨applied, saves, appliedServes⟩ :=
    clearedServes.save catalogRead (resolver.exported catalog)
  rw [OverrideTable.overridesOf_erase, if_pos rfl] at saves appliedServes
  let changed := OverrideTable.replace (table.erase unit) unit (resolver.reapplied catalog)
  replace appliedServes : applied.Serves theme files changed := appliedServes
  have own : changed.overridesOf unit = resolver.reapplied catalog := by
    rw [OverrideTable.overridesOf_replace, if_pos rfl]
  have others : ∀ other, other ≠ unit → changed.overridesOf other = table.overridesOf other := by
    intro other different
    rw [OverrideTable.overridesOf_replace, if_neg different, OverrideTable.overridesOf_erase,
      if_neg different]
  have seen := serves.resolverOf_changed appliedServes others resolverRead
  rw [own] at seen
  have catalogSeen : theme.catalogOf applied.world.files unit = .ok catalog := by
    rw [appliedServes.keeps.catalogOf_eq, catalogRead]
  obtain ⟨later, exports, -⟩ := appliedServes.reads (Request.reads_exported unit)
  refine ⟨later, ?_⟩
  unfold Engine.reexport
  rw [Request.on_bind_of_ok resets, Request.on_bind_of_ok (Request.on_discard_of_ok saves),
    exports, seen]
  change (Except.bind (theme.catalogOf applied.world.files unit) _, later) = _
  rw [catalogSeen]
  rfl

theorem Serves.ownsDeclared
    (serves : engine.Serves theme files table)
    {resolver : Resolver}
    {catalog : Catalog}
    {unit : Text}
    (proper : table.IsProper theme files)
    (resolverRead : theme.resolverOf engine.world = .ok resolver)
    (catalogRead : theme.catalogOf files unit = .ok catalog) :
    resolver.OwnsDeclared catalog := by
  obtain ⟨globals, -, rfl⟩ := serves.keeps.resolverOf_eq_ok_iff.1 resolverRead
  intro name owned
  rw [(Theme.isNamed_of_catalogOf_eq_ok catalogRead).2] at owned
  obtain ⟨-, held⟩ := OverrideTable.own?_lookup owned
  obtain ⟨value, isValue⟩ := Option.isSome_iff_exists.1 held
  exact (proper.overridesOf catalogRead name value isValue).1

/--
After every sequence of calls on a store that was empty, a unit whose export
is applied to it again, without its own overrides, exports every value at
which references stop as before, if its overrides are restored.
-/
theorem exported_reexport
    {theme : Theme}
    {fallback : Fallback}
    {world : World}
    {calls : List Call}
    {state later : Engine}
    {unit : Text}
    {first : Overrides}
    (keeps : world.Keeps theme world.files .empty)
    (reached : state = (start theme fallback world).afterCalls calls)
    (exports : (exported unit).on state = (.ok first, later)) :
    ∃ resolver catalog again last,
      (Request.on Engine.resolver state).1 = .ok resolver ∧
      ((Engine.catalog unit).on state).1 = .ok catalog ∧
      (reexport unit first).on later = (.ok again, last) ∧
      Resolver.ComesBack resolver catalog first again := by
  obtain ⟨table, serves, proper⟩ := (serves_start keeps fallback).afterCalls
    OverrideTable.isProper_empty calls
  rw [← reached] at serves
  obtain ⟨resolver, catalog, resolverRead, catalogRead, rfl, sameWorld, laterServes⟩ :=
    serves.of_exported exports
  obtain ⟨_, readsResolver, -⟩ := serves.reads Request.reads_resolver
  obtain ⟨_, readsCatalog, -⟩ := serves.reads (Request.reads_catalog unit)
  obtain ⟨isNamed, rfl⟩ := Theme.isNamed_of_catalogOf_eq_ok catalogRead
  have ownsDeclared := serves.ownsDeclared proper resolverRead catalogRead
  obtain ⟨last, reexports⟩ := laterServes.reexport (by rw [sameWorld, resolverRead]) catalogRead
  refine ⟨resolver, catalog, _, last, ?_, ?_, reexports, ?_⟩
  · rw [readsResolver]
    exact resolverRead
  · rw [readsCatalog, serves.keeps.catalogOf_eq]
    exact catalogRead
  · split
    case isTrue => exact Resolver.comesBack_reapplied isNamed ownsDeclared
    case isFalse hidden =>
      refine Resolver.comesBack_self isNamed fun name owned => hidden ?_
      obtain ⟨_, -, rfl⟩ := serves.keeps.resolverOf_eq_ok_iff.1 resolverRead
      exact (OverrideTable.own?_lookup owned).1

/-- A saved reference comes back as the value that it leads to. -/
theorem exported_reexport_sample :
    ∃ first later again last resolver catalog,
      (exported "card").on ((start Sample.theme .builtIn ⟨Sample.files, .memory .empty⟩).afterCalls
        [.save "card" (.ofList [("card", "@size"), ("color", "red")])]) = (.ok first, later) ∧
      (reexport "card" first).on later = (.ok again, last) ∧
      first = .ofList [("card", "2px"), ("color", "red")] ∧
      again = .ofList [("card", "2px"), ("color", "red")] ∧
      Resolver.ComesBack resolver catalog first again := by
  have runs : ∃ first later again last,
      (exported "card").on ((start Sample.theme .builtIn ⟨Sample.files, .memory .empty⟩).afterCalls
        [.save "card" (.ofList [("card", "@size"), ("color", "red")])]) = (.ok first, later) ∧
      (reexport "card" first).on later = (.ok again, last) ∧
      first = .ofList [("card", "2px"), ("color", "red")] ∧
      again = .ofList [("card", "2px"), ("color", "red")] := by
    refine ⟨_, _, _, _, rfl, rfl, ?_, ?_⟩
    · decide
    · decide
  obtain ⟨first, later, again, last, exports, reexports, isFirst, isAgain⟩ := runs
  have keeps := World.keeps_memory Sample.theme Sample.files .empty
  obtain ⟨resolver, catalog, _, _, -, -, comes, comesBack⟩ := exported_reexport keeps rfl exports
  rw [reexports] at comes
  obtain ⟨answers, -⟩ := Prod.mk.inj comes
  obtain rfl := Except.ok.inj answers
  exact ⟨first, later, again, last, resolver, catalog, exports, reexports, isFirst, isAgain,
    comesBack⟩

/--
A value that saving takes for the default leaves the default as it is written,
and references that run in a circle stop one step further on.
-/
theorem reexport_ne_first_sample :
    (∃ first later again last,
      (exported "button").on
        ((start Sample.theme .builtIn ⟨Sample.files, .memory .empty⟩).afterCalls
          [.save "button" (.ofList [("button", "@text")])]) = (.ok first, later) ∧
      (reexport "button" first).on later = (.ok again, last) ∧ again ≠ first) ∧
    ∃ first later again last,
      (exported "ring").on
        ((start Sample.theme .builtIn ⟨Sample.files, .memory .empty⟩).afterCalls []) =
        (.ok first, later) ∧
      (reexport "ring" first).on later = (.ok again, last) ∧ again ≠ first := by
  constructor
  · refine ⟨_, _, _, _, rfl, rfl, ?_⟩
    decide
  · refine ⟨_, _, _, _, rfl, rfl, ?_⟩
    decide

end Engine
end LessTheme
