import LessTheme.Proofs.Engine.Storing
import LessTheme.Proofs.Override.Submission
import LessTheme.Proofs.Program.Assembly
import LessTheme.Proofs.Text.Trim

/-!
# Runs of calls

However often overrides are saved, reset and looked at, the store holds proper
overrides only: declared variables with clean values that differ from their
defaults.
-/

namespace LessTheme

/-- Every override is one of a declared variable that saving would store. -/
def Overrides.IsProper
    (catalog : Catalog)
    (overrides : Overrides) : Prop :=
  ∀ name value, overrides.get? name = some value →
    (catalog.find? name).isSome = true ∧ value.trim = value ∧
      Overrides.isStorable catalog name value = true

namespace Overrides

variable {catalog : Catalog}

theorem isProper_empty : IsProper catalog .empty := by
  intro name value found
  contradiction

theorem accepted?_eq_some
    {name value : Text}
    {entry : Text × Text}
    (isAccepted : accepted? catalog name value = some entry) :
    (catalog.find? entry.1).isSome = true ∧ entry.2.trim = entry.2 ∧
      breaksStatement entry.2 = false := by
  unfold accepted? at isAccepted
  split at isAccepted
  case isTrue conditions =>
    rw [Bool.and_eq_true, Bool.not_eq_true'] at conditions
    obtain rfl := Option.some.inj isAccepted
    exact ⟨conditions.1, Text.trim_trim _, conditions.2⟩
  case isFalse => contradiction

/-- Saving keeps overrides proper, whatever is submitted. -/
theorem IsProper.submit
    {stored : Overrides}
    (proper : IsProper catalog stored)
    (submitted : Overrides) :
    IsProper catalog (submit catalog stored submitted) := by
  intro name value found
  rw [get?_submit] at found
  cases last : lastValue? (accepted catalog submitted.entries) name with
  | none =>
      rw [last] at found
      exact proper name value (Option.filter_eq_some_iff.1 found).1
  | some kept =>
      rw [last] at found
      obtain ⟨same, held⟩ := Option.filter_eq_some_iff.1 found
      obtain rfl := Option.some.inj same
      obtain ⟨entry, -, isAccepted⟩ := List.mem_filterMap.1 (mem_of_lastValue?_eq_some last)
      obtain ⟨declared, trimmed, unbroken⟩ := accepted?_eq_some isAccepted
      refine ⟨declared, trimmed, ?_⟩
      rw [isStorable, unbroken, held]
      rfl

end Overrides

namespace OverrideTable

/-- All overrides of a table are proper, and no unit has an empty set of overrides. -/
def IsProper
    (theme : Theme)
    (files : FileTree)
    (table : OverrideTable) : Prop :=
  ∀ unit overrides, table.get? unit = some overrides →
    overrides.isEmpty = false ∧
      ∃ catalog, theme.catalogOf files unit = .ok catalog ∧ overrides.IsProper catalog

variable {theme : Theme} {files : FileTree} {table : OverrideTable}

theorem isProper_empty : IsProper theme files .empty := by
  intro unit overrides found
  contradiction

theorem IsProper.erase
    (proper : table.IsProper theme files)
    (unit : Text) :
    IsProper theme files (table.erase unit) := by
  intro other overrides found
  rw [SortedMap.get?_erase] at found
  split at found
  · contradiction
  · exact proper other overrides found

theorem IsProper.replace
    (proper : table.IsProper theme files)
    {unit : Text}
    {catalog : Catalog}
    (catalogRead : theme.catalogOf files unit = .ok catalog)
    {overrides : Overrides}
    (properHere : overrides.IsProper catalog) :
    (table.replace unit overrides).IsProper theme files := by
  intro other found isFound
  rw [OverrideTable.replace, OverrideLookup.units_insert] at isFound
  split at isFound
  case isTrue same =>
    split at isFound
    · contradiction
    case isFalse nonempty =>
      obtain rfl := Option.some.inj isFound
      rw [same]
      exact ⟨by simpa using nonempty, catalog, catalogRead, properHere⟩
  case isFalse => exact proper other found isFound

theorem IsProper.overridesOf
    (proper : table.IsProper theme files)
    {unit : Text}
    {catalog : Catalog}
    (catalogRead : theme.catalogOf files unit = .ok catalog) :
    (table.overridesOf unit).IsProper catalog := by
  unfold OverrideTable.overridesOf
  cases found : table.get? unit with
  | none => exact Overrides.isProper_empty
  | some overrides =>
      obtain ⟨-, other, otherRead, properHere⟩ := proper unit overrides found
      obtain rfl := Except.ok.inj (catalogRead.symm.trans otherRead)
      exact properHere

end OverrideTable

/-- A call that a user of an engine makes. -/
inductive Call
  /-- Saving submitted overrides of a unit. -/
  | save (unit : Text) (submitted : Overrides)
  /-- Removing the overrides of a unit. -/
  | reset (unit : Text)
  /-- Looking at the variables of a unit. -/
  | inspect (unit : Text)

namespace Call

/-- The request that a call makes. -/
def request : Call → Request Unit
  | .save unit submitted => discard (Engine.save unit submitted)
  | .reset unit => Engine.reset unit
  | .inspect unit => discard (Engine.inspect unit)

end Call

namespace Engine

/-- The engine after some calls, failing ones included. -/
def afterCalls
    (engine : Engine)
    (calls : List Call) : Engine :=
  calls.foldl (fun engine call => call.request.after engine) engine

variable {engine : Engine} {theme : Theme} {files : FileTree} {table : OverrideTable}

namespace Attends

variable {refinement : World.FallibleRefinement theme files}

/-- One call keeps the overrides in the store proper, whether it fails or not. -/
theorem after_call
    (attends : engine.Attends refinement table)
    (proper : table.IsProper theme files)
    (call : Call) :
    ∃ changed, (call.request.after engine).Attends refinement changed ∧
      changed.IsProper theme files := by
  cases call with
  | save unit submitted =>
      rw [Call.request, Request.after_discard]
      obtain ⟨catalog, catalogRead, changed⟩ | failed := attends.after_save unit submitted
      · exact ⟨_, changed, proper.replace catalogRead
          ((proper.overridesOf catalogRead).submit submitted)⟩
      · exact ⟨table, failed, proper⟩
  | reset unit =>
      obtain changed | failed := attends.after_reset unit
      · exact ⟨_, changed, proper.erase unit⟩
      · exact ⟨table, failed, proper⟩
  | inspect unit =>
      obtain ⟨later, answers, attendsLater⟩ := attends.reads (Request.reads_inspect unit)
      refine ⟨table, ?_, proper⟩
      rwa [Call.request, Request.after_discard, Request.after, answers]

/-- Every sequence of calls keeps the overrides in the store proper. -/
theorem afterCalls
    (attends : engine.Attends refinement table)
    (proper : table.IsProper theme files)
    (calls : List Call) :
    ∃ changed, (engine.afterCalls calls).Attends refinement changed ∧
      changed.IsProper theme files := by
  induction calls generalizing engine table with
  | nil => exact ⟨table, attends, proper⟩
  | cons call rest inductionHypothesis =>
      obtain ⟨changed, attendsChanged, properChanged⟩ := attends.after_call proper call
      exact inductionHypothesis attendsChanged properChanged

end Attends

/-- After every sequence of calls the store holds proper overrides only. -/
theorem Serves.afterCalls
    (serves : engine.Serves theme files table)
    (proper : table.IsProper theme files)
    (calls : List Call) :
    ∃ changed, (engine.afterCalls calls).Serves theme files changed ∧
      changed.IsProper theme files := by
  obtain ⟨refinement, holds⟩ := serves.keeps
  have attends : engine.Attends refinement.fallible table :=
    ⟨serves.sameTheme, holds, serves.coherent⟩
  obtain ⟨changed, attendsLater, properLater⟩ := attends.afterCalls proper calls
  exact ⟨changed,
    ⟨attendsLater.sameTheme, ⟨refinement, attendsLater.holds⟩, attendsLater.coherent⟩,
    properLater⟩

/--
After every sequence of calls on a store that was empty, failing calls
included, each unit in the store has overrides, and each of them is a trimmed
value of a declared variable that cannot end its statement and says something
else than the default.
-/
theorem stored_after_calls
    {theme : Theme}
    {world : World}
    (refinement : World.FallibleRefinement theme world.files)
    (startsEmpty : refinement.Holds world .empty)
    (fallback : Fallback)
    (calls : List Call) :
    ∃ table, refinement.Holds ((start theme fallback world).afterCalls calls).world table ∧
      ∀ unit overrides, table.get? unit = some overrides →
        overrides.isEmpty = false ∧
        ∃ catalog, theme.catalogOf world.files unit = .ok catalog ∧
          ∀ name value, overrides.get? name = some value →
            ∃ declared, catalog.find? name = some declared ∧
              value ≠ [] ∧ value.trim = value ∧
              (∀ char ∈ value, char ≠ ';' ∧ char ≠ '{' ∧ char ≠ '}') ∧
              normalForm value ≠ normalForm declared.value := by
  have attends : (start theme fallback world).Attends refinement .empty :=
    ⟨rfl, startsEmpty, isCoherent_start theme fallback world⟩
  obtain ⟨table, attendsLater, proper⟩ := attends.afterCalls OverrideTable.isProper_empty calls
  refine ⟨table, attendsLater.holds, fun unit overrides isStored => ?_⟩
  obtain ⟨nonempty, catalog, catalogRead, properHere⟩ := proper unit overrides isStored
  refine ⟨nonempty, catalog, catalogRead, fun name value isValue => ?_⟩
  obtain ⟨declared, trimmed, storable⟩ := properHere name value isValue
  obtain ⟨found, isFound⟩ := Option.isSome_iff_exists.1 declared
  exact ⟨found, isFound, Overrides.ne_nil_of_isStorable storable, trimmed,
    Overrides.ne_mark_of_isStorable storable,
    Overrides.normalForm_ne_of_isStorable isFound storable⟩

/-- A missing unit, an undeclared name, a value that ends its statement, a default and a reset. -/
theorem stored_after_calls_sample :
    let calls : List Call := [
      .save "nowhere" (.ofList [("card", "1px")]),
      .save "button" (.ofList [("text", "red")]),
      .save "card" (.ofList [("card", "1px;"), ("c!ard", " 2px "), ("color", "#fff"),
        ("other", "1px")]),
      .reset "button"]
    ∃ table, ((start Sample.theme .builtIn ⟨Sample.files, .memory .empty⟩).afterCalls calls).world =
        ⟨Sample.files, .memory table⟩ ∧
      table = .ofList [("card", .ofList [("card", "2px")])] ∧
      ∀ unit overrides, table.get? unit = some overrides →
        overrides.isEmpty = false ∧
        ∃ catalog, Sample.theme.catalogOf Sample.files unit = .ok catalog ∧
          ∀ name value, overrides.get? name = some value →
            ∃ declared, catalog.find? name = some declared ∧
              value ≠ [] ∧ value.trim = value ∧
              (∀ char ∈ value, char ≠ ';' ∧ char ≠ '{' ∧ char ≠ '}') ∧
              normalForm value ≠ normalForm declared.value := by
  intro calls
  let refinement := (World.memoryStore Sample.theme Sample.files).fallible
  obtain ⟨table, holds, proper⟩ :=
    @stored_after_calls Sample.theme ⟨Sample.files, .memory .empty⟩ refinement rfl .builtIn calls
  have stored : ((start Sample.theme .builtIn ⟨Sample.files, .memory .empty⟩).afterCalls
      calls).world = ⟨Sample.files, .memory (.ofList [("card", .ofList [("card", "2px")])])⟩ := by
    rfl
  have isTable : table = .ofList [("card", .ofList [("card", "2px")])] := by
    have same := holds.symm.trans stored
    injection same with _ same
    injection same
  exact ⟨table, holds, isTable, proper⟩

end Engine
end LessTheme
