import LessTheme.Proofs.Engine.SaveCourse
import LessTheme.Proofs.Override.Submission
import LessTheme.Proofs.Program.Assembly
import LessTheme.Proofs.World.Replaced

/-!
# What saving stores

The store holds the merged overrides of a unit once they have been saved, and
what it held for all other units.  Saving the same again merges the same.
-/

namespace LessTheme
namespace Engine

variable {engine later : Engine} {unit : Text} {submitted : Overrides}
variable {outcome : Except ThemeError Overrides}

/-- Saving again what has been merged already stores the same again. -/
theorem save_again
    {catalog : Catalog}
    {table : OverrideTable}
    {stored : Overrides}
    {again : World}
    (forgotten : later.cache.get? unit = none)
    (unchanged : later.theme.catalogOf later.files unit = .ok catalog)
    (holds : later.world.table = .ok (table.replace unit (stored.submit catalog submitted)))
    (repeats : (World.replaceOverrides unit (stored.submit catalog submitted)).run.run later.world =
      (.ok (), again)) :
    ((save unit submitted).on later).1 = .ok (stored.submit catalog submitted) := by
  have reads := (on_catalog_of_not_cached forgotten).trans unchanged
  have answers := World.overridesOf_of_table_eq_ok holds unit
  rw [OverrideTable.overridesOf_replace, if_pos rfl] at answers
  rw [← Overrides.submit_submit] at repeats
  rw [on_save_of_ok reads answers repeats, Overrides.submit_submit]

/--
Saving answers exactly the stored overrides with the submitted ones merged in.
The store then holds these for the unit, or nothing if there are none, and what
it held for all other units; saving the same again, while the file of the unit
says the same, answers the same.  Saving that fails leaves the store, if the
store itself fails without a change.
-/
theorem save_merges
    (saves : (save unit submitted).on engine = (outcome, later)) :
    (∀ saved, outcome = .ok saved →
      ∃ catalog table,
        ((Engine.catalog unit).on engine).1 = .ok catalog ∧
        engine.world.table = .ok table ∧
        Overrides.IsMerged catalog (table.overridesOf unit) submitted saved ∧
        (engine.world.IsReadable →
          (∃ changed, later.world.table = .ok changed ∧
            changed.get? unit = (if saved.isEmpty then none else some saved) ∧
            ∀ other, other ≠ unit → changed.get? other = table.get? other) ∧
          (later.theme.catalogOf later.files unit = .ok catalog →
            ((save unit submitted).on later).1 = .ok saved))) ∧
      ∀ error, outcome = .error error → engine.world.FailsUnchanged unit →
        later.world.table = engine.world.table := by
  have course := saveCourse_on engine unit submitted
  rw [saves] at course
  cases course with
  | unread fails =>
      refine ⟨nofun, fun _ _ _ => ?_⟩
      rw [world_after_catalog]
  | unanswered fails =>
      refine ⟨nofun, fun _ _ _ => ?_⟩
      rw [world_after_catalog]
  | unstored reads answers fails =>
      refine ⟨nofun, fun _ _ unchanged => unchanged _ _ _ fails⟩
  | @stored catalog stored world reads answers stores =>
      refine ⟨?_, nofun⟩
      rintro saved same
      obtain rfl := Except.ok.inj same
      obtain ⟨table, isTable, rfl⟩ := Outcome.map_eq_ok_iff.1 answers
      refine ⟨catalog, table, reads, isTable, Overrides.isMerged_submit _ _ _, fun readable => ?_⟩
      obtain ⟨found, isFound, holds, again, repeats⟩ :=
        World.of_run_replaceOverrides readable stores
      obtain rfl := Except.ok.inj (isTable.symm.trans isFound)
      refine ⟨⟨_, holds, ?_, fun other different => ?_⟩, fun unchanged => ?_⟩
      · rw [OverrideTable.replace, OverrideLookup.units_insert, if_pos rfl]
      · rw [OverrideTable.replace, OverrideLookup.units_insert, if_neg different]
      · have forgotten := SortedMap.get?_erase ((Engine.catalog unit).after engine).cache unit unit
        rw [if_pos rfl] at forgotten
        exact save_again forgotten unchanged holds repeats

/-- A theme on a disk whose store holds overrides of two units, one of them undeclared. -/
def storedOnDisk : Engine :=
  let table : OverrideTable := .ofList [
    ("button", .ofList [("text", "red")]),
    ("card", .ofList [("card", "9px"), ("color", "red"), ("gone", "1px")])]
  let files := Sample.files.put "t/overrides.json" (Utf8.encode table.print)
  start Sample.theme .builtIn ⟨{ files with medium := .disk }, .file "t/overrides.json"⟩

/--
Of two names that are cleaned to the same one the later value is stored, unless
it ends its statement; a default takes what was stored away, and what is not
declared is dropped.  A unit without a file cannot be saved.
-/
theorem save_merges_sample :
    let submitted : Overrides := .ofList [
      ("c!ard", "1px"), ("ca!rd", " 5px "), ("card", "7px;"), ("color", "#fff"), ("other", "1px")]
    let saved : Overrides := .ofList [("card", "5px")]
    let later := (save "card" submitted).after storedOnDisk
    let failed := (save "nowhere" submitted).after storedOnDisk
    (save "card" submitted).on storedOnDisk = (.ok saved, later) ∧
      (∃ changed, later.world.table = .ok changed ∧ changed.get? "card" = some saved ∧
        changed.get? "button" = some (.ofList [("text", "red")])) ∧
      ((save "card" submitted).on later).1 = .ok saved ∧
      (∃ error, (save "nowhere" submitted).on storedOnDisk = (.error error, failed)) ∧
      failed.world.table = storedOnDisk.world.table := by
  intro submitted saved later failed
  have readable : storedOnDisk.world.IsReadable := by
    rintro path same
    obtain rfl := Store.file.inj same
    decide +kernel
  have hasFolder : storedOnDisk.world.HasFolder := by
    rintro path same
    obtain rfl := Store.file.inj same
    exact .inr (.inr (by decide +kernel))
  let catalog := Catalog.read "card" "@color: #FFF;\n@card: @color;\n"
  have reads : ((Engine.catalog "card").on storedOnDisk).1 = .ok catalog := by decide +kernel
  have unchanged : later.theme.catalogOf later.files "card" = .ok catalog := by decide +kernel
  have answers : ((save "card" submitted).on storedOnDisk).1 = .ok saved := by decide +kernel
  have saves : (save "card" submitted).on storedOnDisk = (.ok saved, later) := by
    rw [← answers]
    exact (Prod.eta _).symm
  obtain ⟨error, refused⟩ : ∃ error, ((save "nowhere" submitted).on storedOnDisk).1 =
      .error error := ⟨_, rfl⟩
  have fails : (save "nowhere" submitted).on storedOnDisk = (.error error, failed) := by
    rw [← refused]
    exact (Prod.eta _).symm
  obtain ⟨found, table, isFound, isTable, -, stored⟩ := (save_merges saves).1 saved rfl
  obtain rfl := Except.ok.inj (reads.symm.trans isFound)
  obtain ⟨⟨changed, isChanged, own, others⟩, again⟩ := stored readable
  have isButton : (storedOnDisk.world.table.map fun table => table.get? "button") =
      .ok (some (.ofList [("text", "red")])) := by decide +kernel
  rw [isTable] at isButton
  refine ⟨saves, ⟨changed, isChanged, own, ?_⟩, again unchanged, ⟨error, fails⟩,
    (save_merges fails).2 error rfl (hasFolder.failsUnchanged "nowhere")⟩
  rw [others "button" (by decide)]
  exact Except.ok.inj isButton

end Engine
end LessTheme
