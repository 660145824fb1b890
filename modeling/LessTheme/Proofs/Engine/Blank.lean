import LessTheme.Proofs.Engine.Saved
import LessTheme.Proofs.Override.Blank
import LessTheme.Proofs.Variable.Blank

/-!
# Blank overrides that are stored

Two engines for one theme, whose stores hold the same overrides but for blank
ones, are asked the same.  What is resolved and listed agrees exactly if
nothing resolves to nothing, and programs and fallback properties agree unless
a blank override hides another one.
-/

namespace LessTheme

/-! ## Programs and properties without blank overrides -/

theorem Overrides.layer_eq_of_withoutBlanks_eq
    {overrides other : Overrides}
    (same : overrides.withoutBlanks = other.withoutBlanks) :
    overrides.layer = other.layer := by
  rw [layer_eq_intercalate, layer_eq_intercalate, ← assigned_withoutBlanks overrides, same,
    assigned_withoutBlanks]

theorem Fallback.merged_withoutBlanks
    (defaults : OrderedMap Text)
    (overrides : Overrides) :
    merged defaults overrides.withoutBlanks = merged defaults overrides := by
  unfold merged
  change defaults.insertAll ((List.filter _ (List.filter _ overrides.entries)).map _) = _
  rw [List.filter_filter]
  simp only [Bool.and_self]

theorem Fallback.css_eq_of_withoutBlanks_eq
    {overrides other : Overrides}
    (same : overrides.withoutBlanks = other.withoutBlanks)
    (fallback : Fallback)
    (defaults : OrderedMap Text) :
    fallback.css defaults overrides = fallback.css defaults other := by
  unfold css values
  rw [← merged_withoutBlanks defaults overrides, same, merged_withoutBlanks]

namespace Theme

theorem assemble_eq_of_layer_eq
    {overrides other : Overrides}
    (same : overrides.layer = other.layer)
    (theme : Theme)
    (files : FileTree)
    (unit : Text) :
    theme.assemble files unit overrides = theme.assemble files unit other := by
  unfold assemble
  rw [same]

namespace SeesSame

variable {theme : Theme} {files other : FileTree}

theorem declarationLines_eq
    (sees : theme.SeesSame files other)
    (units : List Text) :
    theme.declarationLines files units = theme.declarationLines other units := by
  unfold declarationLines
  simp only [sees.unitText]

theorem assemble_eq
    (sees : theme.SeesSame files other)
    (unit : Text)
    (overrides : Overrides) :
    theme.assemble files unit overrides = theme.assemble other unit overrides := by
  have shared : ∀ path, Path.join theme.root path ∈ theme.layerPaths →
      theme.layerText files path = theme.layerText other path := sees.layerText
  unfold assemble base mixins overall globals inverse
  rw [sees.unitText, sees.units, sees.declarationLines_eq, shared theme.layout.base,
    shared theme.layout.mixins, shared theme.layout.theme,
    shared (theme.layout.unitPath theme.layout.globalUnit),
    shared (theme.layout.unitPath theme.layout.inverseUnit)]
  all_goals simp [layerPaths]

theorem defaults_eq (sees : theme.SeesSame files other) :
    theme.defaults files = theme.defaults other := by
  have shared : ∀ path, Path.join theme.root path ∈ theme.layerPaths →
      theme.layerText files path = theme.layerText other path := sees.layerText
  unfold defaults unitDeclarations base overall globals
  simp only [sees.unitText]
  rw [sees.units, shared theme.layout.base, shared theme.layout.theme,
    shared (theme.layout.unitPath theme.layout.globalUnit)]
  all_goals simp [layerPaths]

end SeesSame

theorem hasNoBlank_of_catalogOf_eq_ok
    {theme : Theme}
    {files : FileTree}
    {unit : Text}
    {catalog : Catalog}
    (catalogRead : theme.catalogOf files unit = .ok catalog) :
    catalog.HasNoBlank := by
  obtain ⟨text, -, rfl⟩ := Outcome.map_eq_ok_iff.1 catalogRead
  exact Catalog.hasNoBlank_read unit text

end Theme

/-! ## Answers of engines -/

namespace Engine
namespace Serves

variable {engine : Engine} {theme : Theme} {files : FileTree} {table : OverrideTable}

theorem effectiveOverrides_eq
    (serves : engine.Serves theme files table)
    (unit : Text) :
    engine.effectiveOverrides unit =
      .ok ((table.lookup (theme.visibleUnits files)).visibleFrom unit) := by
  have found : engine.overrideLookup = .ok (table.lookup (theme.visibleUnits files)) := by
    rw [← serves.keeps.lookupOf_eq, ← serves.sameTheme]
    rfl
  rw [effectiveOverrides, found]
  rfl

theorem assemble_eq
    (serves : engine.Serves theme files table)
    (unit : Text) :
    engine.assemble unit = theme.assemble files unit
      ((table.lookup (theme.visibleUnits files)).visibleFrom unit) := by
  rw [assemble, serves.effectiveOverrides_eq, ← serves.keeps.sees.assemble_eq, serves.sameTheme]
  rfl

theorem fallbackCss_eq
    (serves : engine.Serves theme files table) :
    engine.fallbackCss = (theme.defaults files).map fun defaults =>
      engine.fallback.css defaults
        ((table.lookup (theme.visibleUnits files)).visibleFrom theme.layout.globalUnit) := by
  rw [fallbackCss, serves.effectiveOverrides_eq, ← serves.keeps.sees.defaults_eq,
    serves.sameTheme]
  change (theme.defaults engine.world.files >>= _) = _
  cases theme.defaults engine.world.files <;> rfl

/-- The resolver of an engine, if the global defaults can be read. -/
theorem resolverOf_eq (serves : engine.Serves theme files table) :
    theme.resolverOf engine.world =
      (theme.catalogOf files theme.layout.globalUnit).map fun globals =>
        ⟨globals, table.lookup (theme.visibleUnits files)⟩ := by
  unfold Theme.resolverOf
  rw [serves.keeps.lookupOf_eq, serves.keeps.catalogOf_eq]
  cases theme.catalogOf files theme.layout.globalUnit <;> rfl

/-- What is answered from the catalog of a unit and the resolver. -/
theorem answer_eq
    {Result : Type}
    (serves : engine.Serves theme files table)
    {unit : Text}
    {request : Request Result}
    {answer : Resolver → Catalog → Result}
    (reads : request.Reads fun theme world => do
      let resolver ← theme.resolverOf world
      return answer resolver (← theme.catalogOf world.files unit)) :
    (request.on engine).1 = do
      let globals ← theme.catalogOf files theme.layout.globalUnit
      let catalog ← theme.catalogOf files unit
      return answer ⟨globals, table.lookup (theme.visibleUnits files)⟩ catalog := by
  obtain ⟨later, answers, -⟩ := serves.reads reads
  rw [answers, serves.resolverOf_eq, serves.keeps.catalogOf_eq]
  cases theme.catalogOf files theme.layout.globalUnit <;> rfl

variable {clean : Engine}

/-- A question agrees without blank overrides exactly if its answer from the catalogs does. -/
theorem answer_withoutBlanks_eq_iff
    {Result : Type}
    (serves : engine.Serves theme files table)
    (servesClean : clean.Serves theme files table.withoutBlanks)
    {unit : Text}
    {request : Request Result}
    {answer : Resolver → Catalog → Result}
    (reads : request.Reads fun theme world => do
      let resolver ← theme.resolverOf world
      return answer resolver (← theme.catalogOf world.files unit))
    {Agrees : Result → Prop}
    (agrees : ∀ {resolver : Resolver} {catalog : Catalog}, resolver.DeclaresNoBlank catalog →
      (answer resolver.withoutBlanks catalog = answer resolver catalog ↔
        Agrees (answer resolver catalog))) :
    (request.on clean).1 = (request.on engine).1 ↔
      ∀ result, (request.on engine).1 = .ok result → Agrees result := by
  rw [serves.answer_eq reads, servesClean.answer_eq reads, OverrideLookup.lookup_withoutBlanks]
  cases globalsRead : theme.catalogOf files theme.layout.globalUnit with
  | error error => exact iff_of_true rfl fun _ impossible => nomatch impossible
  | ok globals =>
      cases catalogRead : theme.catalogOf files unit with
      | error error => exact iff_of_true rfl fun _ impossible => nomatch impossible
      | ok catalog =>
          have declaresNoBlank : Resolver.DeclaresNoBlank
              ⟨globals, table.lookup (theme.visibleUnits files)⟩ catalog :=
            ⟨Theme.hasNoBlank_of_catalogOf_eq_ok globalsRead,
              Theme.hasNoBlank_of_catalogOf_eq_ok catalogRead⟩
          constructor
          · intro same result isResult
            rw [← Except.ok.inj isResult]
            exact (agrees declaresNoBlank).1 (Except.ok.inj same)
          · intro allAgree
            exact congrArg Except.ok ((agrees declaresNoBlank).2 (allAgree _ rfl))

end Serves

/--
Two engines for one theme hold the same overrides, one of them without those
that are blank.  A name resolves to the same value in both exactly if it does
not resolve to nothing, and a unit lists the same variables exactly if none of
them does.  The program of a unit and the fallback properties are the same if
no blank override hides one that is not blank.
-/
theorem answers_withoutBlanks
    {engine clean : Engine}
    {theme : Theme}
    {files : FileTree}
    {table : OverrideTable}
    (serves : engine.Serves theme files table)
    (servesClean : clean.Serves theme files table.withoutBlanks)
    (sameFallback : clean.fallback = engine.fallback) :
    (∀ unit name,
      ((resolve unit name).on clean).1 = ((resolve unit name).on engine).1 ↔
        ∀ value, ((resolve unit name).on engine).1 = .ok value → value ≠ []) ∧
    (∀ unit,
      ((inspect unit).on clean).1 = ((inspect unit).on engine).1 ↔
        ∀ listed, ((inspect unit).on engine).1 = .ok listed →
          ∀ found ∈ listed, found.resolved ≠ []) ∧
    (∀ unit, (table.lookup (theme.visibleUnits files)).BlanksHideNothing unit →
      clean.assemble unit = engine.assemble unit) ∧
    ((table.lookup (theme.visibleUnits files)).BlanksHideNothing theme.layout.globalUnit →
      clean.fallbackCss = engine.fallbackCss) := by
  refine ⟨fun unit name => ?_, fun unit => ?_, fun unit hidesNothing => ?_, fun hidesNothing => ?_⟩
  · exact serves.answer_withoutBlanks_eq_iff servesClean (Request.reads_resolve unit name)
      fun declaresNoBlank => Resolver.resolve_withoutBlanks_eq_iff declaresNoBlank name _
  · exact serves.answer_withoutBlanks_eq_iff servesClean (Request.reads_inspect unit)
      fun declaresNoBlank => Resolver.resolveCatalog_withoutBlanks_eq_iff declaresNoBlank
  · rw [serves.assemble_eq, servesClean.assemble_eq, OverrideLookup.lookup_withoutBlanks]
    apply Theme.assemble_eq_of_layer_eq
    exact Overrides.layer_eq_of_withoutBlanks_eq
      (OverrideLookup.withoutBlanks_visibleFrom hidesNothing)
  · rw [serves.fallbackCss_eq, servesClean.fallbackCss_eq, OverrideLookup.lookup_withoutBlanks,
      sameFallback]
    have sameCss := Fallback.css_eq_of_withoutBlanks_eq
      (OverrideLookup.withoutBlanks_visibleFrom hidesNothing) engine.fallback
    simp only [sameCss]

/-- A blank override of a variable, and one of a name that the other units do not override. -/
theorem answers_withoutBlanks_sample :
    let table : OverrideTable := .ofList [
      ("button", .ofList [("button", " "), ("text", "@size")]),
      ("card", .ofList [("color", "")])]
    let engine := start Sample.theme .builtIn ⟨Sample.files, .memory table⟩
    let clean := start Sample.theme .builtIn ⟨Sample.files, .memory table.withoutBlanks⟩
    ((resolve "button" "text").on clean).1 = ((resolve "button" "text").on engine).1 ∧
      ((resolve "button" "button").on clean).1 ≠ ((resolve "button" "button").on engine).1 ∧
      ((inspect "ring").on clean).1 = ((inspect "ring").on engine).1 ∧
      clean.assemble "button" = engine.assemble "button" ∧
      clean.fallbackCss = engine.fallbackCss := by
  intro table engine clean
  have serves : engine.Serves Sample.theme Sample.files table :=
    serves_start (World.keeps_memory _ _ _) _
  have servesClean : clean.Serves Sample.theme Sample.files table.withoutBlanks :=
    serves_start (World.keeps_memory _ _ _) _
  obtain ⟨resolves, inspects, assembles, fallback⟩ := answers_withoutBlanks serves servesClean rfl
  have isText : ((resolve "button" "text").on engine).1 = .ok "2px" := by decide +kernel
  have isNothing : ((resolve "button" "button").on engine).1 = .ok [] := by decide +kernel
  have allListed : (((inspect "ring").on engine).1.toOption.getD []).all
      (fun found => found.resolved != []) = true := by
    decide +kernel
  refine ⟨?_, ?_, ?_, ?_, ?_⟩
  · refine (resolves "button" "text").2 fun value isValue => ?_
    obtain rfl := Except.ok.inj (isText.symm.trans isValue)
    exact List.cons_ne_nil _ _
  · exact fun same => (resolves "button" "button").1 same [] isNothing rfl
  · refine (inspects "ring").2 fun listed isListed found member => ?_
    rw [isListed] at allListed
    simpa using List.all_eq_true.1 allListed found member
  · exact assembles "button" (by decide +kernel)
  · exact fallback (by decide +kernel)

/--
A blank override of a variable is listed and resolves to nothing.  A blank
override of a name hides that of another unit from a program and from the
fallback properties.
-/
theorem answers_withoutBlanks_ne_sample :
    let table : OverrideTable := .ofList [
      ("button", .ofList [("button", " "), ("color", " ")]),
      ("card", .ofList [("color", "red")]),
      ("global", .ofList [("color", "")])]
    let engine := start Sample.theme ⟨["color"], 10⟩ ⟨Sample.files, .memory table⟩
    let clean := start Sample.theme ⟨["color"], 10⟩ ⟨Sample.files, .memory table.withoutBlanks⟩
    ((resolve "button" "button").on engine).1 = .ok "" ∧
      ((resolve "button" "button").on clean).1 = .ok "#FFF" ∧
      ((inspect "button").on engine).1 ≠ ((inspect "button").on clean).1 ∧
      engine.assemble "button" ≠ clean.assemble "button" ∧
      engine.fallbackCss = .ok ":root \x7b\n  --color: 1px;\n\x7d\n" ∧
      clean.fallbackCss = .ok ":root \x7b\n  --color: red;\n\x7d\n" := by
  decide +kernel

end Engine
end LessTheme
