import LessTheme.Proofs.Collection.OrderedMap
import LessTheme.Proofs.Declaration.Block
import LessTheme.Proofs.Declaration.Last
import LessTheme.Proofs.Program.Assembly

/-!
# Defaults and assembled layers

The defaults of a theme are collected in a map, and the layers of a program
repeat them as text.  Both give every variable the same value, apart from the
variables of the unit that the program is for.
-/

namespace LessTheme

/-- The declarations of some layers, read one layer after the other. -/
def Program.declarationsIn
    (program : Program)
    (layers : List Layer) : List Declaration :=
  layers.flatMap fun layer => declarations ((program.layer? layer).getD [])

/-- The layers that the declared defaults come from, below the layers of the unit. -/
def Layer.shared : List Layer := [.base, .crossUnit, .globalDefaults, .theme]

namespace Theme

variable {theme : Theme} {files : FileTree} {unit : Text}

/-! ## The declarations of several units -/

/-- The parts of some units, in order. -/
def AreParts
    (theme : Theme)
    (files : FileTree) : List Text → List UnitParts → Prop :=
  List.Forall₂ fun unit part => (theme.unitText files unit).map splitUnit = .ok part

theorem declarationLines_eq_ok_iff
    {units : List Text}
    {lines : List Text} :
    theme.declarationLines files units = .ok lines ↔
      ∃ parts, theme.AreParts files units parts ∧ parts.flatMap UnitParts.declarations = lines := by
  simp only [declarationLines, Outcome.bind_eq_ok_iff, Outcome.pure_eq_ok_iff,
    Outcome.mapM_eq_ok_iff]
  rfl

theorem unitDeclarations_eq_ok_iff
    {units : List Text}
    {found : List Declaration} :
    theme.unitDeclarations files units = .ok found ↔
      ∃ parts, theme.AreParts files units parts ∧
        (parts.flatMap fun part => declarationsOf part.declarations) = found := by
  simp only [unitDeclarations, Outcome.bind_eq_ok_iff, Outcome.pure_eq_ok_iff,
    Outcome.mapM_eq_ok_iff]
  rfl

theorem AreParts.isDeclarationLine
    {units : List Text}
    {parts : List UnitParts}
    (areParts : theme.AreParts files units parts)
    {line : Text}
    (member : line ∈ parts.flatMap UnitParts.declarations) :
    IsDeclarationLine line := by
  induction areParts with
  | nil => contradiction
  | cons read _ inductionHypothesis =>
      rw [List.flatMap_cons, List.mem_append] at member
      obtain here | later := member
      · obtain ⟨text, -, rfl⟩ := Outcome.map_eq_ok_iff.1 read
        exact isDeclarationLine_of_mem_splitUnit here
      · exact inductionHypothesis later

/-- Leaving out a unit leaves the last declarations of what it does not declare. -/
theorem lastDeclaredIn?_without_unit
    {units : List Text}
    {all others : List UnitParts}
    (areParts : theme.AreParts files units all)
    (areOthers : theme.AreParts files (units.filter (· != unit)) others)
    {text name : Text}
    (textRead : theme.unitText files unit = .ok text)
    (notOwn : name ∉ (declarationsOf (splitUnit text).declarations).map Declaration.name) :
    lastDeclaredIn? (others.flatMap fun part => declarationsOf part.declarations) name =
      lastDeclaredIn? (all.flatMap fun part => declarationsOf part.declarations) name := by
  induction areParts generalizing others with
  | nil =>
      obtain rfl := List.forall₂_nil_left_iff.1 areOthers
      rfl
  | @cons first part rest parts read _ inductionHypothesis =>
      rw [List.flatMap_cons, lastDeclaredIn?_append]
      by_cases own : first = unit
      · rw [own, textRead] at read
        obtain rfl := Except.ok.inj read
        rw [List.filter_cons_of_neg (by simp [own])] at areOthers
        rw [lastDeclaredIn?_eq_none notOwn, Option.or_none]
        exact inductionHypothesis areOthers
      · rw [List.filter_cons_of_pos (by simpa using own)] at areOthers
        obtain ⟨again, later, readAgain, areLater, rfl⟩ := List.forall₂_cons_left_iff.1 areOthers
        obtain rfl := Except.ok.inj (read.symm.trans readAgain)
        rw [List.flatMap_cons, lastDeclaredIn?_append, inductionHypothesis areLater]

/-! ## The map of defaults -/

/-- Behind the keys of the base layer the declarations that it lacks are inserted. -/
theorem foldl_insertBeyond
    {base defaults : OrderedMap Text}
    (inFront : base.keys <+: defaults.keys)
    (found : List Declaration) :
    found.foldl (insertBeyond base.size) defaults =
      defaults.insertAll ((found.filter fun declaration =>
        !base.contains declaration.name).map Declaration.entry) := by
  induction found generalizing defaults with
  | nil => rfl
  | cons declaration rest inductionHypothesis =>
      rw [List.foldl_cons, insertBeyond, OrderedMap.all_le_indexOf? inFront]
      cases beyond : !base.contains declaration.name with
      | true =>
          have stillInFront := inFront.trans
            (OrderedMap.keys_prefix_insert defaults declaration.name declaration.value)
          rw [if_pos rfl, inductionHypothesis stillInFront,
            List.filter_cons_of_pos (p := fun other : Declaration => !base.contains other.name)
              beyond]
          rfl
      | false =>
          rw [if_neg Bool.false_ne_true, inductionHypothesis inFront,
            List.filter_cons_of_neg (p := fun other : Declaration => !base.contains other.name)
              (Bool.eq_false_iff.1 beyond)]

/-- The defaults are those of four layers, the global ones only where the base layer has none. -/
theorem defaults_eq_insertAll (theme : Theme) (files : FileTree) :
    theme.defaults files = do
      let base := OrderedMap.ofList ((declarations (← theme.base files)).map Declaration.entry)
      let units ← theme.unitDeclarations files (theme.units files)
      let globals := declarations (← theme.globals files)
      let overall := declarations (← theme.overall files)
      let beyondBase := globals.filter fun declaration => !base.contains declaration.name
      return ((base.insertAll (units.map Declaration.entry)).insertAll
        (beyondBase.map Declaration.entry)).insertAll (overall.map Declaration.entry) := by
  simp only [defaults, foldl_insertBeyond (OrderedMap.keys_prefix_insertAll _ _)]

/-- The declared defaults are those of four layers, each over the one before. -/
theorem get?_of_defaults_eq_ok
    {defaults : OrderedMap Text}
    (collected : theme.defaults files = .ok defaults) :
    ∃ base units globals overall,
      theme.base files = .ok base ∧
      theme.unitDeclarations files (theme.units files) = .ok units ∧
      theme.globals files = .ok globals ∧
      theme.overall files = .ok overall ∧
      ∀ name, defaults.get? name =
        (lastDeclared? overall name).or
          ((if (!((declarations base).map Declaration.name).contains name) = true then
              lastDeclared? globals name
            else none).or
            ((lastDeclaredIn? units name).or (lastDeclared? base name))) := by
  simp only [Theme.defaults_eq_insertAll, Outcome.bind_eq_ok_iff, Outcome.pure_eq_ok_iff]
    at collected
  obtain ⟨base, baseRead, units, unitsRead, globals, globalsRead, overall, overallRead, rfl⟩ :=
    collected
  refine ⟨base, units, globals, overall, baseRead, unitsRead, globalsRead, overallRead,
    fun name => ?_⟩
  have sameTest : (fun declaration : Declaration =>
      !(OrderedMap.ofList ((declarations base).map Declaration.entry)).contains
        declaration.name) =
      fun declaration => !((declarations base).map Declaration.name).contains declaration.name := by
    funext declaration
    congr 1
    rw [Bool.eq_iff_iff, OrderedMap.contains, OrderedMap.get?_ofList, List.contains_iff_mem]
    exact isSome_lastDeclaredIn?_iff
  rw [OrderedMap.get?_insertAll, OrderedMap.get?_insertAll, OrderedMap.get?_insertAll,
    OrderedMap.get?_ofList, sameTest]
  change (lastDeclared? overall name).or ((lastDeclaredIn? _ name).or _) = _
  rw [lastDeclaredIn?_filter fun name => !((declarations base).map Declaration.name).contains name]
  rfl

/-! ## Agreement -/

/--
The layers that a program shares with other units give every variable the value
that the defaults give it, unless the unit itself declares the variable.
-/
theorem lastDeclaredIn?_shared_eq_get?_defaults
    {overrides : Overrides}
    {program : Program}
    {defaults : OrderedMap Text}
    {globals text name : Text}
    (assembles : theme.assemble files unit overrides = .ok program)
    (collected : theme.defaults files = .ok defaults)
    (globalsRead : theme.globals files = .ok globals)
    (noMark : globals.head? ≠ some '\ufeff')
    (textRead : theme.unitText files unit = .ok text)
    (notOwn : name ∉ (declarationsOf (splitUnit text).declarations).map Declaration.name) :
    lastDeclaredIn? (program.declarationsIn Layer.shared) name = defaults.get? name := by
  obtain ⟨reading, rfl⟩ := assemble_eq_ok_iff.1 assembles
  obtain ⟨base, units, globals', overall, baseRead, unitsRead, globalsRead', overallRead, value⟩ :=
    get?_of_defaults_eq_ok collected
  obtain rfl := Except.ok.inj (globalsRead.symm.trans globalsRead')
  obtain rfl := Except.ok.inj (globalsRead.symm.trans reading.globalsRead)
  obtain rfl := Except.ok.inj (baseRead.symm.trans reading.baseRead)
  obtain rfl := Except.ok.inj (overallRead.symm.trans reading.overallRead)
  obtain ⟨all, areParts, rfl⟩ := unitDeclarations_eq_ok_iff.1 unitsRead
  obtain ⟨others, areOthers, foreign⟩ := declarationLines_eq_ok_iff.1 reading.foreignRead
  have foreignDeclarations : declarations (List.intercalate ['\n'] reading.foreign) =
      others.flatMap fun part => declarationsOf part.declarations := by
    rw [← foreign, declarations_intercalate fun line => areOthers.isDeclarationLine]
    exact List.filterMap_flatMap
  have globalDeclarations := declarations_intercalate_newDeclarationLines
    ((declarations reading.base).map Declaration.name) noMark
  have layers : (reading.program overrides).declarationsIn Layer.shared =
      declarations reading.base ++ (declarations (List.intercalate ['\n'] reading.foreign) ++
        (declarations (List.intercalate ['\n'] (newDeclarationLines
          ((declarations reading.base).map Declaration.name) reading.globals)) ++
          (declarations reading.overall ++ []))) := rfl
  rw [value, layers, foreignDeclarations, globalDeclarations]
  simp only [lastDeclaredIn?_append, lastDeclaredIn?_nil, Option.none_or]
  rw [lastDeclaredIn?_filter fun name =>
      !((declarations reading.base).map Declaration.name).contains name,
    lastDeclaredIn?_without_unit areParts areOthers textRead notOwn]
  simp only [Option.or_assoc]
  rfl

/-- A global default comes after what another unit declares under its name. -/
theorem lastDeclaredIn?_shared_eq_get?_defaults_sample :
    ∃ program defaults,
      Sample.theme.assemble Sample.files "button" .empty = .ok program ∧
      Sample.theme.defaults Sample.files = .ok defaults ∧
      lastDeclaredIn? (program.declarationsIn Layer.shared) "color" = defaults.get? "color" ∧
      defaults.get? "color" = some "@size" := by
  have assembles : ∃ program,
      Sample.theme.assemble Sample.files "button" .empty = .ok program := ⟨_, rfl⟩
  obtain ⟨program, assembles⟩ := assembles
  have collected : ∃ defaults, Sample.theme.defaults Sample.files = .ok defaults ∧
      defaults.get? "color" = some "@size" := ⟨_, rfl, rfl⟩
  obtain ⟨defaults, collected, value⟩ := collected
  have agree : lastDeclaredIn? (program.declarationsIn Layer.shared) "color" =
      defaults.get? "color" :=
    lastDeclaredIn?_shared_eq_get?_defaults assembles collected rfl (by decide) rfl (by decide)
  exact ⟨program, defaults, assembles, collected, agree, value⟩

end Theme
end LessTheme
