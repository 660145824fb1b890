import Mathlib.Data.List.Induction
import LessTheme.Program.Defaults
import LessTheme.Variable.Catalog
import LessTheme.Proofs.Collection.OrderedMap
import LessTheme.Proofs.Declaration.Line

/-!
# Catalogs read line by line

A line begins a group, declares a variable that is shown, or says nothing.  So
a catalog lists the shown declarations of its source, each name once, and every
variable is made from the last shown declaration of its name and the group that
was set last before it.
-/

namespace LessTheme

/-- No line both sets a group and declares a variable. -/
theorem declaration?_eq_none_of_groupLabel?_eq_some
    {line group : Text}
    (begins : groupLabel? line = some group) :
    declaration? line = none := by
  rw [Option.eq_none_iff_forall_ne_some]
  intro found declares
  obtain ⟨rest, sign⟩ := exists_trimStart_eq_sign_cons (Option.isSome_of_eq_some declares)
  have noComment : blockCommentBody? ('@' :: rest) = none := by
    rw [blockCommentBody?]
    split
    case h_1 opened =>
      have isPrefix : Text.trimEnd ('@' :: rest) <+: '@' :: rest := by
        rw [← List.reverse_suffix, Text.trimEnd, Text.dropEndWhile, List.reverse_reverse]
        exact List.dropWhile_suffix _
      rw [opened] at isPrefix
      exact absurd (List.cons_prefix_cons.1 isPrefix).1 (by decide)
    case h_2 => rfl
  rw [groupLabel?, sign] at begins
  simp [noComment] at begins

namespace Catalog

/-! ## Lines -/

/-- The declaration of a line, if it is shown to users. -/
def shown? (line : Text) : Option Declaration := (declaration? line).filter isShown

theorem shown?_eq_some_iff
    {line : Text}
    {found : Declaration} :
    shown? line = some found ↔ declaration? line = some found ∧ isShown found = true :=
  Option.filter_eq_some_iff

/-- The label of the last group marker among some lines, or else the default group. -/
def lastGroup (lines : List Text) : Text :=
  ((lines.filterMap groupLabel?).getLast?).getD defaultGroup

/-- The variable that a declaration of a unit makes in a group. -/
def variableOf (unit group : Text) (found : Declaration) : Variable :=
  ⟨found.name, found.value, inferKind found.name found.value, group, unit, label unit found.name⟩

/-- What is read of a unit after some lines of its source. -/
def readLines (unit : Text) (lines : List Text) : Progress :=
  lines.foldl Progress.readLine ⟨empty unit, defaultGroup⟩

theorem read_eq (unit source : Text) :
    read unit source = (readLines unit source.withoutByteOrderMark.lines).catalog := rfl

theorem readLines_append_singleton
    (unit : Text)
    (lines : List Text)
    (line : Text) :
    readLines unit (lines ++ [line]) = (readLines unit lines).readLine line := by
  rw [readLines, List.foldl_append]
  rfl

/-- What one line does to a catalog. -/
inductive LineStep (progress : Progress) (line : Text) : Progress → Prop
  | marker (group : Text) (begins : groupLabel? line = some group) (unshown : shown? line = none) :
      LineStep progress line ⟨progress.catalog.beginGroup group, group⟩
  | shown (found : Declaration) (unmarked : groupLabel? line = none)
      (declares : shown? line = some found) :
      LineStep progress line ⟨progress.catalog.declare progress.group found, progress.group⟩
  | other (unmarked : groupLabel? line = none) (unshown : shown? line = none) :
      LineStep progress line progress

theorem lineStep_readLine
    (progress : Progress)
    (line : Text) :
    LineStep progress line (progress.readLine line) := by
  unfold Progress.readLine
  split
  case h_1 group begins =>
    refine .marker group begins ?_
    rw [shown?, declaration?_eq_none_of_groupLabel?_eq_some begins]
    rfl
  case h_2 unmarked =>
    split
    case h_1 found declares =>
      split
      case isTrue isShown => exact .shown found unmarked (by simp [shown?, declares, isShown])
      case isFalse hidden => exact .other unmarked (by simp [shown?, declares, hidden])
    case h_2 undeclared => exact .other unmarked (by simp [shown?, undeclared])

/-- One more line makes one step. -/
theorem exists_lineStep
    (unit : Text)
    (lines : List Text)
    (line : Text) :
    ∃ next, readLines unit (lines ++ [line]) = next ∧
      LineStep (readLines unit lines) line next :=
  ⟨_, readLines_append_singleton unit lines line, lineStep_readLine _ line⟩

/-! ## The parts of a catalog that a declaration changes -/

section Declare

variable (catalog : Catalog)

@[simp] theorem leaveGroup_declared (name : Text) :
    (catalog.leaveGroup name).declared = catalog.declared := by
  unfold leaveGroup
  split <;> rfl

@[simp] theorem leaveGroup_unit (name : Text) :
    (catalog.leaveGroup name).unit = catalog.unit := by
  unfold leaveGroup
  split <;> rfl

theorem declared_declare
    (group : Text)
    (found : Declaration) :
    (catalog.declare group found).declared =
      catalog.declared.insert found.name (variableOf catalog.unit group found) := by
  rw [declare, joinGroup, leaveGroup_declared]
  rfl

theorem unit_declare
    (group : Text)
    (found : Declaration) :
    (catalog.declare group found).unit = catalog.unit :=
  leaveGroup_unit catalog found.name

theorem find?_declare
    (group name : Text)
    (found : Declaration) :
    (catalog.declare group found).find? name =
      if found.name = name then some (variableOf catalog.unit group found)
      else catalog.find? name := by
  rw [find?, declared_declare, OrderedMap.get?_insert]
  rfl

end Declare

/-! ## All lines -/

@[simp] theorem unit_readLines
    (unit : Text)
    (lines : List Text) :
    (readLines unit lines).catalog.unit = unit := by
  induction lines using List.reverseRecOn with
  | nil => rfl
  | append_singleton lines line inductionHypothesis =>
      obtain ⟨next, isNext, step⟩ := exists_lineStep unit lines line
      rw [isNext]
      cases step with
      | marker | other => exact inductionHypothesis
      | shown found => exact (unit_declare _ _ found).trans inductionHypothesis

theorem lastGroup_append_singleton
    (lines : List Text)
    (line : Text) :
    lastGroup (lines ++ [line]) = (groupLabel? line).getD (lastGroup lines) := by
  rw [lastGroup, List.filterMap_append, List.getLast?_append]
  cases isLabel : groupLabel? line with
  | none => simp [isLabel, lastGroup]
  | some group => simp [isLabel]

@[simp] theorem group_readLines
    (unit : Text)
    (lines : List Text) :
    (readLines unit lines).group = lastGroup lines := by
  induction lines using List.reverseRecOn with
  | nil => rfl
  | append_singleton lines line inductionHypothesis =>
      obtain ⟨next, isNext, step⟩ := exists_lineStep unit lines line
      rw [isNext, lastGroup_append_singleton]
      cases step with
      | marker group begins => rw [begins, Option.getD_some]
      | shown _ unmarked | other unmarked =>
          rw [unmarked, Option.getD_none]
          exact inductionHypothesis

/-- The values of a catalog are those of the shown declarations, inserted one after the other. -/
theorem mapValues_declared_readLines
    (unit : Text)
    (lines : List Text) :
    ((readLines unit lines).catalog.declared.mapValues fun _ => Variable.value) =
      OrderedMap.ofList ((lines.filterMap shown?).map Declaration.entry) := by
  induction lines using List.reverseRecOn with
  | nil => rfl
  | append_singleton lines line inductionHypothesis =>
      obtain ⟨next, isNext, step⟩ := exists_lineStep unit lines line
      rw [isNext, List.filterMap_append]
      cases step with
      | marker _ _ unshown | other _ unshown =>
          have noEntry : [line].filterMap shown? = [] := by simp [unshown]
          rw [noEntry, List.append_nil]
          exact inductionHypothesis
      | shown found _ declares =>
          have lastEntry : ([line].filterMap shown?).map Declaration.entry = [found.entry] := by
            simp [declares]
          rw [declared_declare, OrderedMap.mapValues_insert, inductionHypothesis, List.map_append,
            lastEntry, OrderedMap.ofList_append_singleton]
          rfl

/-! ## The last declaration of a variable -/

/-- A line declares a variable that is shown, and no line behind it declares the variable again. -/
structure IsLastShown
    (lines before : List Text)
    (found : Declaration)
    (after : List Text) : Prop where
  exists_line : ∃ line, lines = before ++ line :: after ∧ shown? line = some found
  isLast : ∀ later ∈ after, ∀ other, shown? later = some other → other.name ≠ found.name

section LastShown

variable {lines before after : List Text} {line : Text} {found : Declaration}

theorem isLastShown_self (declares : shown? line = some found) :
    IsLastShown (lines ++ [line]) lines found [] :=
  ⟨⟨line, rfl, declares⟩, nofun⟩

theorem IsLastShown.append_singleton
    (isLast : IsLastShown lines before found after)
    (declaresOther : ∀ other, shown? line = some other → other.name ≠ found.name) :
    IsLastShown (lines ++ [line]) before found (after ++ [line]) := by
  obtain ⟨⟨place, rfl, declares⟩, isLast⟩ := isLast
  refine ⟨⟨place, by simp, declares⟩, fun later member => ?_⟩
  obtain earlier | here := List.mem_append.1 member
  · exact isLast later earlier
  · rwa [List.mem_singleton.1 here]

/-- The last shown declaration stands in the last line or before it. -/
theorem IsLastShown.eq_or_exists
    (isLast : IsLastShown (lines ++ [line]) before found after) :
    (before = lines ∧ after = [] ∧ shown? line = some found) ∨
      ∃ between, after = between ++ [line] ∧ IsLastShown lines before found between ∧
        ∀ other, shown? line = some other → other.name ≠ found.name := by
  obtain ⟨⟨place, split, declares⟩, isLast⟩ := isLast
  obtain rfl | ⟨between, last, rfl⟩ := List.eq_nil_or_concat after
  · obtain ⟨rfl, same⟩ := List.append_inj' split rfl
    obtain rfl := List.singleton_inj.1 same
    exact .inl ⟨rfl, rfl, declares⟩
  · rw [List.concat_eq_append] at split isLast ⊢
    rw [← List.cons_append, ← List.append_assoc] at split
    obtain ⟨rfl, same⟩ := List.append_inj' split rfl
    obtain rfl := List.singleton_inj.1 same
    refine .inr ⟨between, rfl, ⟨⟨place, rfl, declares⟩, fun later member => ?_⟩, ?_⟩
    · exact isLast later (List.mem_append_left _ member)
    · exact isLast line List.mem_append_cons_self

end LastShown

/-- A variable is made from the last shown declaration of its name. -/
theorem exists_isLastShown_of_find?_readLines
    {unit : Text}
    {lines : List Text}
    {name : Text}
    {declared : Variable}
    (isFound : (readLines unit lines).catalog.find? name = some declared) :
    ∃ before found after, IsLastShown lines before found after ∧ found.name = name ∧
      declared = variableOf unit (lastGroup before) found := by
  -- By induction on the lines from the last one: a line that declares another variable, or none,
  -- stands behind the declaration that was the last so far.
  induction lines using List.reverseRecOn with
  | nil => contradiction
  | append_singleton lines line inductionHypothesis =>
      obtain ⟨next, isNext, step⟩ := exists_lineStep unit lines line
      rw [isNext] at isFound
      cases step with
      | marker _ _ unshown | other _ unshown =>
          obtain ⟨before, found, after, isLast, named, made⟩ := inductionHypothesis isFound
          exact ⟨before, found, after ++ [line],
            isLast.append_singleton (by simp [unshown]), named, made⟩
      | shown found _ declares =>
          rw [find?_declare, unit_readLines, group_readLines] at isFound
          split at isFound
          case isTrue named =>
            exact ⟨lines, found, [], isLastShown_self declares, named,
              (Option.some.inj isFound).symm⟩
          case isFalse different =>
            obtain ⟨before, earlier, after, isLast, named, made⟩ := inductionHypothesis isFound
            refine ⟨before, earlier, after ++ [line], isLast.append_singleton ?_, named, made⟩
            intro other isOther
            obtain rfl := Option.some.inj (declares.symm.trans isOther)
            rwa [named]

/--
A catalog lists the shown declarations of its source, every name at the place of
its first one and with the value of its last one.  Kind, label and group of a
variable are those of that last declaration: the group is the one that was set
last before it.
-/
theorem declared_read (unit source : Text) :
    ((read unit source).declared.entries.map fun entry => (entry.1, entry.2.value)) =
        lastValues (((declarations source).filter isShown).map Declaration.entry) ∧
      ∀ name declared, (read unit source).find? name = some declared →
        ∃ before found after,
          IsLastShown source.withoutByteOrderMark.lines before found after ∧ found.name = name ∧
            declared = variableOf unit (lastGroup before) found := by
  constructor
  · have shownLines : (declarations source).filter isShown =
        source.withoutByteOrderMark.lines.filterMap shown? :=
      List.filter_filterMap
    have values := mapValues_declared_readLines unit source.withoutByteOrderMark.lines
    rw [← shownLines] at values
    calc (read unit source).declared.entries.map (fun entry => (entry.1, entry.2.value))
        = ((read unit source).declared.mapValues fun _ => Variable.value).entries := rfl
      _ = (OrderedMap.ofList (((declarations source).filter isShown).map
            Declaration.entry)).entries := by rw [read_eq, values]
      _ = _ := OrderedMap.entries_ofList _
  · intro name declared isFound
    exact exists_isLastShown_of_find?_readLines isFound

end Catalog

namespace Sample

/-- A unit that declares a variable again in another group, and once more with a placeholder. -/
def regroupedUnit : Text :=
  "@x-a: 1px;\n// @group: One\n@x-b: 2px;\n@x-a: #fff;\n@x-a: '';\n// @group: Two\n@_x: 3px;"

end Sample

/-- The last declaration that is no placeholder counts, in the group that was set before it. -/
theorem Catalog.declared_read_regrouped :
    (Catalog.read "x" Sample.regroupedUnit).find? "x-a" =
        some ⟨"x-a", "#fff", .color, "One", "x", "A"⟩ ∧
      ∃ before found after,
        Catalog.IsLastShown (Text.lines Sample.regroupedUnit) before found after ∧
          found.name = "x-a" ∧
          (⟨"x-a", "#fff", .color, "One", "x", "A"⟩ : Variable) =
            Catalog.variableOf "x" (Catalog.lastGroup before) found := by
  have isFound : (Catalog.read "x" Sample.regroupedUnit).find? "x-a" =
      some ⟨"x-a", "#fff", .color, "One", "x", "A"⟩ := by decide +kernel
  exact ⟨isFound, (Catalog.declared_read "x" Sample.regroupedUnit).2 _ _ isFound⟩

/-!
## Catalogs that are read

A catalog that is read from a source lists every variable under its own name,
and the name consists of name characters.
-/

theorem clean_of_declaration?_eq_some
    {line : Text}
    {found : Declaration}
    (declares : declaration? line = some found) :
    ∀ char ∈ found.name, isNameChar char = true := by
  unfold declaration? at declares
  split at declares
  · split at declares
    · obtain ⟨value, -, rfl⟩ := Option.map_eq_some_iff.1 declares
      exact fun char member => List.mem_takeWhile_imp member
    · contradiction
  · contradiction

theorem trim_value_of_declaration?_eq_some
    {line : Text}
    {found : Declaration}
    (declares : declaration? line = some found) :
    found.value.trim = found.value := by
  unfold declaration? at declares
  split at declares
  · split at declares
    · obtain ⟨value, isValue, rfl⟩ := Option.map_eq_some_iff.1 declares
      unfold declaredValue? at isValue
      split at isValue
      · split at isValue
        · obtain ⟨-, isTrimmed⟩ := Option.ite_none_right_eq_some.1 isValue
          rw [← Option.some.inj isTrimmed]
          exact Text.trim_trim _
        · contradiction
      · contradiction
    · contradiction
  · contradiction

namespace Catalog

/-- Every variable is listed under its name, which is one that can be written. -/
structure IsNamed (catalog : Catalog) : Prop where
  named : ∀ entry ∈ catalog.declared.entries, entry.2.name = entry.1
  clean : ∀ entry ∈ catalog.declared.entries, ∀ char ∈ entry.1, isNameChar char = true

/-- Every variable has its name and its value from a line that declares it. -/
def IsDeclared (catalog : Catalog) : Prop :=
  ∀ entry ∈ catalog.declared.entries, ∃ line found, declaration? line = some found ∧
    entry.1 = found.name ∧ entry.2.name = found.name ∧ entry.2.value = found.value

theorem isDeclared_read
    (unit source : Text) :
    (read unit source).IsDeclared := by
  intro entry member
  obtain ⟨before, found, after, isLast, named, made⟩ :=
    exists_isLastShown_of_find?_readLines (OrderedMap.get?_of_mem_entries member)
  obtain ⟨line, -, shown⟩ := isLast.exists_line
  rw [made]
  exact ⟨line, found, (shown?_eq_some_iff.1 shown).1, named.symm, rfl, rfl⟩

@[simp] theorem read_unit
    (unit source : Text) :
    (read unit source).unit = unit :=
  unit_readLines unit _

theorem isNamed_read
    (unit source : Text) :
    (read unit source).IsNamed := by
  constructor
  · intro entry member
    obtain ⟨line, found, -, key, name, -⟩ := isDeclared_read unit source entry member
    rw [key, name]
  · intro entry member
    obtain ⟨line, found, declares, key, -, -⟩ := isDeclared_read unit source entry member
    rw [key]
    exact clean_of_declaration?_eq_some declares

/-- A declared value has no white space around it. -/
theorem trim_of_value?_read_eq_some
    {unit source name value : Text}
    (isValue : (read unit source).value? name = some value) :
    value.trim = value := by
  obtain ⟨declared, found, rfl⟩ := Option.map_eq_some_iff.1 isValue
  obtain ⟨line, found, declares, -, -, written⟩ :=
    isDeclared_read unit source _ (OrderedMap.mem_entries_of_get?_eq_some found)
  rw [written]
  exact trim_value_of_declaration?_eq_some declares

theorem cleanName_of_find?_eq_some
    {catalog : Catalog}
    (isNamed : catalog.IsNamed)
    {name : Text}
    {found : Variable}
    (declared : catalog.find? name = some found) :
    found.name = name ∧ ∀ char ∈ name, isNameChar char = true := by
  have member := OrderedMap.mem_entries_of_get?_eq_some declared
  exact ⟨isNamed.named _ member, isNamed.clean _ member⟩

end Catalog
end LessTheme
