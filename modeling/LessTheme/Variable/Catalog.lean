import LessTheme.Collection.OrderedMap
import LessTheme.Declaration
import LessTheme.Variable.Inference
import LessTheme.Variable.Label

/-!
# Catalogs

The catalog of a unit lists the variables that users may edit, in the order of
their first declaration, and the groups in which they are shown.  Placeholders
and internal helpers are left out.  Of several declarations of one variable
the last decides value, kind and group.
-/

namespace LessTheme

/-- The group of declarations that no group marker precedes. -/
def defaultGroup : Text := "General"

/-- One variable of a unit. -/
structure Variable where
  /-- The name. -/
  name : Text
  /-- The declared value as it is written. -/
  value : Text
  /-- What the value is. -/
  kind : Kind
  /-- The group that the variable is shown in. -/
  group : Text
  /-- The unit that declares the variable. -/
  unit : Text
  /-- The label for users. -/
  label : Text
  deriving DecidableEq, Repr

/-- The variables and groups of a unit. -/
structure Catalog where
  /-- The name of the unit. -/
  unit : Text
  /-- The variables by name. -/
  declared : OrderedMap Variable
  /-- The names in each group, in the order of the groups' first appearance. -/
  groups : OrderedMap (List Text)
  deriving DecidableEq

namespace Catalog

/-- The catalog of a unit that declares nothing. -/
def empty (unit : Text) : Catalog := ⟨unit, .empty, .empty⟩

/-- The variable with the given name. -/
def find? (catalog : Catalog) (name : Text) : Option Variable := catalog.declared.get? name

/-- The declared value of a variable. -/
def value? (catalog : Catalog) (name : Text) : Option Text :=
  (catalog.find? name).map Variable.value

/-- The groups with the variables in them; a name without variable is left out. -/
def grouped (catalog : Catalog) : List (Text × List Variable) :=
  catalog.groups.entries.map fun group => (group.1, group.2.filterMap catalog.find?)

/-- Begins a group anew: it has no members then. -/
def beginGroup (catalog : Catalog) (group : Text) : Catalog :=
  { catalog with groups := catalog.groups.insert group [] }

/-- Takes a variable out of its group. -/
def leaveGroup (catalog : Catalog) (name : Text) : Catalog :=
  match catalog.find? name with
  | some earlier =>
      { catalog with groups := catalog.groups.modify earlier.group (·.filter (· != name)) }
  | none => catalog

/-- Adds a name to a group. -/
def joinGroup (catalog : Catalog) (group name : Text) : Catalog :=
  { catalog with
    groups := catalog.groups.insert group ((catalog.groups.get? group).getD [] ++ [name]) }

/-- Adds a declared variable to a group; an earlier declaration of it is replaced. -/
def declare (catalog : Catalog) (group : Text) (declaration : Declaration) : Catalog :=
  let name := declaration.name
  let placed := (catalog.leaveGroup name).joinGroup group name
  { placed with
    declared := placed.declared.insert name
      ⟨name, declaration.value, inferKind name declaration.value, group, catalog.unit,
        label catalog.unit name⟩ }

/-- Whether a declaration is shown to users. -/
def isShown (declaration : Declaration) : Bool :=
  !isPlaceholder declaration.value && !isInternalName declaration.name

/-- A catalog that is partly read, with the group that declarations belong to. -/
structure Progress where
  /-- The catalog so far. -/
  catalog : Catalog
  /-- The group set last. -/
  group : Text

/-- Reads one line. -/
def Progress.readLine (progress : Progress) (line : Text) : Progress :=
  match groupLabel? line with
  | some group => ⟨progress.catalog.beginGroup group, group⟩
  | none =>
      match declaration? line with
      | some declaration =>
          if isShown declaration then
            { progress with catalog := progress.catalog.declare progress.group declaration }
          else progress
      | none => progress

/-- The catalog of a unit, read from its source. -/
def read (unit source : Text) : Catalog :=
  (source.withoutByteOrderMark.lines.foldl Progress.readLine ⟨empty unit, defaultGroup⟩).catalog

end Catalog
end LessTheme
