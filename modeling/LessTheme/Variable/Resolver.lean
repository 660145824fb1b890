import LessTheme.Override.Lookup
import LessTheme.Reference.Fragment
import LessTheme.Variable.Catalog

/-!
# Following chains of references

For the listing of a unit, each variable is followed through values that are
one reference each.  A link is looked up in the overrides, then among the
declarations of the unit, then among the global defaults.  A budget of links
bounds the chain.
-/

namespace LessTheme

/-- How many links are followed unless another budget is given. -/
def defaultBudget : Nat := 10

/-- A variable of a unit with its effective and its resolved value. -/
structure ResolvedVariable where
  /-- The variable as it is declared. -/
  declared : Variable
  /-- The override, or else the declared value. -/
  value : Text
  /-- Where the chain of references from the variable ends. -/
  resolved : Text
  /-- Whether there is an override. -/
  isOverridden : Bool
  deriving DecidableEq, Repr

/-- The global defaults and the overrides that values are looked up in. -/
structure Resolver where
  /-- The catalog of global defaults. -/
  globals : Catalog
  /-- The overrides of all units. -/
  overrides : OverrideLookup

namespace Resolver

/-- The value of a name, as the unit of a catalog sees it. -/
def value? (resolver : Resolver) (catalog : Catalog) (name : Text) : Option Text :=
  ((resolver.overrides.get? catalog.unit name).or (catalog.value? name)).or
    (resolver.globals.value? name)

/-- The untrimmed value at the end of a chain of references, within a budget of links. -/
def chase (resolver : Resolver) (catalog : Catalog) : Nat → Text → Text
  | 0, value => value
  | budget + 1, value =>
      match (Reference.bareName? value).bind (resolver.value? catalog) with
      | some next => chase resolver catalog budget next
      | none => value

/-- The value at the end of a chain of references, within a budget of links. -/
def follow (resolver : Resolver) (catalog : Catalog) (value : Text) (budget : Nat) : Text :=
  (resolver.chase catalog budget value).trim

/-- The resolved value of a name; an unknown name stays a reference. -/
def resolve (resolver : Resolver) (catalog : Catalog) (name : Text) (budget : Nat) : Text :=
  match resolver.value? catalog name with
  | some value => resolver.follow catalog value budget
  | none => '@' :: name

/-- A variable of a catalog with its effective and its resolved value. -/
def resolveVariable (resolver : Resolver) (catalog : Catalog) (declared : Variable) :
    ResolvedVariable :=
  let override := resolver.overrides.get? catalog.unit declared.name
  ⟨declared, override.getD declared.value,
    resolver.resolve catalog declared.name defaultBudget, override.isSome⟩

/-- Every variable of a catalog with its effective and its resolved value. -/
def resolveCatalog (resolver : Resolver) (catalog : Catalog) : List ResolvedVariable :=
  catalog.declared.values.map (resolver.resolveVariable catalog)

end Resolver
end LessTheme
