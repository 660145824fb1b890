import LessTheme.Collection.OrderedMap
import LessTheme.Program.Unit
import LessTheme.Theme.Source

/-!
# The defaults of a theme

The declared defaults of all layers, in the order of assembly.  A later layer
changes the value of a variable and not its place.  A global default counts
only if the base layer does not declare the variable.
-/

namespace LessTheme

/-- A declaration as an entry of a map. -/
def Declaration.entry (declaration : Declaration) : Text × Text :=
  (declaration.name, declaration.value)

namespace Theme

/-- The variables that open the files of some units, in order. -/
def unitDeclarations (theme : Theme) (files : FileTree) (units : List Text) :
    Except ThemeError (List Declaration) := do
  let parts ← units.mapM fun unit => (theme.unitText files unit).map splitUnit
  return parts.flatMap fun part => declarationsOf part.declarations

/-- Inserts a declaration, unless its variable is one of the first keys of the defaults. -/
def insertBeyond (first : Nat) (defaults : OrderedMap Text) (declaration : Declaration) :
    OrderedMap Text :=
  if (defaults.indexOf? declaration.name).all (first ≤ ·) then
    defaults.insert declaration.name declaration.value
  else defaults

/-- The declared defaults of all variables. -/
def defaults (theme : Theme) (files : FileTree) : Except ThemeError (OrderedMap Text) := do
  let base := OrderedMap.ofList ((declarations (← theme.base files)).map Declaration.entry)
  let units ← theme.unitDeclarations files (theme.units files)
  let withUnits := base.insertAll (units.map Declaration.entry)
  let globals := declarations (← theme.globals files)
  let withGlobals := globals.foldl (insertBeyond base.size) withUnits
  let overall := declarations (← theme.overall files)
  return withGlobals.insertAll (overall.map Declaration.entry)

end Theme
end LessTheme
