import LessTheme.Override.Layer
import LessTheme.Program.Hook
import LessTheme.Program.Layer
import LessTheme.Program.Unit
import LessTheme.Theme.Source

/-!
# Assembling programs

The program of a unit is put together from all layers of the theme.  The
declarations of all other units come before those of the theme, those of the
unit itself come after them, and the overrides come last.
-/

namespace LessTheme

namespace Hook

/-- The empty definitions of some hooks, in order. -/
def stubs (names : Names) : Text := List.intercalate ['\n'] (names.keys.map stub)

end Hook

/-- The lines that declare variables beyond the given ones, trimmed. -/
def newDeclarationLines (known : List Text) (source : Text) : List Text :=
  let declaresNew := fun line =>
    (declaration? line).any fun declaration => !known.contains declaration.name
  (source.lines.filter declaresNew).map Text.trim

namespace Theme

/-- The declaration lines of some units, in order. -/
def declarationLines (theme : Theme) (files : FileTree) (units : List Text) :
    Except ThemeError (List Text) := do
  let parts ← units.mapM fun unit => (theme.unitText files unit).map splitUnit
  return parts.flatMap UnitParts.declarations

/-- The program of a unit with the given overrides. -/
def assemble (theme : Theme) (files : FileTree) (unit : Text) (overrides : Overrides) :
    Except ThemeError Program := do
  let own := splitUnit (← theme.unitText files unit)
  let base ← theme.base files
  let mixins ← theme.mixins files
  let overall ← theme.overall files
  let foreign ← theme.declarationLines files ((theme.units files).filter (· != unit))
  let globals ← theme.globals files
  let inverse ← theme.inverse files
  let baseNames := (declarations base).map Declaration.name
  let hooks := (Hook.names own.body).insertAll (Hook.names inverse).entries
  return ⟨unit, [
    (.base, base),
    (.mixins, mixins),
    (.crossUnit, List.intercalate ['\n'] foreign),
    (.globalDefaults, List.intercalate ['\n'] (newDeclarationLines baseNames globals)),
    (.theme, overall),
    (.unitDeclarations, List.intercalate ['\n'] own.declarations),
    (.hookStubs, Hook.stubs hooks),
    (.ruleBody, own.body),
    (.overrides, overrides.layer)]⟩

end Theme
end LessTheme
