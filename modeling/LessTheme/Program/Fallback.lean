import LessTheme.Arithmetic.Evaluation
import LessTheme.Override.Lookup
import LessTheme.Reference.Resolution

/-!
# Custom properties without a compiler

Where no compiler is at hand, the key values of a theme are still given out as
custom properties: references are resolved, arithmetic is evaluated, and the
values of a list of variables are written into one block.
-/

namespace LessTheme

/-- Which variables become custom properties, and how far references are resolved. -/
structure Fallback where
  /-- The names of the variables, in the order of the properties. -/
  names : List Text
  /-- The limit of resolution passes. -/
  passes : Nat
  deriving DecidableEq, Repr

namespace Fallback

/-- The built-in variables of fonts. -/
def fontVariables : List Text :=
  ["global-font-family", "global-font-size", "global-line-height", "global-xlarge-font-size",
    "global-large-font-size", "global-medium-font-size", "global-small-font-size"]

/-- The built-in variables of colours. -/
def colorVariables : List Text :=
  ["global-color", "global-emphasis-color", "global-muted-color", "global-link-color",
    "global-link-hover-color", "global-inverse-color", "global-background",
    "global-muted-background", "global-primary-background", "global-secondary-background",
    "global-success-background", "global-warning-background", "global-danger-background"]

/-- The built-in variables of borders, distances and shadows. -/
def boxVariables : List Text :=
  ["global-border-width", "global-border", "global-margin", "global-small-margin",
    "global-medium-margin", "global-large-margin", "global-gutter", "global-small-gutter",
    "global-medium-gutter", "global-large-gutter", "global-control-height",
    "global-small-box-shadow", "global-medium-box-shadow", "global-large-box-shadow"]

/-- The variables that are given out unless a theme names its own. -/
def defaultVariables : List Text := fontVariables ++ colorVariables ++ boxVariables

/-- The defaults with the overrides that are not blank on top. -/
def merged (defaults : OrderedMap Text) (overrides : Overrides) : OrderedMap Text :=
  defaults.insertAll
    ((overrides.entries.filter fun entry => !entry.2.isBlank).map fun entry =>
      (entry.1, entry.2.trim))

/-- The property of a resolved value; none if it still holds a reference or is blank. -/
def propertyValue? (resolved : Text) : Option Text :=
  let value := Arithmetic.evaluate resolved
  if value.contains '@' || value.isBlank then none else some value.trim

/-- The names and values of the properties, in order. -/
def values (fallback : Fallback) (defaults : OrderedMap Text) (overrides : Overrides) :
    List (Text × Text) :=
  let resolved := Reference.resolveAll (merged defaults overrides) fallback.passes
  fallback.names.eraseDups.filterMap fun name =>
    ((resolved.get? name).bind propertyValue?).map fun value => (name, value)

/-- A custom property on a line. -/
def propertyLine (name value : Text) : Text := "  --" ++ name ++ ": " ++ value ++ ";\n"

/-- The block of custom properties. -/
def css (fallback : Fallback) (defaults : OrderedMap Text) (overrides : Overrides) : Text :=
  ":root \x7b\n" ++
    ((fallback.values defaults overrides).flatMap fun entry => propertyLine entry.1 entry.2) ++
    "\x7d\n"

/-- The built-in fallback. -/
def builtIn : Fallback := ⟨defaultVariables, Reference.defaultPasses⟩

end Fallback
end LessTheme
