import LessTheme.Config.Section
import LessTheme.File.Tree
import LessTheme.Program.Fallback
import LessTheme.Theme.Error
import LessTheme.Theme.Layout
import LessTheme.Toml.Document

/-!
# Configuration

A theme may have a configuration that changes its layout, the fallback
properties and the place of the stored overrides:

    [layout]
    components = "src/components"

    [fallback]
    variables = ["global-font-size"]
    max_passes = 4

    [store]
    path = "state/overrides.json"

Every section and every field may be left out.
-/

namespace LessTheme

/-- The configuration of a theme. -/
structure Config where
  /-- Where the layers lie. -/
  layout : Layout := {}
  /-- The variables of the fallback properties, unless the built-in ones are meant. -/
  fallbackNames : Option (List Text) := none
  /-- The limit of resolution passes. -/
  passes : Nat := Reference.defaultPasses
  /-- The path of the stored overrides. -/
  storePath : Text := "overrides.json"
  deriving DecidableEq, Repr, Inhabited

namespace Config

/-- The name of the file that holds the configuration of a theme. -/
def fileName : Text := "themeweave.toml"

/-! ## Fields -/

/-- A field of the layout that is a string. -/
def layoutField (name : Text) (set : Layout → Text → Layout) : Field Layout :=
  (name, fun layout node => (text node).map (set layout))

/-- The fields of the layout. -/
def layoutFields : List (Field Layout) :=
  [layoutField "base" fun layout value => { layout with base := value },
    layoutField "mixins" fun layout value => { layout with mixins := value },
    layoutField "components" fun layout value => { layout with components := value },
    layoutField "theme" fun layout value => { layout with theme := value },
    layoutField "global_unit" fun layout value => { layout with globalUnit := value },
    layoutField "inverse_unit" fun layout value => { layout with inverseUnit := value }]

/-- The fields of the fallback section. -/
def fallbackFields : List (Field Config) :=
  [("variables", fun config node =>
      (texts node).map fun names => { config with fallbackNames := some names }),
    ("max_passes", fun config node =>
      (count node).map fun passes => { config with passes := passes })]

/-- The fields of the store section. -/
def storeFields : List (Field Config) :=
  [("path", fun config node => (text node).map fun path => { config with storePath := path })]

/-- The sections of a configuration. -/
def sections : List (Field Config) :=
  [("layout", fun config node =>
      (fromNode layoutFields {} node).map fun layout => { config with layout := layout }),
    ("fallback", fromNode fallbackFields),
    ("store", fromNode storeFields)]

/-! ## Reading -/

/-- Refuses a configuration whose values make no sense. -/
def check (config : Config) : Accepted Config :=
  if config.passes = 0 then .error .noPasses
  else if config.layout.globalUnit = [] then .error .noGlobalUnit
  else .ok config

/-- The configuration that a text writes. -/
def accept (text : Text) : Accepted Config :=
  match Toml.read? text with
  | none => .error .unreadable
  | some entries => (fromEntries sections {} entries).bind check

/-- The configuration that a text writes; the source is named in errors. -/
def read (source : Option Text) (text : Text) : Except ThemeError Config :=
  (accept text).mapError (.config source)

/-- The configuration in a file; without a file it is the default. -/
def load (files : FileTree) (path : Text) : Except ThemeError Config := do
  if files.isFile path then read (some path) (← (files.readText path).mapError .ofFile)
  else return {}

/-! ## Use -/

/-- How the fallback properties are made. -/
def fallback (config : Config) : Fallback :=
  ⟨config.fallbackNames.getD Fallback.defaultVariables, config.passes⟩

/-- The path of the stored overrides of a theme. -/
def storeOf (config : Config) (root : Text) : Text := Path.join root config.storePath

end Config
end LessTheme
