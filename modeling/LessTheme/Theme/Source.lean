import LessTheme.File.Tree
import LessTheme.Theme.Error
import LessTheme.Theme.Layout

/-!
# The sources of a theme

The layers of a theme are read from a file tree.  A shared layer that is
missing is no error; a unit that is missing is one.
-/

namespace LessTheme

/-- A theme: a folder and the layout of what lies in it. -/
structure Theme where
  /-- The path of the folder. -/
  root : Text
  /-- Where the layers lie. -/
  layout : Layout
  deriving DecidableEq, Repr

namespace Theme

/-- The path of the file of a unit. -/
def unitPath (theme : Theme) (unit : Text) : Text :=
  Path.join theme.root (theme.layout.unitPath unit)

/-- The path of the folder that holds a file for each unit. -/
def unitFolder (theme : Theme) : Text := Path.join theme.root theme.layout.components

/-- The paths of the shared layers. -/
def layerPaths (theme : Theme) : List Text :=
  let layout := theme.layout
  [layout.base, layout.mixins, layout.theme, layout.unitPath layout.globalUnit,
    layout.unitPath layout.inverseUnit].map (Path.join theme.root)

/-- The text of a shared layer, if its file exists. -/
def layerText? (theme : Theme) (files : FileTree) (path : Text) :
    Except ThemeError (Option Text) :=
  let path := Path.join theme.root path
  if files.isFile path then ((files.readText path).map some).mapError .ofFile
  else .ok none

/-- The text of a shared layer; a missing layer is empty. -/
def layerText (theme : Theme) (files : FileTree) (path : Text) : Except ThemeError Text :=
  (theme.layerText? files path).map fun text => text.getD []

/-- The base declarations. -/
def base (theme : Theme) (files : FileTree) : Except ThemeError Text :=
  theme.layerText files theme.layout.base

/-- The mixins. -/
def mixins (theme : Theme) (files : FileTree) : Except ThemeError Text :=
  theme.layerText files theme.layout.mixins

/-- The declarations for the whole theme. -/
def overall (theme : Theme) (files : FileTree) : Except ThemeError Text :=
  theme.layerText files theme.layout.theme

/-- The global defaults. -/
def globals (theme : Theme) (files : FileTree) : Except ThemeError Text :=
  theme.layerText files (theme.layout.unitPath theme.layout.globalUnit)

/-- The inverse layer. -/
def inverse (theme : Theme) (files : FileTree) : Except ThemeError Text :=
  theme.layerText files (theme.layout.unitPath theme.layout.inverseUnit)

/-- The text of a unit. -/
def unitText (theme : Theme) (files : FileTree) (unit : Text) : Except ThemeError Text :=
  let path := theme.unitPath unit
  if isUnitName unit && files.isFile path then (files.readText path).mapError .ofFile
  else .error (.unitNotFound unit path)

/-- Whether a name is that of a unit that can be compiled. -/
def isCompilable (theme : Theme) (name : Text) : Bool :=
  isUnitName name && !theme.layout.isShared name

/-- The units that can be compiled, in order. -/
def units (theme : Theme) (files : FileTree) : List Text :=
  let names := (files.entries theme.unitFolder).filterMap (Path.stem? unitExtension)
  (SortedMap.ofList ((names.filter theme.isCompilable).map fun name => (name, ()))).keys

end Theme
end LessTheme
