import LessTheme.File.Path
import LessTheme.Text.Ascii

/-!
# The layout of a theme

A theme is a folder.  The layout says where below it the shared layers lie and
which folder holds one file for each unit.  Two units are shared layers
themselves: the global defaults and the inverse layer.
-/

namespace LessTheme

/-- Where the layers of a theme lie below its root. -/
structure Layout where
  /-- The file of base declarations. -/
  base : Text := "base/variables.less"
  /-- The file of mixins. -/
  mixins : Text := "mixins/mixins.less"
  /-- The folder with a file for each unit. -/
  components : Text := "components"
  /-- The file of declarations for the whole theme. -/
  theme : Text := "theme/variables.less"
  /-- The unit of global defaults. -/
  globalUnit : Text := "global"
  /-- The unit that is read for its hooks only. -/
  inverseUnit : Text := "inverse"
  deriving DecidableEq, Repr, Inhabited

/-- The extension of unit files. -/
def unitExtension : Text := "less"

/-- Whether a name may be that of a unit. -/
def isUnitName (name : Text) : Bool := !name.isEmpty && name.all isNameChar

namespace Layout

/-- The path of the file of a unit. -/
def unitPath (layout : Layout) (unit : Text) : Text :=
  Path.join layout.components (unit ++ '.' :: unitExtension)

/-- Whether a unit is a shared layer. -/
def isShared (layout : Layout) (unit : Text) : Bool :=
  unit == layout.globalUnit || unit == layout.inverseUnit

end Layout
end LessTheme
