import LessTheme.Text.WhiteSpace

/-!
# Layers of a program

The program of a unit is made of layers in a fixed order.  The last
declaration of a variable wins, so the order decides what overrides what.
-/

namespace LessTheme

/-- A layer of a program. -/
inductive Layer
  | base
  | mixins
  | crossUnit
  | globalDefaults
  | theme
  | unitDeclarations
  | hookStubs
  | ruleBody
  | overrides
  deriving DecidableEq, Repr

namespace Layer

/-- The layers in the order in which they are written. -/
def order : List Layer :=
  [.base, .mixins, .crossUnit, .globalDefaults, .theme, .unitDeclarations, .hookStubs, .ruleBody,
    .overrides]

/-- The written name of a layer. -/
def name : Layer → Text
  | .base => "base"
  | .mixins => "mixins"
  | .crossUnit => "cross-unit"
  | .globalDefaults => "global-defaults"
  | .theme => "theme"
  | .unitDeclarations => "unit-declarations"
  | .hookStubs => "hook-stubs"
  | .ruleBody => "rule-body"
  | .overrides => "overrides"

end Layer

/-- The program of a unit, divided into layers. -/
structure Program where
  /-- The unit. -/
  unit : Text
  /-- The text of each layer, in order. -/
  layers : List (Layer × Text)
  deriving DecidableEq, Repr

namespace Program

/-- The text of a layer. -/
def layer? (program : Program) (layer : Layer) : Option Text := program.layers.lookup layer

/-- A text without line feeds at its ends. -/
def trimLineFeeds (text : Text) : Text := text.dropAround (· == '\n')

/-- The whole program: the layers that are not blank, with a blank line between. -/
def source (program : Program) : Text :=
  let written := (program.layers.map fun layer => trimLineFeeds layer.2).filter fun text =>
    !text.isBlank
  if written.isEmpty then [] else List.intercalate "\n\n" written ++ ['\n']

/-- A layer under a comment that names it. -/
def labelled (layer : Layer) (text : Text) : Text :=
  let written := trimLineFeeds text
  "/* layer: " ++ layer.name ++ " */\n" ++ (if written.isEmpty then [] else written ++ ['\n']) ++
    ['\n']

/-- The whole program, every layer under a comment that names it. -/
def labelledSource (program : Program) : Text :=
  program.layers.flatMap fun layer => labelled layer.1 layer.2

end Program
end LessTheme
