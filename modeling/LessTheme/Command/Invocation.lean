import LessTheme.Text.Basic

/-!
# Commands

What a user may ask for on the command line, and the options that all commands
share.
-/

namespace LessTheme

/-- The options that all commands share. -/
structure Options where
  /-- The folder of the theme. -/
  root : Text := "."
  /-- The configuration, if it is not that of the theme. -/
  config : Option Text := none
  /-- The file of overrides, if it is not the configured one. -/
  store : Option Text := none
  deriving DecidableEq, Repr

/-- A command. -/
inductive Command
  /-- Lists the units. -/
  | units
  /-- Shows the variables of a unit, as JSON if asked for. -/
  | inspect (unit : Text) (asJson : Bool)
  /-- Resolves a variable as a unit sees it. -/
  | resolve (unit name : Text)
  /-- Prints the program of a unit, its layers labelled if asked for. -/
  | assemble (unit : Text) (labelled : Bool)
  /-- Prints the lowered program of a unit, as JSON if asked for. -/
  | preprocess (unit : Text) (asJson : Bool)
  /-- Compiles a unit under unsaved overrides, into a file if one is given. -/
  | compile (unit : Text) (target : Option Text) (assignments : List Text) (withoutFallback : Bool)
  /-- Prints the fallback properties, into a file if one is given. -/
  | fallback (target : Option Text)
  /-- Saves overrides of a unit. -/
  | save (unit : Text) (assignments : List Text)
  /-- Removes the overrides of a unit. -/
  | reset (unit : Text)
  /-- Prints the resolved values of a unit, into a file if one is given. -/
  | exportValues (unit : Text) (target : Option Text)
  /-- Saves the values that a file holds as overrides of a unit. -/
  | importValues (unit source : Text)
  deriving DecidableEq, Repr

/-- A command with its options. -/
structure Invocation where
  /-- The options. -/
  options : Options
  /-- The command. -/
  command : Command
  deriving DecidableEq, Repr

end LessTheme
