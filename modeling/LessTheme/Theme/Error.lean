import LessTheme.Config.Fault
import LessTheme.World.Fault

/-!
# Errors

A request about a theme fails because a unit does not exist, because the
compiler is missing or rejects the source, because the configuration is not
accepted, or because of a fault outside.
-/

namespace LessTheme

/-- Why a request fails. -/
inductive ThemeError
  /-- A unit has no file. -/
  | unitNotFound (unit path : Text)
  /-- No compiler can be run. -/
  | compilerUnavailable (reason : Text)
  /-- The compiler rejects the program. -/
  | compilation (diagnostic : Text)
  /-- The configuration, from a place if it is known, is not accepted. -/
  | config (source : Option Text) (fault : ConfigFault)
  /-- Something outside fails. -/
  | world (fault : WorldFault)
  deriving DecidableEq, Repr

namespace ThemeError

/-- The wording of an error. -/
def message : ThemeError → Text
  | .unitNotFound unit path =>
      "Unit '" ++ unit ++ "' not found (no rule-body source at " ++ path ++ ")"
  | .compilerUnavailable reason => "LESS compiler unavailable: " ++ reason
  | .compilation diagnostic => "LESS compilation failed: " ++ diagnostic
  | .config source fault =>
      "Invalid theme configuration" ++ (source.map fun place => (" in " : Text) ++ place).getD [] ++ ": " ++ fault.message
  | .world fault => fault.message

/-- The causes behind an error. -/
def causes : ThemeError → List Text
  | .world fault => fault.causes
  | _ => []

/-- Whether an error says that no compiler can be run. -/
def isCompilerUnavailable : ThemeError → Bool
  | .compilerUnavailable _ => true
  | _ => false

/-- The error for a fault of a file. -/
def ofFile (fault : FileFault) : ThemeError := .world (.file fault)

end ThemeError
end LessTheme
