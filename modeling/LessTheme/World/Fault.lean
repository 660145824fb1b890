import LessTheme.File.Fault

/-!
# Faults of the world outside

Files, the store of overrides and the compiler are outside the library.  A
fault there is one of five causes, and only a fault of a file has a cause of
its own.
-/

namespace LessTheme

/-- What went wrong outside. -/
inductive WorldFault
  /-- A file cannot be used or a program cannot be started. -/
  | file (fault : FileFault)
  /-- Something is not there at all. -/
  | notSupported (reason : Text)
  /-- A program failed without saying why. -/
  | processFailed (code : Int) (report : Text)
  /-- The compiler rejects a source, with a diagnostic. -/
  | rejected (diagnostic : Text)
  /-- The stored overrides cannot be understood. -/
  | store (report : Text)
  deriving DecidableEq, Repr

namespace WorldFault

/-- The wording of a fault. -/
def message : WorldFault → Text
  | .file fault => "I/O failure: " ++ fault.message
  | .notSupported reason => "Not available: " ++ reason
  | .processFailed code report =>
      "Command failed (exit " ++ (toString code).toList ++ "): " ++ report
  | .rejected diagnostic => "LESS compilation error: " ++ diagnostic
  | .store report => "Override store error: " ++ report

/-- The causes behind a fault. -/
def causes : WorldFault → List Text
  | .file fault => [fault.message]
  | _ => []

end WorldFault
end LessTheme
