import LessTheme.Lowering.AtRule
import LessTheme.Override.Layer
import LessTheme.Theme.Error

/-!
# Compiler jobs

A lowered program and unsaved overrides make a job for a compiler.  What the
compiler replies becomes a stylesheet, with the at-rules added that it was not
given, or an error.
-/

namespace LessTheme

/-- What is known about a compiler before it runs. -/
structure Compiler where
  /-- The name for reports. -/
  name : Text
  /-- Whether the compiler can be run. -/
  isAvailable : Bool
  deriving DecidableEq, Repr

/-- The error of a compiler that cannot be run. -/
def Compiler.missing (compiler : Compiler) : ThemeError :=
  .compilerUnavailable (compiler.name ++ " is not available")

/-- Refuses a compiler that cannot be run. -/
def Compiler.require (compiler : Compiler) : Except ThemeError Unit :=
  if compiler.isAvailable then .ok () else .error compiler.missing

/-- What a compiler is given, and what is added to its reply. -/
structure Job where
  /-- The program. -/
  source : Text
  /-- The variables that are set for this job only; of equal names the last wins. -/
  assigned : List (Text × Text)
  /-- The at-rules to add. -/
  atRules : List Text
  deriving DecidableEq, Repr

/-- A compiled stylesheet. -/
structure Stylesheet where
  /-- The text. -/
  css : Text
  /-- How many at-rules have been added. -/
  added : Nat
  deriving DecidableEq, Repr

namespace Job

/-- The job of compiling a program under unsaved overrides. -/
def make (program : Lowering.Lowered) (pending : Overrides) : Job :=
  ⟨program.source, pending.assigned, program.atRules⟩

/-- What a fault of the compiler says about the program. -/
def failure : WorldFault → ThemeError
  | .notSupported reason => .compilerUnavailable reason
  | .rejected diagnostic => .compilation diagnostic
  | .processFailed _ report => .compilation report
  | fault => .world fault

/-- The stylesheet that a reply of the compiler leads to. -/
def finish (job : Job) (reply : Except WorldFault Text) : Except ThemeError Stylesheet :=
  match reply with
  | .ok css => .ok ⟨Lowering.appendAtRules css job.atRules, job.atRules.length⟩
  | .error fault => .error (failure fault)

end Job
end LessTheme
