import LessTheme.Compiler.Job
import LessTheme.File.Tree

/-!
# The compiler lessc

The program `lessc` reads a source from its input and writes a stylesheet to
its output.  Variables are set by arguments.  If it fails it reports why, and
a failure without report is a fault of its own.
-/

namespace LessTheme
namespace Lessc

/-- The name of the program. -/
def name : Text := "lessc"

/-- The setting that names the program's file. -/
def setting : Text := "THEMEWEAVE_LESSC"

/-- A run of a program. -/
structure Call where
  /-- The path of the program. -/
  program : Text
  /-- The arguments. -/
  arguments : List Text
  /-- What the program reads. -/
  input : Text
  deriving DecidableEq, Repr

/-- How a run of a program ends. -/
structure Exit where
  /-- The exit code; zero is success. -/
  code : Int
  /-- What the program wrote. -/
  output : Bytes
  /-- What the program reported. -/
  report : Bytes
  deriving DecidableEq, Repr

/-- The program that a setting names, if that is a file. -/
def configured? (files : FileTree) (setting : Option Text) : Option Text :=
  setting.filter files.isFile

/-- The compiler, given the path of the program if one was found. -/
def compiler (files : FileTree) (program : Option Text) : Compiler :=
  ⟨name, program.any files.isFile⟩

/-- The argument that sets a variable. -/
def assignment (name value : Text) : Text := "--modify-var=" ++ name ++ '=' :: value

/-- The arguments of a run: a hyphen at the end makes the program read its input. -/
def arguments (assigned : List (Text × Text)) : List Text :=
  ("--no-color" : Text) :: (assigned.map fun entry => assignment entry.1 entry.2) ++ [['-']]

/-- The run that compiles a source. -/
def call (program : Option Text) (source : Text) (assigned : List (Text × Text)) :
    Except WorldFault Call :=
  match program with
  | some program => .ok ⟨program, arguments assigned, source⟩
  | none =>
      .error (.notSupported (name ++ " not found (set " ++ setting ++ " or add it to PATH)"))

/-- What a finished run replies. -/
def reply (exit : Exit) : Except WorldFault Text :=
  let report := Utf8.decodeLenient exit.report
  if exit.code = 0 then .ok (Utf8.decodeLenient exit.output)
  else if report.isBlank then
    .error (.processFailed exit.code (name ++ " wrote no diagnostic"))
  else .error (.rejected report.trimEnd)

/-- What a run replies that could be started or not. -/
def outcome (exit : Except FileFault Exit) : Except WorldFault Text :=
  (exit.mapError .file).bind reply

end Lessc
end LessTheme
