import LessTheme.Command.Arguments
import LessTheme.Command.Run

/-!
# The command line

A command line either asks for a command, or it asks for help or the version,
or it is not accepted.
-/

namespace LessTheme
namespace Command

/-- The name and version of the program. -/
def versionText : Text := "themeweave 0.1.0\n"

/-- How the program is called. -/
def usage : Text :=
  "Usage: themeweave [--root DIR] [--config FILE] [--store FILE] COMMAND\n"

/-- The names of all commands on lines of their own. -/
def commandLines : Text :=
  Arguments.forms.flatMap fun form => ' ' :: ' ' :: line form.name

/-- The explanation of the program. -/
def helpText : Text :=
  "Inspect, edit and compile LESS themes\n\n" ++ usage ++ "\nCommands:\n" ++ commandLines

/-- The outcome of arguments that name no command. -/
def stopped (files : FileTree) : Arguments.Stop → Outcome
  | .help => ⟨0, helpText, [], files⟩
  | .version => ⟨0, versionText, [], files⟩
  | .rejected => ⟨2, [], "error: the arguments are not accepted\n\n" ++ usage, files⟩

/-- Runs what some arguments ask for on the files. -/
def runLine (environment : Environment) (files : FileTree) (arguments : List Text) : Progress :=
  match Arguments.read arguments with
  | .ok invocation => run environment files invocation
  | .error stop => .ended (stopped files stop)

end Command
end LessTheme
