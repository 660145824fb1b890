import LessTheme.Command.Run

/-!
# The extent of commands

A command runs on a snapshot of the files, so it must be known which places
the snapshot has to show.  The options and the command name some of them, and
the configuration names the others once it has been read.
-/

namespace LessTheme

/-- The paths that a command names besides its unit. -/
def Command.namedPaths : Command → List Text
  | .compile _ target _ _ | .fallback target | .exportValues _ target => target.toList
  | .importValues _ source => [source]
  | _ => []

namespace Invocation

/-- The paths that are known before the configuration has been read. -/
def namedPaths (invocation : Invocation) : List Text :=
  let options := invocation.options
  options.root :: options.configPath :: options.store.toList ++ invocation.command.namedPaths

/-- The theme and its store, if a snapshot shows a configuration that is accepted. -/
def engine? (invocation : Invocation) (files : FileTree) : Option Engine :=
  (Command.openTheme invocation.options files).toOption

end Invocation

namespace Engine

/-- The path of the stored overrides, if they are in a file. -/
def storePath? (engine : Engine) : Option Text :=
  match engine.world.store with
  | .memory _ => none
  | .file path => some path

/-- The paths that requests on a theme read and write, apart from the units. -/
def paths (engine : Engine) : List Text := engine.storePath?.toList ++ engine.theme.layerPaths

end Engine
end LessTheme
