import LessTheme.Command.Error
import LessTheme.Command.Invocation
import LessTheme.Command.Listing
import LessTheme.Compiler.Lessc
import LessTheme.Config.Basic
import LessTheme.Engine.Saving

/-!
# Running commands

A command runs on a file tree and ends in an outcome: what it prints, what it
reports and the files afterwards.  A command that fails may have changed the
files before.  Only compiling needs another program; it stops before that
program runs and is resumed with how the run ended.
-/

namespace LessTheme

/-- How a command ends. -/
structure Outcome where
  /-- The exit code. -/
  exit : Nat
  /-- What is printed. -/
  output : Text
  /-- What is reported beside the output. -/
  report : Text
  /-- The files afterwards. -/
  files : FileTree
  deriving DecidableEq

/-- A command that has ended, or one that needs another program to be run. -/
inductive Progress
  /-- The command has ended. -/
  | ended (outcome : Outcome)
  /-- A program must be run; the rest needs the files then and how the run ended. -/
  | needs (call : Lessc.Call) (resume : FileTree → Except FileFault Lessc.Exit → Outcome)

/-- The outcome where no program can be started. -/
def Progress.withoutPrograms (files : FileTree) : Progress → Outcome
  | .ended outcome => outcome
  | .needs _ resume => resume files (.error (.system .noEntry))

/-- The path of the configuration. -/
def Options.configPath (options : Options) : Text :=
  options.config.getD (Path.join options.root Config.fileName)

/-- Where a compiler may be found. -/
structure Environment where
  /-- The setting that names the compiler. -/
  setting : Option Text := none
  /-- The compiler among the installed programs. -/
  installed : Option Text := none
  deriving DecidableEq, Repr

/-- The path of the compiler, if there is one. -/
def Environment.program? (environment : Environment) (files : FileTree) : Option Text :=
  (Lessc.configured? files environment.setting).or environment.installed

namespace Command

/-! ## Actions -/

/-- What a command says that succeeds. -/
structure Done where
  /-- What is printed. -/
  output : Text := []
  /-- What is reported. -/
  report : Text := []
  deriving DecidableEq, Repr

/-- A command may fail, and it may change the files of its engine in either case. -/
abbrev Action (Value : Type) := ExceptT CommandError (StateM Engine) Value

/-- The outcome of a command that fails. -/
def failed (files : FileTree) (error : CommandError) : Outcome := ⟨1, [], error.report, files⟩

/-- The outcome of a command. -/
def outcome (engine : Engine) (action : Action Done) : Outcome :=
  match action.run.run engine with
  | (.ok done, next) => ⟨0, done.output, done.report, next.files⟩
  | (.error error, next) => failed next.files error

/-- A line. -/
def line (text : Text) : Text := text ++ ['\n']

/-- A request that is not named in reports. -/
def plain {Value : Type} (request : Request Value) : Action Value :=
  ExceptT.adapt .request request

/-- An attempt that is named in reports. -/
def attempt {Value : Type} (tried : Attempt) (request : Request Value) : Action Value :=
  ExceptT.adapt (.attempt tried) request

/-! ## Assignments -/

/-- The name of an assignment: it may have white space around and at signs in front. -/
def assignedName (written : Text) : Text := (Text.trim written).dropWhile (· == '@')

/-- The name and the value of an assignment. -/
def assignment (argument : Text) : Except CommandError (Text × Text) :=
  let name := assignedName (argument.takeWhile (· != '='))
  match argument.dropWhile (· != '=') with
  | '=' :: value => if name.isEmpty then .error (.noName value) else .ok (name, value)
  | _ => .error (.noAssignment argument)

/-- The overrides that some assignments make; of equal names the last counts. -/
def assignments (arguments : List Text) : Except CommandError Overrides :=
  (arguments.mapM assignment).map SortedMap.ofList

/-! ## Themes -/

/-- The engine of the theme that is meant. -/
def openTheme (options : Options) (files : FileTree) : Except CommandError Engine := do
  if !files.isFolder options.root then throw (.noRoot options.root)
  let config ← (Config.load files options.configPath).mapError
    (.attempt (.load options.configPath))
  let store := options.store.getD (config.storeOf options.root)
  return .start ⟨options.root, config.layout⟩ config.fallback ⟨files, .file store⟩

/-! ## Commands that ask -/

/-- A command that prints a text. -/
def printed (text : Text) : Action Done := return { output := text }

/-- A command that writes a text to a file, or prints it if there is none. -/
def deliver (target : Option Text) (text : Text) : Action Done :=
  match target with
  | none => printed text
  | some path => do
      attempt (.write path)
        (Engine.changeWorld (World.changeFiles (FileTree.write path (Utf8.encode text))))
      return {}

/-- Lists the units. -/
def listUnits : Action Done := do printed ((← get).units.flatMap line)

/-- Shows the variables of a unit. -/
def showVariables (unit : Text) (asJson : Bool) : Action Done := do
  let listed ← plain (Engine.inspect unit)
  printed (if asJson then line (Listing.variableList listed) else Listing.table listed)

/-- Resolves a variable; at signs before its name are dropped. -/
def showResolved (unit name : Text) : Action Done := do
  printed (line (← plain (Engine.resolve unit (name.dropWhile (· == '@')))))

/-- Prints the program of a unit. -/
def showProgram (unit : Text) (labelled : Bool) : Action Done := do
  let program ← plain (Engine.ask fun engine => engine.assemble unit)
  printed (if labelled then program.labelledSource else program.source)

/-- Prints the lowered program of a unit. -/
def showLowered (unit : Text) (asJson : Bool) : Action Done := do
  let program ← plain (Engine.ask fun engine => engine.lowered unit)
  printed (if asJson then line (Listing.loweredObject program) else program.source)

/-- Prints the resolved values of a unit. -/
def exported (unit : Text) (target : Option Text) : Action Done := do
  let values ← plain (Engine.exported unit)
  deliver target (line (values.print 0))

/-- Prints the fallback properties. -/
def showFallback (target : Option Text) : Action Done := do
  deliver target (← plain (Engine.ask Engine.fallbackCss))

/-! ## Commands that save -/

/-- How many overrides are stored for a unit. -/
def storedLine (unit : Text) (saved : Overrides) : Text :=
  line ((toString saved.size).toList ++ " override(s) stored for " ++ unit)

/-- Saves assignments as overrides. -/
def saved (unit : Text) (arguments : List Text) : Action Done := do
  let submitted ← assignments arguments
  let saved ← attempt (.save unit) (Engine.save unit submitted)
  let defaults := submitted.keys.filter fun name => !saved.contains name
  return {
    report := (defaults.flatMap fun name => line (name ++ ": using default")) ++
      storedLine unit saved }

/-- Removes the overrides of a unit that exists. -/
def removed (unit : Text) : Action Done := do
  discard (plain (Engine.catalog unit))
  attempt (.reset unit) (Engine.reset unit)
  return { report := line ("Reset overrides of " ++ unit) }

/-- Saves the values in a file as overrides. -/
def imported (unit path : Text) : Action Done := do
  let text ← attempt (.read path)
    (Engine.ask fun engine => (engine.files.readText path).mapError .ofFile)
  match Overrides.read? text with
  | none => throw (.noValues path)
  | some values => do
      let saved ← plain (Engine.save unit values)
      return {
        report := "Applied " ++ (toString values.size).toList ++ " value(s); " ++
          storedLine unit saved }

/-! ## Compiling -/

/-- What is done if a unit cannot be compiled: without compiler there are fallback properties. -/
def instead (unit : Text) (target : Option Text) (withoutFallback : Bool) (error : ThemeError) :
    Action Done :=
  if error.isCompilerUnavailable && !withoutFallback then showFallback target
  else throw (.attempt (.compile unit) error)

/-- The engine with other files. -/
def withFiles (engine : Engine) (files : FileTree) : Engine :=
  { engine with world := { engine.world with files := files } }

/-- Compiles a unit. -/
def compiled (environment : Environment) (engine : Engine) (unit : Text) (target : Option Text)
    (pending : Overrides) (withoutFallback : Bool) : Progress :=
  let files := engine.files
  let program := environment.program? files
  let prepared := do
    let job ← engine.compileJob (Lessc.compiler files program) unit pending
    let call ← (Lessc.call program job.source job.assigned).mapError Job.failure
    return (job, call)
  match prepared with
  | .error error => .ended (outcome engine (instead unit target withoutFallback error))
  | .ok (job, call) =>
      .needs call fun files exit =>
        outcome (withFiles engine files)
          (match job.finish (Lessc.outcome exit) with
          | .ok sheet => deliver target sheet.css
          | .error error => instead unit target withoutFallback error)

/-- Compiles a unit under assignments. -/
def compiledUnder (environment : Environment) (engine : Engine) (unit : Text)
    (target : Option Text) (arguments : List Text) (withoutFallback : Bool) : Progress :=
  match assignments arguments with
  | .error error => .ended (failed engine.files error)
  | .ok pending => compiled environment engine unit target pending withoutFallback

/-! ## Running -/

/-- Runs a command on a theme. -/
def perform (environment : Environment) (engine : Engine) (command : Command) : Progress :=
  let ended := fun action => Progress.ended (outcome engine action)
  match command with
  | .units => ended listUnits
  | .inspect unit asJson => ended (showVariables unit asJson)
  | .resolve unit name => ended (showResolved unit name)
  | .assemble unit labelled => ended (showProgram unit labelled)
  | .preprocess unit asJson => ended (showLowered unit asJson)
  | .compile unit target arguments withoutFallback =>
      compiledUnder environment engine unit target arguments withoutFallback
  | .fallback target => ended (showFallback target)
  | .save unit arguments => ended (saved unit arguments)
  | .reset unit => ended (removed unit)
  | .exportValues unit target => ended (exported unit target)
  | .importValues unit source => ended (imported unit source)

/-- Runs a command on the files. -/
def run (environment : Environment) (files : FileTree) (invocation : Invocation) : Progress :=
  match openTheme invocation.options files with
  | .error error => .ended (failed files error)
  | .ok engine => perform environment engine invocation.command

end Command
end LessTheme
