import LessTheme.Command.Invocation

/-!
# Arguments

The arguments name a command and give its words and options.  Options that all
commands share may stand before the command or behind it, and behind it they
count.  An option is given once, a path is not empty, and two hyphens end the
options.  Arguments are read in order, and the first that decides the outcome
decides it.
-/

namespace LessTheme
namespace Arguments

/-- Why reading ends without a command. -/
inductive Stop
  /-- Help is asked for. -/
  | help
  /-- The version is asked for. -/
  | version
  /-- The arguments are not accepted. -/
  | rejected
  deriving DecidableEq, Repr

/-- What has been given so far, before or behind the name of the command. -/
structure Given where
  /-- The options with their values. -/
  values : List (Text × Text) := []
  /-- The options without value. -/
  switches : List Text := []
  /-- The words. -/
  words : List Text := []
  deriving DecidableEq, Repr

namespace Given

/-- The value of an option. -/
def value? (given : Given) (name : Text) : Option Text := given.values.lookup name

/-- All values of an option that may be repeated. -/
def allValues (given : Given) (name : Text) : List Text :=
  (given.values.filter fun entry => entry.1 == name).map Prod.snd

/-- Whether an option without value is given. -/
def has (given : Given) (name : Text) : Bool := given.switches.contains name

end Given

/-! ## The forms of commands -/

/-- The option that sets a variable; it may be repeated. -/
def define : Text := "define"

/-- The options that all commands share. -/
def sharedOptions : List Text := ["root", "config", "store"]

/-- The long name of an option that has a short one. -/
def longName? (letter : Char) : Option Text :=
  if letter = 'o' then some "output" else if letter = 'D' then some define else none

/-- What a command is given. -/
structure Form where
  /-- The name of the command. -/
  name : Text
  /-- How many words it takes. -/
  words : Nat
  /-- Whether the last word may be repeated. -/
  repeatsLast : Bool := false
  /-- Whether the last word is a path. -/
  endsInPath : Bool := false
  /-- The options with a value. -/
  options : List Text := []
  /-- The options without value. -/
  switches : List Text := []
  /-- The command, once everything has been given. -/
  build : Given → Option Command

/-- The command made of one word. -/
def ofOne (make : Text → Command) : List Text → Option Command
  | [word] => some (make word)
  | _ => none

/-- The command made of two words. -/
def ofTwo (make : Text → Text → Command) : List Text → Option Command
  | [first, second] => some (make first second)
  | _ => none

/-- The command made of a word and at least one other. -/
def ofMany (make : Text → List Text → Command) : List Text → Option Command
  | first :: second :: others => some (make first (second :: others))
  | _ => none

/-- The commands that show something of a theme. -/
def showingForms : List Form :=
  [{ name := "units", words := 0, build := fun given =>
      if given.words.isEmpty then some .units else none },
    { name := "vars", words := 1, switches := ["json"], build := fun given =>
      ofOne (.inspect · (given.has "json")) given.words },
    { name := "resolve", words := 2, build := fun given => ofTwo .resolve given.words },
    { name := "assemble", words := 1, switches := ["layers"], build := fun given =>
      ofOne (.assemble · (given.has "layers")) given.words },
    { name := "preprocess", words := 1, switches := ["json"], build := fun given =>
      ofOne (.preprocess · (given.has "json")) given.words }]

/-- The commands that make a stylesheet. -/
def makingForms : List Form :=
  [{ name := "compile", words := 1, options := ["output", define], switches := ["no-fallback"],
      build := fun given =>
        ofOne (.compile · (given.value? "output") (given.allValues define)
          (given.has "no-fallback")) given.words },
    { name := "fallback", words := 0, options := ["output"], build := fun given =>
      if given.words.isEmpty then some (.fallback (given.value? "output")) else none }]

/-- The commands that read and write overrides. -/
def overridingForms : List Form :=
  [{ name := "set", words := 2, repeatsLast := true, build := fun given =>
      ofMany .save given.words },
    { name := "reset", words := 1, build := fun given => ofOne .reset given.words },
    { name := "export", words := 1, options := ["output"], build := fun given =>
      ofOne (.exportValues · (given.value? "output")) given.words },
    { name := "import", words := 2, endsInPath := true, build := fun given => ofTwo .importValues given.words }]

/-- The forms of all commands. -/
def forms : List Form := showingForms ++ makingForms ++ overridingForms

/-- The name of the command that explains the others. -/
def helpName : Text := "help"

/-- Whether a name is that of a command. -/
def isCommandName (name : Text) : Bool := name == helpName || forms.any (·.name == name)

/-! ## Reading -/

/-- How far the arguments have been read. -/
structure Reading where
  /-- What is given before the command. -/
  outer : Given := {}
  /-- The form of the command, once it is named. -/
  form : Option Form := none
  /-- What is given behind the command. -/
  inner : Given := {}
  /-- The words behind a request for help. -/
  topic : Option (List Text) := none
  /-- The option that waits for its value. -/
  pending : Option Text := none
  /-- Whether two hyphens have ended the options. -/
  onlyWords : Bool := false

namespace Reading

/-- What is given on the side of the command that is being read. -/
def given (reading : Reading) : Given :=
  if reading.form.isSome then reading.inner else reading.outer

/-- Changes what is given on the side of the command that is being read. -/
def setGiven (reading : Reading) (given : Given) : Reading :=
  if reading.form.isSome then { reading with inner := given } else { reading with outer := given }

/-- Whether an option with a value may be given here. -/
def takesOption (reading : Reading) (name : Text) : Bool :=
  sharedOptions.contains name || reading.form.any (·.options.contains name)

/-- Takes the value of an option. -/
def takeValue (reading : Reading) (name value : Text) : Except Stop Reading :=
  let given := reading.given
  if name != define && (value.isEmpty || (given.value? name).isSome) then .error .rejected
  else .ok (reading.setGiven { given with values := given.values ++ [(name, value)] })

/-- Takes an option without value. -/
def takeSwitch (reading : Reading) (name : Text) : Except Stop Reading :=
  let given := reading.given
  if given.has name then .error .rejected
  else .ok (reading.setGiven { given with switches := name :: given.switches })

/-- Takes a word behind the name of a command. -/
def takeWord (reading : Reading) (word : Text) : Except Stop Reading :=
  match reading.form with
  | none => .error .rejected
  | some form =>
      let words := reading.inner.words ++ [word]
      let isPath := form.endsInPath && words.length == form.words
      if (words.length ≤ form.words || form.repeatsLast) && !(isPath && word.isEmpty) then
        .ok (reading.setGiven { reading.inner with words := words })
      else .error .rejected

/-- Takes the name of a command. -/
def takeName (reading : Reading) (name : Text) : Except Stop Reading :=
  if name == helpName then .ok { reading with topic := some [] }
  else
    match forms.find? (·.name == name) with
    | some form => .ok { reading with form := some form }
    | none => .error .rejected

/-- Takes an option by its long name, with its value if that is attached. -/
def takeLong (reading : Reading) (name : Text) (value : Option Text) : Except Stop Reading :=
  match reading.takesOption name, value with
  | true, some value => reading.takeValue name value
  | true, none => .ok { reading with pending := some name }
  | false, some _ => .error .rejected
  | false, none =>
      if name == helpName then .error .help
      else if name == "version" && reading.form.isNone then .error .version
      else if reading.form.any (·.switches.contains name) then reading.takeSwitch name
      else .error .rejected

/-- Takes an option by its short name, with its value if that is attached. -/
def takeShort (reading : Reading) (letter : Char) (attached : Text) : Except Stop Reading :=
  match (longName? letter).filter reading.takesOption, attached with
  | some name, [] => .ok { reading with pending := some name }
  | some name, '=' :: value => reading.takeValue name value
  | some name, value => reading.takeValue name value
  | none, _ =>
      if letter = 'h' then .error .help
      else if letter = 'V' && reading.form.isNone then .error .version
      else .error .rejected

/-- The value behind the equals sign of a long option. -/
def attachedValue? (text : Text) : Option Text :=
  match text.dropWhile (· != '=') with
  | '=' :: value => some value
  | _ => none

/-- Takes an argument while options may still be given. -/
def takeArgument (reading : Reading) : Text → Except Stop Reading
  | ['-', '-'] => .ok { reading with onlyWords := true }
  | '-' :: '-' :: rest => reading.takeLong (rest.takeWhile (· != '=')) (attachedValue? rest)
  | '-' :: letter :: attached => reading.takeShort letter attached
  | word => if reading.form.isSome then reading.takeWord word else reading.takeName word

/-- Whether an argument looks like an option. -/
def isOption (argument : Text) : Bool := List.isPrefixOf ['-'] argument && argument != ['-']

/-- Takes an argument. -/
def take (reading : Reading) (argument : Text) : Except Stop Reading :=
  match reading.topic, reading.pending with
  | some words, _ => .ok { reading with topic := some (words ++ [argument]) }
  | none, some name =>
      if isOption argument then .error .rejected
      else ({ reading with pending := none } : Reading).takeValue name argument
  | none, none =>
      if reading.onlyWords then reading.takeWord argument else reading.takeArgument argument

/-- The shared options, as they are given. -/
def options (reading : Reading) : Options :=
  let value? := fun name => (reading.inner.value? name).or (reading.outer.value? name)
  { root := (value? "root").getD ".", config := value? "config", store := value? "store" }

/-- What has been asked for when all arguments have been read. -/
def finish (reading : Reading) : Except Stop Invocation :=
  match reading.topic, reading.pending, reading.form with
  | some words, _, _ =>
      .error (if words.length ≤ 1 && words.all isCommandName then .help else .rejected)
  | none, none, some form =>
      match form.build reading.inner with
      | some command => .ok ⟨reading.options, command⟩
      | none => .error .rejected
  | _, _, _ => .error .rejected

end Reading

/-- What some arguments ask for. -/
def read (arguments : List Text) : Except Stop Invocation :=
  (arguments.foldlM Reading.take {}).bind Reading.finish

end Arguments
end LessTheme
