import LessTheme.Theme.Error

/-!
# Why a command fails

A command fails by itself or because a request fails.  The report names what
was attempted, then the error, then the causes behind it.
-/

namespace LessTheme

/-- What a command attempts. -/
inductive Attempt
  /-- To load the configuration. -/
  | load (path : Text)
  /-- To save the overrides of a unit. -/
  | save (unit : Text)
  /-- To remove the overrides of a unit. -/
  | reset (unit : Text)
  /-- To compile a unit. -/
  | compile (unit : Text)
  /-- To write a file. -/
  | write (path : Text)
  /-- To read a file. -/
  | read (path : Text)
  deriving DecidableEq, Repr

/-- The wording of a failed attempt. -/
def Attempt.message : Attempt → Text
  | .load path => "Failed to load " ++ path
  | .save unit => "Failed to save overrides of '" ++ unit ++ "'"
  | .reset unit => "Failed to reset overrides of '" ++ unit ++ "'"
  | .compile unit => "Failed to compile '" ++ unit ++ "'"
  | .write path => "Failed to write " ++ path
  | .read path => "Failed to read " ++ path

/-- Why a command fails. -/
inductive CommandError
  /-- The theme does not exist. -/
  | noRoot (path : Text)
  /-- An argument is no assignment. -/
  | noAssignment (argument : Text)
  /-- An assignment of a value has no name. -/
  | noName (value : Text)
  /-- A file does not hold values by name. -/
  | noValues (path : Text)
  /-- A request fails. -/
  | request (error : ThemeError)
  /-- An attempt fails. -/
  | attempt (attempt : Attempt) (error : ThemeError)
  deriving DecidableEq, Repr

namespace CommandError

/-- The wording of an error and of the causes behind it, from the outermost inwards. -/
def messages : CommandError → List Text
  | .noRoot path => ["Theme root does not exist: " ++ path]
  | .noAssignment argument => ["Expected NAME=VALUE, got '" ++ argument ++ "'"]
  | .noName value => ["Missing variable name in '" ++ value ++ "'"]
  | .noValues path =>
      [path ++ " is not a JSON object of strings", "the text cannot be read as one"]
  | .request error => error.message :: error.causes
  | .attempt tried error => tried.message :: error.message :: error.causes

/-- A cause with all its lines indented. -/
def indented (first other cause : Text) : Text :=
  first ++ List.intercalate ('\n' :: other) (Text.splitWhere (· == '\n') cause)

/-- The causes of an error on lines of their own, numbered if there are several. -/
def causeLines (causes : List Text) : List Text :=
  match causes with
  | [only] => [indented "    " "    " only]
  | _ => (causes.zipIdx 0).map fun (cause, number) =>
      let digits := (toString number).toList
      indented (List.replicate (5 - digits.length) ' ' ++ digits ++ ": ") "       " cause

/-- The report of an error. -/
def report (error : CommandError) : Text :=
  match error.messages with
  | [] => []
  | outermost :: causes =>
      let behind : Text :=
        if causes.isEmpty then []
        else "\n\nCaused by:\n" ++ List.intercalate ['\n'] (causeLines causes)
      "Error: " ++ outermost ++ behind ++ ['\n']

end CommandError
end LessTheme
