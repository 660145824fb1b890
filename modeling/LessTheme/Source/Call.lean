import LessTheme.Source.Delimiter

/-!
# Function calls

A call is a name directly followed by a parenthesis that is closed, all of it
standing as code.  Calls inside the arguments of a call are calls as well.
What follows one of the marks `.`, `#`, `@` and `$` is no function name: it
names a mixin, a namespace or a variable.
-/

namespace LessTheme
namespace Source

/-- A function call in a text. -/
structure Call where
  /-- How many characters stand before the name. -/
  start : Nat
  /-- The name as it is written. -/
  name : Text
  /-- The text between the parentheses. -/
  arguments : Text
  deriving DecidableEq, Repr

namespace Call

/-- The text of the whole call. -/
def text (call : Call) : Text :=
  call.name ++ '(' :: (call.arguments ++ [')'])

/-- How many characters stand before the opening parenthesis. -/
def opening (call : Call) : Nat := call.start + call.name.length

/-- How many characters stand before the closing parenthesis. -/
def closing (call : Call) : Nat := call.opening + 1 + call.arguments.length

/-- Whether the name is one of the given ones, up to the case of ASCII letters. -/
def isNamed (names : List Text) (call : Call) : Bool := call.name.isOneOf names

end Call

/-- A mark after which a name is not the name of a function. -/
def isNameMark (char : Char) : Bool :=
  char == '.' || char == '#' || char == '@' || char == '$'

/-- Whether a function name may begin after the given cell. -/
def mayStartCall : Option Cell → Bool
  | none => true
  | some cell => !cell.isCodeName && !isNameMark cell.char

/-- The call that begins at the front of the cells, given the cell before them. -/
def callAt? (start : Nat) (before : Option Cell) (cells : List Cell) : Option Call :=
  let name := cells.takeWhile Cell.isCodeName
  if mayStartCall before && !name.isEmpty then
    (delimited? '(' ')' (cells.dropWhile Cell.isCodeName)).map fun arguments =>
      ⟨start, chars name, chars arguments⟩
  else none

/-- The calls among cells that follow the given number of characters. -/
def callsFrom (start : Nat) (before : Option Cell) : List Cell → List Call
  | [] => []
  | cell :: rest =>
      (callAt? start before (cell :: rest)).toList ++ callsFrom (start + 1) (some cell) rest

/-- Every call of a text, in the order of the opening parentheses. -/
def calls (text : Text) : List Call := callsFrom 0 none (cells text)

/-- Every call of a text to one of the given functions. -/
def callsTo (names : List Text) (text : Text) : List Call :=
  (calls text).filter (Call.isNamed names)

end Source
end LessTheme
