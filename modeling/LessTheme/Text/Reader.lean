import LessTheme.Text.Basic

/-!
# Readers

A reader takes what it reads from the front of a text and leaves the rest, or
it refuses the text.
-/

namespace LessTheme

/-- Reads a value at the front of a text. -/
abbrev Reader (Value : Type) := Text → Option (Value × Text)

namespace Reader

/-- Reads one given character. -/
def mark (char : Char) : Reader Unit
  | first :: rest => if first = char then some ((), rest) else none
  | [] => none

/-- Changes what is read. -/
def map {Value Result : Type} (change : Value → Result) (reader : Reader Value) : Reader Result :=
  fun text => (reader text).map fun reading => (change reading.1, reading.2)

/-- Puts a character in front of a text that is read. -/
def before (char : Char) : Option (Text × Text) → Option (Text × Text) :=
  Option.map fun reading => (char :: reading.1, reading.2)

end Reader
end LessTheme
