import LessTheme.Source.Cell
import LessTheme.Text.WhiteSpace

/-!
# References

A value refers to a variable by an at sign and its name, standing as code.
References in strings, comments and interpolations such as `@{name}` are not
followed.  A value is read as a list of references and other text.
-/

namespace LessTheme
namespace Reference

open Source

/-- A piece of a value. -/
inductive Fragment
  /-- Text without references. -/
  | plain (text : Text)
  /-- An at sign and the name after it, which may be empty. -/
  | reference (name : Text)
  deriving DecidableEq, Repr

/-- The text that a fragment stands for. -/
def Fragment.text : Fragment → Text
  | .plain text => text
  | .reference name => '@' :: name

/-- The name that a fragment refers to. -/
def Fragment.name? : Fragment → Option Text
  | .plain _ => none
  | .reference name => if name.isEmpty then none else some name

/-- A value read from its end to some place: the name characters there, and the rest. -/
structure Reading where
  /-- The run of name characters at the front. -/
  word : Text
  /-- The fragments behind the run. -/
  fragments : List Fragment

/-- Reads the cell in front. -/
def Reading.prepend (cell : Cell) (reading : Reading) : Reading :=
  if isNameChar cell.char then ⟨cell.char :: reading.word, reading.fragments⟩
  else if cell.isCode '@' then ⟨[], .reference reading.word :: reading.fragments⟩
  else ⟨[], .plain (cell.char :: reading.word) :: reading.fragments⟩

/-- The fragments of some cells. -/
def fragmentsOf (cells : List Cell) : List Fragment :=
  let reading := cells.foldr Reading.prepend ⟨[], []⟩
  .plain reading.word :: reading.fragments

/-- The fragments of a value. -/
def fragments (value : Text) : List Fragment := fragmentsOf (cells value)

/-- The names that a value refers to, in order. -/
def referencedNames (value : Text) : List Text := (fragments value).filterMap Fragment.name?

/-- The name of the variable, if the value is one reference and nothing else. -/
def bareName? (value : Text) : Option Text :=
  match value.trim with
  | '@' :: name => if !name.isEmpty && name.all isNameChar then some name else none
  | _ => none

end Reference
end LessTheme
