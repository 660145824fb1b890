import LessTheme.Source.Cell
import LessTheme.Text.WhiteSpace

/-!
# Splitting at top level

Lists of arguments and values with several parts are split where a separator
stands as code outside parentheses and brackets.
-/

namespace LessTheme
namespace Source

/-- A parenthesis or a bracket. -/
def isBracket (char : Char) : Bool :=
  char == '(' || char == '[' || char == ')' || char == ']'

/-- How many parentheses and brackets are open after a cell. -/
def bracketDepth (depth : Nat) (cell : Cell) : Nat :=
  if cell.isCode '(' || cell.isCode '[' then depth + 1
  else if cell.isCode ')' || cell.isCode ']' then depth - 1
  else depth

/-- The texts between the cells at which a split is made, given the open brackets. -/
def splitCells (isSplit : Cell → Bool) : Nat → List Cell → List Text
  | _, [] => [[]]
  | depth, cell :: rest =>
      if depth = 0 ∧ isSplit cell = true then [] :: splitCells isSplit depth rest
      else (splitCells isSplit (bracketDepth depth cell) rest).modifyHead (cell.char :: ·)

/-- A separator that stands as code; brackets never separate. -/
def Cell.isSeparator (separator : Char) (cell : Cell) : Bool :=
  cell.isCode separator && !isBracket separator

/-- White space of a value that stands as code. -/
def Cell.isGap (cell : Cell) : Bool :=
  cell.kind == .code && isAsciiWhiteSpace cell.char

/-- The trimmed pieces of a text between separators at top level. -/
def splitTopLevel (separator : Char) (text : Text) : List Text :=
  (splitCells (Cell.isSeparator separator) 0 (cells text)).map Text.trim

/-- The parts of a value between white space at top level. -/
def parts (text : Text) : List Text :=
  (splitCells Cell.isGap 0 (cells text)).filter (fun part => !part.isEmpty)

end Source
end LessTheme
