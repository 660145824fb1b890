import LessTheme.Collection.OrderedMap
import LessTheme.Reference.Fragment
import LessTheme.Source.Delimiter
import LessTheme.Source.Split

/-!
# Substituting references

References are replaced by the values of the variables.  A value with an
operator at top level gets parentheses where it becomes part of a larger
value, so that `@gutter * 2` keeps its meaning when `@gutter` is `10px + 5px`.
-/

namespace LessTheme
namespace Reference

open Source

/-- Whether white space stands on both sides. -/
def isSpaced (before after : Option Char) : Bool :=
  before.any isAsciiWhiteSpace && after.any isAsciiWhiteSpace

/-- How many parentheses are open after a cell. -/
def openParentheses (depth : Nat) (cell : Cell) : Nat :=
  if cell.isCode '(' then depth + 1
  else if cell.isCode ')' then depth - 1
  else depth

/--
Whether a cell is an operator, given its neighbours.  A minus needs white
space around it, and so does a slash in a value of several parts, where it may
separate a font size from a line height.
-/
def isInfix (singlePart : Bool) (before : Option Char) (cell : Cell) (after : Option Char) : Bool :=
  cell.isCode '*' || cell.isCode '+' ||
    (cell.isCode '/' && (singlePart || isSpaced before after)) ||
    (cell.isCode '-' && isSpaced before after)

/-- Whether some cell outside parentheses is an operator. -/
def holdsInfix (singlePart : Bool) : Nat → Option Char → List Cell → Bool
  | _, _, [] => false
  | depth, before, cell :: rest =>
      (depth == 0 && isInfix singlePart before cell (rest.head?.map Cell.char)) ||
        holdsInfix singlePart (openParentheses depth cell) (some cell.char) rest

/-- Whether a value has an operator at top level. -/
def hasInfix (value : Text) : Bool :=
  holdsInfix (decide ((parts value).length ≤ 1)) 0 none (cells value)

/-- Whether a whole value stands in one pair of parentheses. -/
def isParenthesized (value : Text) : Bool :=
  (delimited? '(' ')' (cells value.trim)).any fun inner =>
    inner.length + 2 == value.trim.length

/-- A value as it stands inside a larger one. -/
def embedded (value : Text) : Text :=
  if hasInfix value && !isParenthesized value then '(' :: (value.trim ++ [')']) else value.trim

/-- The text that takes the place of a fragment, given which names have a value. -/
def Fragment.substitute (value? : Text → Option Text) (embed : Text → Text) (fragment : Fragment) :
    Text :=
  match fragment.name?.bind value? with
  | some value => embed value
  | none => fragment.text

/-- Replaces the references of a value whose names have a value. -/
def substituteWith (value? : Text → Option Text) (value : Text) : Text :=
  let embed := if (bareName? value).isSome then Text.trim else embedded
  (fragments value).flatMap (Fragment.substitute value? embed)

/-- Replaces each reference to a variable of the map once. -/
def substitute (values : OrderedMap Text) (value : Text) : Text :=
  substituteWith values.get? value

end Reference
end LessTheme
