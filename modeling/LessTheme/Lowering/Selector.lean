import LessTheme.Source.Delimiter
import LessTheme.Source.Patch
import LessTheme.Source.Split
import LessTheme.Text.Quoted

/-!
# Selectors with nested pseudo-classes

A grouping pseudo-class such as `:is(a, b:not(c))`, with several alternatives
of which one holds a further pseudo-class, is bound to a variable as a literal
string, and the selector becomes an interpolation of that variable:

    @tw-selector-1: ~".x:is(.a, .b:not(.c))";
    @{tw-selector-1} {

Selectors that hold a comment, or quotes of both kinds, are left as they are.
-/

namespace LessTheme
namespace Lowering

open Source

/-- The pseudo-classes that take a list of alternatives. -/
def groupingPseudoClasses : List Text := [":is(", ":where(", ":has("]

/-- The pseudo-classes that may not stand inside an alternative. -/
def nestedPseudoClasses : List Text := [":not(", ":is(", ":where(", ":has("]

/-- What the variables that carry a selector are named before their number. -/
def selectorVariable : Text := "tw-selector-"

/-- Whether one of several alternatives holds a nested pseudo-class. -/
def isComplexGroup (inner : Text) : Bool :=
  let alternatives := splitTopLevel ',' inner
  decide (1 < alternatives.length) &&
    alternatives.any fun alternative =>
      nestedPseudoClasses.any fun pseudoClass => alternative.includes pseudoClass

/-- Whether a complex group of the given pseudo-class begins at the front of the cells. -/
def startsComplexGroup (pseudoClass : Text) (cells : List Cell) : Bool :=
  pseudoClass.isPrefixOf (chars cells) &&
    match delimited? '(' ')' (cells.drop (pseudoClass.length - 1)) with
    | some inner => isComplexGroup (chars inner)
    | none => false

/-- Whether a complex group begins at some cell. -/
def holdsComplexGroup : List Cell → Bool
  | [] => false
  | cell :: rest =>
      groupingPseudoClasses.any (fun pseudoClass =>
        startsComplexGroup pseudoClass (cell :: rest)) || holdsComplexGroup rest

/-- Whether a selector has to be bound to a variable. -/
def isComplexSelector (selector : Text) : Bool :=
  selector.head? != some '@' && holdsComplexGroup (cells selector.lower)

/-! ## Numbering -/

/-- The value of decimal digits. -/
def decimalValue (digits : Text) : Nat :=
  digits.foldl (fun value digit => value * 10 + (digit.toNat - '0'.toNat)) 0

/-- The text without an opening brace in front. -/
def withoutBrace : Text → Text
  | '{' :: rest => rest
  | text => text

/-- The digits after the name of a selector variable at the front of the text. -/
def selectorDigits : Text → Text
  | '@' :: rest =>
      ((selectorVariable.isPrefixOf? (withoutBrace rest)).getD []).takeWhile Char.isDigit
  | _ => []

/--
The number of the selector variable that is named at the front of the text.
Zero stands for no variable, and for a number that does not fit in a word.
-/
def selectorNumber (text : Text) : UInt64 :=
  let value := decimalValue (selectorDigits text)
  if value < UInt64.size then UInt64.ofNat value else 0

/-- The greatest number that a selector variable has in the text. -/
def highestSelectorNumber : Text → UInt64
  | [] => 0
  | char :: rest =>
      max (selectorNumber (char :: rest)) (highestSelectorNumber rest)

/-! ## Statements -/

/--
Tells for every cell whether it belongs to an interpolation such as `@{name}`.
The braces of an interpolation neither open a block nor end a selector.
-/
def markInterpolations : Bool → List Cell → List (Cell × Bool)
  | _, [] => []
  | true, cell :: rest => (cell, true) :: markInterpolations (cell.char != '}') rest
  | false, cell :: rest =>
      (cell, false) ::
        markInterpolations
          (cell.isCode '@' && (rest.head?.map Cell.char == some '{') &&
            rest.any (fun next => next.char == '}'))
          rest

/-- Whether a marked cell ends a statement. -/
def endsStatement (marked : Cell × Bool) : Bool :=
  !marked.2 && (marked.1.isCode ';' || marked.1.isCode '{' || marked.1.isCode '}')

/-- The cells up to a statement's end, and the cell that ends it, if there is one. -/
structure Statement where
  /-- The cells of the statement. -/
  body : List Cell
  /-- The semicolon or brace that ends it. -/
  stop : Option Cell
  deriving DecidableEq, Repr

/-- Adds a cell in front of the first statement. -/
def extendFirst (cell : Cell) : List Statement → List Statement
  | [] => [⟨[cell], none⟩]
  | statement :: rest => ⟨cell :: statement.body, statement.stop⟩ :: rest

/-- The statements of a text, given its marked cells. -/
def statements : List (Cell × Bool) → List Statement
  | [] => []
  | marked :: rest =>
      if endsStatement marked then ⟨[], some marked.1⟩ :: statements rest
      else extendFirst marked.1 (statements rest)

namespace Statement

/-- Whether a cell may stand before a selector without being part of it. -/
def isLead (cell : Cell) : Bool := isAsciiWhiteSpace cell.char || cell.isComment

/-- The white space and comments before the selector. -/
def lead (statement : Statement) : List Cell := statement.body.takeWhile isLead

/-- The cells of the selector, with the white space after it. -/
def selector (statement : Statement) : List Cell := statement.body.dropWhile isLead

/-- The text of the brace or semicolon, if there is one. -/
def stopText (statement : Statement) : Text := chars statement.stop.toList

/-- Whether the statement opens a block whose selector has to be bound to a variable. -/
def isComplex (statement : Statement) : Bool :=
  statement.stop.any (fun cell => cell.char == '{') &&
    !statement.selector.any Cell.isComment &&
    isComplexSelector (chars statement.selector).trimEnd

/-- The literal string that a complex selector is bound to. -/
def binding? (statement : Statement) : Option Text :=
  if statement.isComplex then (chars statement.selector).trimEnd.collapse.literal? else none

/-- The text of a statement without its end. -/
def keptBody (statement : Statement) : Text := chars statement.body

end Statement

/-- Binds a literal selector to the variable with the given number and interpolates it. -/
def boundSelector (number : UInt64) (literal : Text) : Text :=
  let name := selectorVariable ++ (toString number).toList
  "@" ++ name ++ ": " ++ literal ++ ";\n@\x7b" ++ name ++ "\x7d "

/-- The patch that binds the complex selectors of some statements, numbered from the given number. -/
def selectorPatch : UInt64 → List Statement → Patch
  | _, [] => []
  | number, statement :: rest =>
      match statement.binding? with
      | some literal =>
          .keep (chars statement.lead) ::
            .replace (chars statement.selector) (boundSelector number literal) ::
              .keep statement.stopText :: selectorPatch (number + 1) rest
      | none => .keep (statement.keptBody ++ statement.stopText) :: selectorPatch number rest

/-- The patch that binds the complex selectors of a text; numbering goes on after the numbers in use. -/
def complexSelectorPatch (source : Text) : Patch :=
  selectorPatch (highestSelectorNumber source + 1)
    (statements (markInterpolations false (cells source)))

/-- Binds complex selectors to variables and interpolates them. -/
def bindComplexSelectors (source : Text) : Text := (complexSelectorPatch source).after

end Lowering
end LessTheme
