import LessTheme.Arithmetic.Expression
import LessTheme.Number.Fixed
import LessTheme.Text.WhiteSpace

/-!
# Evaluating arithmetic values

A value with at least one operator is replaced by its result, with the common
unit put back: `(1.5 * 3) * 1em` becomes `4.5em`.  Whatever is no expression,
mixes units, divides by zero or has no finite result stays as it is.

Expressions are evaluated with any `Field` of operations.  Stylesheets use the
doubles; the rationals give the exact value to compare with.
-/

namespace LessTheme
namespace Arithmetic

/-- The operations that expressions are evaluated with. -/
structure Field (Value : Type) where
  /-- The value of a numeral. -/
  ofNumeral : Numeral → Value
  /-- The value with its sign changed. -/
  negate : Value → Value
  /-- The value of an operator, the divisor not being zero. -/
  apply : Operator → Value → Value → Value
  /-- Whether a value is zero and must not divide. -/
  isZero : Value → Bool

/-- Arithmetic in double precision. -/
def doubles : Field Float where
  ofNumeral := fun numeral => Number.ofDecimal numeral.digits (-numeral.places)
  negate := fun value => -value
  apply
    | .add, left, right => left + right
    | .subtract, left, right => left - right
    | .multiply, left, right => left * right
    | .divide, left, right => left / right
  isZero := fun value => value == 0.0

/-- Exact arithmetic. -/
def rationals : Field Rat where
  ofNumeral := fun numeral => mkRat numeral.digits (Nat.pow 10 numeral.places)
  negate := fun value => -value
  apply
    | .add, left, right => left + right
    | .subtract, left, right => left - right
    | .multiply, left, right => left * right
    | .divide, left, right => left / right
  isZero := fun value => value == 0

namespace Expression

/-- The value of an expression; nothing if it divides by zero. -/
def value? {Value : Type} (field : Field Value) : Expression → Option Value
  | .number negative numeral =>
      let magnitude := field.ofNumeral numeral
      some (if negative then field.negate magnitude else magnitude)
  | .binary operator left right => do
      let leftValue ← left.value? field
      let rightValue ← right.value? field
      if operator = .divide ∧ field.isZero rightValue = true then none
      else return field.apply operator leftValue rightValue

end Expression

/-- Whether a token is an operator. -/
def Token.isOperator : Token → Bool
  | .operator _ => true
  | _ => false

/-- The value and the unit of an arithmetic text; nothing if it has none. -/
def compute? {Value : Type} (field : Field Value) (text : Text) : Option (Value × Text) := do
  let tokens ← tokensOf? text
  let unit ← commonUnit? tokens
  let value ← (← expression? tokens).value? field
  return (value, unit)

/-- The written result of a text with an operator and a finite value. -/
def result? (text : Text) : Option Text := do
  let tokens ← tokensOf? text
  let (value, unit) ← compute? doubles text
  if tokens.any Token.isOperator && value.isFinite then
    return Number.format value ++ unit
  else none

/-- The result of an arithmetic value, or the value itself if it has none. -/
def evaluate (value : Text) : Text := (result? value.trim).getD value

end Arithmetic
end LessTheme
