import LessTheme.Text.Ascii

/-!
# Tokens of arithmetic values

The value of a variable may be an arithmetic expression over quantities:
numbers, some with a unit.  Between operands a minus with white space before
it but not after it separates the parts of a list, as in `10px -5px`, and such
a value is no expression.
-/

namespace LessTheme
namespace Arithmetic

/-- A decimal number without sign. -/
structure Numeral where
  /-- The digits read as a whole number. -/
  digits : Nat
  /-- How many of the digits stand after the point. -/
  places : Nat
  deriving DecidableEq, Repr

/-- The four operators. -/
inductive Operator
  | add
  | subtract
  | multiply
  | divide
  deriving DecidableEq, Repr

/-- A token of an arithmetic expression. -/
inductive Token
  /-- A number with its sign and its unit, which may be empty. -/
  | quantity (negative : Bool) (numeral : Numeral) (unit : Text)
  | operator (operator : Operator)
  | opening
  | closing
  deriving DecidableEq, Repr

/-! ## Lexemes -/

/-- A run of the characters of quantities, or any other single character. -/
inductive Lexeme
  | run (text : Text)
  | mark (char : Char)
  deriving DecidableEq, Repr

/-- A digit or a point. -/
def isNumeralChar (char : Char) : Bool := char.isDigit || char == '.'

/-- A letter or a percent sign. -/
def isUnitChar (char : Char) : Bool := char.isAlpha || char == '%'

/-- The lexemes of a text. -/
def lexemes : Text → List Lexeme
  | [] => []
  | char :: rest =>
      if isNumeralChar char || isUnitChar char then
        match lexemes rest with
        | .run text :: others => .run (char :: text) :: others
        | others => .run [char] :: others
      else .mark char :: lexemes rest

/-- The number that digits and points write, if it has a digit and at most one point. -/
def numeral? (text : Text) : Option Numeral :=
  let whole := text.takeWhile Char.isDigit
  let fraction := (text.dropWhile Char.isDigit).drop 1
  if (whole ++ fraction).isEmpty || !fraction.all Char.isDigit then none
  else some ⟨Nat.ofDigitChars 10 (whole ++ fraction) 0, fraction.length⟩

/-- The quantity that a run writes. -/
def quantity? (negative : Bool) (run : Text) : Option Token :=
  let number := run.takeWhile isNumeralChar
  let unit := run.dropWhile isNumeralChar
  if unit.all isUnitChar then
    (numeral? number).map fun numeral => .quantity negative numeral unit
  else none

/-! ## Tokens -/

/-- White space that may stand between tokens. -/
def isBlankMark (char : Char) : Bool := char == ' ' || char == '\t' || char == '\n'

/-- Whether the lexemes begin with white space. -/
def startsBlank : List Lexeme → Bool
  | .mark char :: _ => isBlankMark char
  | _ => false

/-- The operator that a character writes. -/
def operator? (char : Char) : Option Operator :=
  match char with
  | '+' => some .add
  | '-' => some .subtract
  | '*' => some .multiply
  | '/' => some .divide
  | _ => none

/--
The tokens of some lexemes.  The first flag tells whether an operand has to
come next, the second whether white space stands right before.  A minus in
front of a parenthesis multiplies by minus one.
-/
def tokens? : Bool → Bool → List Lexeme → Option (List Token)
  | _, _, [] => some []
  | true, _, .run text :: rest => do
      return (← quantity? false text) :: (← tokens? false false rest)
  | true, _, .mark '+' :: .run text :: rest => do
      return (← quantity? false text) :: (← tokens? false false rest)
  | true, _, .mark '-' :: .run text :: rest => do
      return (← quantity? true text) :: (← tokens? false false rest)
  | true, _, .mark '-' :: .mark '(' :: rest => do
      return .quantity true ⟨1, 0⟩ [] :: .operator .multiply :: .opening ::
        (← tokens? true false rest)
  | true, _, .mark '(' :: rest => do
      return .opening :: (← tokens? true false rest)
  | false, _, .mark ')' :: rest => do
      return .closing :: (← tokens? false false rest)
  | operandNext, afterBlank, .mark char :: rest =>
      if isBlankMark char then tokens? operandNext true rest
      else
        match operandNext, operator? char with
        | false, some operator =>
            if operator = .subtract ∧ afterBlank = true ∧ startsBlank rest = false then none
            else do return .operator operator :: (← tokens? true false rest)
        | _, _ => none
  | false, _, .run _ :: _ => none

/-- The tokens of an arithmetic value. -/
def tokensOf? (value : Text) : Option (List Token) := tokens? true false (lexemes value)

/-! ## Units -/

/-- The unit of a token, empty if it has none. -/
def Token.unit : Token → Text
  | .quantity _ _ unit => unit
  | _ => []

/-- The units that some tokens carry. -/
def units (tokens : List Token) : List Text :=
  (tokens.map Token.unit).filter fun unit => !unit.isEmpty

/--
The unit that all quantities with a unit share, as it is written first; it is
empty if none has a unit.
-/
def commonUnit? (tokens : List Token) : Option Text :=
  match units tokens with
  | [] => some []
  | first :: rest => if rest.all first.equalsIgnoringCase then some first else none

end Arithmetic
end LessTheme
