import LessTheme.Arithmetic.Token

/-!
# Arithmetic expressions

Tokens are read into an expression tree.  Multiplication and division bind
tighter than addition and subtraction, and operators of one level associate to
the left.
-/

namespace LessTheme
namespace Arithmetic

/-- An arithmetic expression; units are kept apart. -/
inductive Expression
  | number (negative : Bool) (numeral : Numeral)
  | binary (operator : Operator) (left right : Expression)
  deriving DecidableEq, Repr

/-- An operator whose left operand is complete. -/
structure Pending where
  /-- The operand on the left. -/
  left : Expression
  /-- The operator. -/
  operator : Operator
  deriving DecidableEq, Repr

/-- What waits for an operand since the last open parenthesis. -/
structure Group where
  /-- The pending addition or subtraction. -/
  sum : Option Pending
  /-- The pending multiplication or division. -/
  product : Option Pending
  deriving DecidableEq, Repr

/-- Gives a pending operator its right operand. -/
def attach : Option Pending → Expression → Expression
  | none, operand => operand
  | some pending, operand => .binary pending.operator pending.left operand

namespace Group

/-- A group in which nothing waits. -/
def empty : Group := ⟨none, none⟩

/-- The expression of a group that ends with the given operand. -/
def close (group : Group) (operand : Expression) : Expression :=
  attach group.sum (attach group.product operand)

/-- The group after an operand and an operator. -/
def push (group : Group) (operand : Expression) : Operator → Group
  | .add => ⟨some ⟨group.close operand, .add⟩, none⟩
  | .subtract => ⟨some ⟨group.close operand, .subtract⟩, none⟩
  | .multiply => ⟨group.sum, some ⟨attach group.product operand, .multiply⟩⟩
  | .divide => ⟨group.sum, some ⟨attach group.product operand, .divide⟩⟩

end Group

/-- An expression that is partly read. -/
structure Reading where
  /-- The operand just completed, if the last token completed one. -/
  operand : Option Expression
  /-- What waits inside the innermost open parenthesis. -/
  group : Group
  /-- What waits around it, innermost first. -/
  outer : List Group
  deriving DecidableEq, Repr

namespace Reading

/-- The reading before the first token. -/
def start : Reading := ⟨none, Group.empty, []⟩

/-- Reads one token. -/
def step? (reading : Reading) (token : Token) : Option Reading :=
  match token, reading.operand, reading.outer with
  | .quantity negative numeral _, none, outer =>
      some ⟨some (.number negative numeral), reading.group, outer⟩
  | .operator operator, some operand, outer =>
      some ⟨none, reading.group.push operand operator, outer⟩
  | .opening, none, outer => some ⟨none, Group.empty, reading.group :: outer⟩
  | .closing, some operand, group :: outer =>
      some ⟨some (reading.group.close operand), group, outer⟩
  | _, _, _ => none

/-- The expression that is read, if it is complete. -/
def finish? (reading : Reading) : Option Expression :=
  match reading.operand, reading.outer with
  | some operand, [] => some (reading.group.close operand)
  | _, _ => none

end Reading

/-- The expression that some tokens write. -/
def expression? (tokens : List Token) : Option Expression :=
  (tokens.foldlM Reading.step? Reading.start).bind Reading.finish?

end Arithmetic
end LessTheme
