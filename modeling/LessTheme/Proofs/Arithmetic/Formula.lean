import Mathlib.Algebra.Field.Basic
import LessTheme.Proofs.Arithmetic.Grammar
import LessTheme.Proofs.Arithmetic.Token
import LessTheme.Proofs.Declaration.Line
import LessTheme.Proofs.Text.Trim

/-!
# Formulas

A formula is what the author of an arithmetic value means: quantities, the four
operations, groups in parentheses and negated groups.  Its value is that of
ordinary arithmetic, and it is written with one space around each operator and
the parentheses that precedence asks for.

What is written evaluates to the value of the formula, with the first unit put
back, as long as no divisor is a negated group.
-/

namespace LessTheme
namespace Arithmetic

/-! ## Quantities -/

/-- A decimal number as it is written, with its sign and its unit. -/
structure Quantity where
  /-- Whether a minus stands in front. -/
  negative : Bool
  /-- The digits before the point. -/
  whole : Text
  /-- The digits behind the point, if there is a point. -/
  fraction : Option Text
  /-- The unit, empty if there is none. -/
  unit : Text
  /-- Digits only stand before the point. -/
  isDigit_of_mem_whole : ∀ char ∈ whole, char.isDigit = true := by
    exact List.all_eq_true.1 rfl
  /-- Digits only stand behind the point. -/
  isDigit_of_mem_fraction : ∀ char ∈ fraction.getD [], char.isDigit = true := by
    exact List.all_eq_true.1 rfl
  /-- Units are made of letters and percent signs. -/
  isUnitChar_of_mem_unit : ∀ char ∈ unit, isUnitChar char = true := by
    exact List.all_eq_true.1 rfl
  /-- There is at least one digit. -/
  hasDigit : whole ++ fraction.getD [] ≠ [] := by decide

namespace Quantity

/-- The number as it is written, without sign and unit. -/
def digits (quantity : Quantity) : Text :=
  quantity.whole ++ quantity.fraction.elim [] ('.' :: ·)

/-- The quantity as it is written. -/
def written (quantity : Quantity) : Text :=
  sign quantity.negative ++ (quantity.digits ++ quantity.unit)

/-- The value of the digits before the point and of those behind it. -/
def magnitude (quantity : Quantity) : Rat :=
  Nat.ofDigitChars 10 quantity.whole 0 +
    Nat.ofDigitChars 10 (quantity.fraction.getD []) 0 / 10 ^ (quantity.fraction.getD []).length

/-- The value of the number, the unit left aside. -/
def value (quantity : Quantity) : Rat :=
  if quantity.negative then -quantity.magnitude else quantity.magnitude

/-- The number that the tokens keep. -/
def numeral (quantity : Quantity) : Numeral :=
  ⟨Nat.ofDigitChars 10 (quantity.whole ++ quantity.fraction.getD []) 0,
    (quantity.fraction.getD []).length⟩

/-- The token of a quantity. -/
def token (quantity : Quantity) : Token :=
  .quantity quantity.negative quantity.numeral quantity.unit

/-- The number of a quantity has the value that its digits write. -/
theorem ofNumeral_numeral (quantity : Quantity) :
    rationals.ofNumeral quantity.numeral = quantity.magnitude := by
  have nonzero : (10 : Rat) ^ (quantity.fraction.getD []).length ≠ 0 :=
    pow_ne_zero _ (by decide)
  change mkRat (Nat.ofDigitChars 10 (quantity.whole ++ quantity.fraction.getD []) 0 : Nat)
    (10 ^ (quantity.fraction.getD []).length) = _
  rw [Rat.mkRat_eq_div, Nat.ofDigitChars_append, Nat.ofDigitChars_eq_ofDigitChars_zero, magnitude]
  push_cast
  rw [add_div, mul_div_cancel_left₀ _ nonzero]

end Quantity

theorem isNumeralChar_of_isUnitChar
    {char : Char}
    (isUnit : isUnitChar char = true) :
    isNumeralChar char = false := by
  simp only [isUnitChar, Bool.or_eq_true, beq_iff_eq] at isUnit
  obtain letter | rfl := isUnit
  · have notDigit : char.isDigit = false := by
      unfold Char.isAlpha Char.isUpper Char.isLower at letter
      simp only [Bool.or_eq_true, Bool.and_eq_true, decide_eq_true_eq] at letter
      simp only [Char.isDigit, Bool.and_eq_false_iff, decide_eq_false_iff_not]
      refine Or.inr fun small => ?_
      obtain ⟨large, -⟩ | ⟨large, -⟩ := letter
      · exact absurd (UInt32.le_trans large small) (by decide)
      · exact absurd (UInt32.le_trans large small) (by decide)
    have notPoint : char ≠ '.' := by
      rintro rfl
      contradiction
    simp [isNumeralChar, notDigit, notPoint]
  · rfl

namespace Quantity

theorem isNumeralChar_of_mem_digits
    (quantity : Quantity) :
    ∀ char ∈ quantity.digits, isNumeralChar char = true := by
  have ofDigit : ∀ char : Char, char.isDigit = true → isNumeralChar char = true :=
    fun char isDigit => by simp [isNumeralChar, isDigit]
  intro char member
  obtain inWhole | behind := List.mem_append.1 member
  · exact ofDigit char (quantity.isDigit_of_mem_whole char inWhole)
  · have inFraction := quantity.isDigit_of_mem_fraction
    cases isFraction : quantity.fraction with
    | none =>
        rw [isFraction] at behind
        exact absurd behind List.not_mem_nil
    | some fraction =>
        rw [isFraction] at behind inFraction
        obtain rfl | digit := List.mem_cons.1 behind
        · rfl
        · exact ofDigit char (inFraction char digit)

theorem numeral?_digits (quantity : Quantity) :
    numeral? quantity.digits = some quantity.numeral := by
  have stops : ∀ char, (quantity.fraction.elim [] ('.' :: ·)).head? = some char →
      char.isDigit = false := by
    intro char isFirst
    cases isFraction : quantity.fraction with
    | none =>
        rw [isFraction] at isFirst
        contradiction
    | some fraction =>
        rw [isFraction] at isFirst
        obtain rfl := Option.some.inj isFirst
        rfl
  obtain ⟨front, behind⟩ :=
    Text.takeWhile_append_and_dropWhile_append quantity.isDigit_of_mem_whole stops
  have fraction : (quantity.fraction.elim [] ('.' :: ·)).drop 1 = quantity.fraction.getD [] := by
    cases quantity.fraction <;> rfl
  rw [numeral?, digits, front, behind, fraction, if_neg]
  · rfl
  · simpa [quantity.hasDigit] using quantity.isDigit_of_mem_fraction

theorem quantity?_eq_some (quantity : Quantity) :
    quantity? quantity.negative (quantity.digits ++ quantity.unit) = some quantity.token := by
  obtain ⟨front, behind⟩ := Text.takeWhile_append_and_dropWhile_append
    quantity.isNumeralChar_of_mem_digits fun char isFirst =>
      isNumeralChar_of_isUnitChar
        (quantity.isUnitChar_of_mem_unit char (List.mem_of_mem_head? isFirst))
  rw [quantity?, front, behind, if_pos (List.all_eq_true.2 quantity.isUnitChar_of_mem_unit),
    numeral?_digits]
  rfl

theorem run_ne_nil (quantity : Quantity) : quantity.digits ++ quantity.unit ≠ [] := by
  intro isEmpty
  rw [digits, List.append_assoc, List.append_eq_nil_iff, List.append_eq_nil_iff] at isEmpty
  obtain ⟨noWhole, noFraction, -⟩ := isEmpty
  refine quantity.hasDigit ?_
  cases isFraction : quantity.fraction with
  | none => exact (List.append_nil _).trans noWhole
  | some fraction =>
      rw [isFraction] at noFraction
      contradiction

theorem isRunChar_of_mem_run
    (quantity : Quantity) :
    ∀ char ∈ quantity.digits ++ quantity.unit, isRunChar char = true := by
  intro char member
  obtain inDigits | inUnit := List.mem_append.1 member
  · simp [isRunChar, quantity.isNumeralChar_of_mem_digits char inDigits]
  · simp [isRunChar, quantity.isUnitChar_of_mem_unit char inUnit]

theorem writes (quantity : Quantity) : Writes quantity.written [quantity.token] :=
  Writes.quantity quantity.run_ne_nil quantity.isRunChar_of_mem_run quantity.quantity?_eq_some

end Quantity

/-! ## Formulas -/

/-- An arithmetic formula over quantities. -/
inductive Formula
  | quantity (quantity : Quantity)
  | operation (operator : Operator) (left right : Formula)
  /-- A formula in parentheses. -/
  | group (inner : Formula)
  /-- A minus in front of a formula in parentheses. -/
  | negation (inner : Formula)

/-- The character of an operator. -/
def Operator.mark : Operator → Char
  | .add => '+'
  | .subtract => '-'
  | .multiply => '*'
  | .divide => '/'

namespace Formula

/-- The value of a formula in ordinary arithmetic; nothing if it divides by zero. -/
def value? : Formula → Option Rat
  | .quantity number => some number.value
  | .operation operator left right => do
      let leftValue ← left.value?
      let rightValue ← right.value?
      match operator with
      | .add => return leftValue + rightValue
      | .subtract => return leftValue - rightValue
      | .multiply => return leftValue * rightValue
      | .divide => if rightValue = 0 then none else return leftValue / rightValue
  | .group inner => inner.value?
  | .negation inner => inner.value?.map fun value => -value

/-- The precedence of a formula: a negation binds tighter than any operator. -/
def level : Formula → Level
  | .operation operator _ _ => operator.level
  | .quantity _ | .group _ | .negation _ => .factor

/-- The text of a formula, with the parentheses that precedence asks for. -/
def written : Formula → Text
  | .quantity number => number.written
  | .operation operator left right =>
      enclosed (!decide (operator.level ≤ left.level)) left.written ++
        ' ' :: operator.mark :: ' ' ::
          enclosed (!decide (operator.operandLevel ≤ right.level)) right.written
  | .group inner => '(' :: (inner.written ++ [')'])
  | .negation inner => '-' :: '(' :: (inner.written ++ [')'])

/-- The units of a formula in the order in which they are written. -/
def units : Formula → List Text
  | .quantity number => if number.unit.isEmpty then [] else [number.unit]
  | .operation _ left right => left.units ++ right.units
  | .group inner | .negation inner => inner.units

/-- The unit that is written first, empty if there is none. -/
def unit (formula : Formula) : Text := formula.units.head?.getD []

/-- All units of a formula are one, up to the case of letters. -/
def HasCommonUnit (formula : Formula) : Prop :=
  ∀ first ∈ formula.units, ∀ second ∈ formula.units, first.equalsIgnoringCase second = true

/-- Whether a formula has an operator or a negated group. -/
def hasOperator : Formula → Bool
  | .quantity _ => false
  | .operation .. | .negation _ => true
  | .group inner => inner.hasOperator

/-- Whether a formula is a negated group. -/
def isNegation : Formula → Bool
  | .negation _ => true
  | .quantity _ | .operation .. | .group _ => false

/-- Whether no divisor is a negated group. -/
def dividesPlainly : Formula → Bool
  | .quantity _ => true
  | .operation operator left right =>
      left.dividesPlainly && right.dividesPlainly && !(operator == .divide && right.isNegation)
  | .group inner | .negation inner => inner.dividesPlainly

/-! ### What is written -/

/-- The tokens that a formula is written with. -/
def tokens : Formula → List Token
  | .quantity number => [number.token]
  | .operation operator left right =>
      enclosedTokens (!decide (operator.level ≤ left.level)) left.tokens ++
        .operator operator ::
          enclosedTokens (!decide (operator.operandLevel ≤ right.level)) right.tokens
  | .group inner => .opening :: (inner.tokens ++ [.closing])
  | .negation inner =>
      .quantity true ⟨1, 0⟩ [] :: .operator .multiply :: .opening :: (inner.tokens ++ [.closing])

theorem operator?_mark (operator : Operator) : operator? operator.mark = some operator := by
  cases operator <;> rfl

theorem writes (formula : Formula) : Writes formula.written formula.tokens := by
  induction formula with
  | quantity number => exact number.writes
  | operation operator left right writesLeft writesRight =>
      exact (writesLeft.enclosed _).operation (operator?_mark operator) (writesRight.enclosed _)
  | group inner inductionHypothesis => exact inductionHypothesis.group
  | negation inner inductionHypothesis => exact inductionHypothesis.negation

/-! ### What is read -/

/-- The level at which the tokens of a formula are read: a negation is a product. -/
def readLevel : Formula → Level
  | .negation _ => .product
  | formula => formula.level

theorem level_le_readLevel
    {formula : Formula}
    {operator : Operator}
    (isTight : operator.level ≤ formula.level) :
    operator.level ≤ formula.readLevel := by
  cases formula with
  | negation inner =>
      change operator.level ≤ .product
      cases operator <;> decide
  | quantity | operation | group => exact isTight

theorem admittedLevel_le_readLevel
    {formula : Formula}
    {operator : Operator}
    (isTight : operator.operandLevel ≤ formula.level)
    (isPlain : (operator == .divide && formula.isNegation) = false) :
    operator.admittedLevel ≤ formula.readLevel := by
  cases formula with
  | negation inner =>
      change operator.admittedLevel ≤ .product
      cases operator
      case divide => contradiction
      all_goals decide
  | quantity | operation | group =>
      exact Level.le_trans operator.admittedLevel_le_operandLevel isTight

variable {environment : Environment}

theorem value?_operation_eq_some
    {operator : Operator}
    {left right : Formula}
    {value : Rat}
    (valued : (operation operator left right).value? = some value) :
    ∃ leftValue rightValue,
      left.value? = some leftValue ∧ right.value? = some rightValue ∧
        ¬(operator = .divide ∧ rightValue = 0) ∧
        rationals.apply operator leftValue rightValue = value := by
  obtain ⟨leftValue, isLeft, valued⟩ := Option.bind_eq_some_iff.1 valued
  obtain ⟨rightValue, isRight, valued⟩ := Option.bind_eq_some_iff.1 valued
  refine ⟨leftValue, rightValue, isLeft, isRight, ?_⟩
  cases operator
  case divide =>
    obtain ⟨nonzero, same⟩ := Option.ite_none_left_eq_some.1 valued
    exact ⟨fun isZero => nonzero isZero.2, Option.some.inj same⟩
  all_goals exact ⟨fun isDivision => (nomatch isDivision.1), Option.some.inj valued⟩

/-- The tokens of a formula are read as an expression with the value of the formula. -/
theorem parsesTo
    {formula : Formula}
    {value : Rat}
    (isPlain : formula.dividesPlainly = true)
    (valued : formula.value? = some value) :
    ParsesTo environment formula.readLevel (formula.tokens.map Item.token) value := by
  induction formula generalizing value with
  | quantity number =>
      obtain rfl := Option.some.inj valued
      refine ⟨_, .quantity number.negative number.numeral number.unit, ?_⟩
      rw [Expression.value?, Quantity.ofNumeral_numeral]
      rfl
  | operation operator left right parsesLeft parsesRight =>
      simp only [dividesPlainly, Bool.and_eq_true, Bool.not_eq_true'] at isPlain
      obtain ⟨⟨leftPlain, rightPlain⟩, plainDivisor⟩ := isPlain
      obtain ⟨leftValue, rightValue, isLeft, isRight, nonzero, rfl⟩ :=
        value?_operation_eq_some valued
      rw [tokens, List.map_append, List.map_cons]
      refine ParsesTo.operation ?_ ?_ nonzero
      · refine ParsesTo.enclosed _ (fun notNeeded => ?_) (parsesLeft leftPlain isLeft)
        exact level_le_readLevel (by simpa using notNeeded)
      · refine ParsesTo.enclosed _ (fun notNeeded => ?_) (parsesRight rightPlain isRight)
        exact admittedLevel_le_readLevel (by simpa using notNeeded) plainDivisor
  | group inner inductionHypothesis =>
      exact ParsesTo.enclosed true (fun impossible => absurd impossible (by decide))
        (inductionHypothesis isPlain valued)
  | negation inner inductionHypothesis =>
      obtain ⟨innerValue, isInner, rfl⟩ := Option.map_eq_some_iff.1 valued
      have minusOne : ParsesTo environment .product [.token (.quantity true ⟨1, 0⟩ [])] (-1) :=
        ⟨_, .ofFactor (.quantity true ⟨1, 0⟩ []), by decide⟩
      have enclosed : ParsesTo environment .factor _ innerValue :=
        ParsesTo.enclosed true (fun impossible => absurd impossible (by decide))
          (inductionHypothesis isPlain isInner)
      have product : ParsesTo environment Operator.multiply.level _ (-1 * innerValue) :=
        minusOne.binary enclosed (by simp)
      rwa [neg_one_mul] at product

/-! ### The unit -/

/-- Parentheses, operators and negations have no units. -/
theorem units_tokens (formula : Formula) : Arithmetic.units formula.tokens = formula.units := by
  induction formula with
  | quantity number =>
      rw [tokens, Arithmetic.units, List.map_singleton, List.filter_singleton, units]
      change (bif !number.unit.isEmpty then [number.unit] else []) = _
      cases number.unit <;> rfl
  | operation operator left right inLeft inRight =>
      rw [tokens, ← List.singleton_append, units_append, units_append, units_enclosedTokens,
        units_enclosedTokens, inLeft, inRight]
      rfl
  | group inner inductionHypothesis =>
      exact (units_enclosedTokens true inner.tokens).trans inductionHypothesis
  | negation inner inductionHypothesis =>
      exact (units_enclosedTokens true inner.tokens).trans inductionHypothesis

theorem commonUnit?_tokens
    {formula : Formula}
    (isCommon : formula.HasCommonUnit) :
    commonUnit? formula.tokens = some formula.unit := by
  unfold commonUnit? unit
  rw [units_tokens]
  split
  case h_1 noUnits => rw [noUnits]; rfl
  case h_2 first rest isUnits =>
    rw [HasCommonUnit, isUnits, List.forall_mem_cons] at isCommon
    rw [isUnits, if_pos]
    · rfl
    · exact List.all_eq_true.2 fun other member =>
        isCommon.1 other (List.mem_cons_of_mem first member)

/-! ### The result -/

theorem eq_minus_of_mem_sign
    {negative : Bool}
    {char : Char}
    (member : char ∈ sign negative) :
    char = '-' := by
  cases negative
  case true => exact List.mem_singleton.1 member
  case false => contradiction

theorem isWhiteSpace_of_isRunChar
    {char : Char}
    (isRun : isRunChar char = true) :
    isWhiteSpace char = false := by
  by_contra isBlank
  have unnamed := isNameChar_of_isWhiteSpace (Bool.not_eq_false _ ▸ isBlank)
  simp only [isRunChar, isNumeralChar, isUnitChar, Bool.or_eq_true, beq_iff_eq] at isRun
  obtain (digit | rfl) | letter | rfl := isRun
  · simp [isNameChar, Char.isAlphanum, digit] at unnamed
  · contradiction
  · simp [isNameChar, Char.isAlphanum, letter] at unnamed
  · contradiction

theorem hasDarkEnds_sign_append
    {negative : Bool}
    {run : Text}
    (nonempty : run ≠ [])
    (isRun : ∀ char ∈ run, isRunChar char = true) :
    Text.HasDarkEnds (sign negative ++ run) := by
  refine Text.hasDarkEnds_of_forall ?_ fun char member => ?_
  · exact List.append_ne_nil_of_right_ne_nil _ nonempty
  · obtain inSign | inRun := List.mem_append.1 member
    · obtain rfl := eq_minus_of_mem_sign inSign
      rfl
    · exact isWhiteSpace_of_isRunChar (isRun char inRun)

theorem hasDarkEnds_written (formula : Formula) : Text.HasDarkEnds formula.written := by
  have dark : ∀ char, isWhiteSpace char = false → Text.HasDarkEnds [char] := by
    intro char isDark
    refine Text.hasDarkEnds_of_forall (List.cons_ne_nil char []) fun mark isMark => ?_
    rw [List.mem_singleton.1 isMark, isDark]
  have inParentheses : ∀ text : Text, Text.HasDarkEnds ('(' :: (text ++ [')'])) :=
    fun text => (dark '(' rfl).append (dark ')' rfl) text
  have ofEnclosed : ∀ isNeeded {text}, Text.HasDarkEnds text →
      Text.HasDarkEnds (enclosed isNeeded text) := by
    intro isNeeded text textDark
    cases isNeeded
    case true => exact inParentheses text
    case false => exact textDark
  induction formula with
  | quantity number => exact hasDarkEnds_sign_append number.run_ne_nil number.isRunChar_of_mem_run
  | operation operator left right leftDark rightDark =>
      exact (ofEnclosed _ leftDark).append (ofEnclosed _ rightDark) [' ', operator.mark, ' ']
  | group inner => exact inParentheses inner.written
  | negation inner =>
      exact (dark '-' rfl).append (dark ')' rfl) ('(' :: inner.written)

theorem any_isOperator_tokens
    {formula : Formula}
    (hasOperator : formula.hasOperator = true) :
    formula.tokens.any Token.isOperator = true := by
  induction formula with
  | quantity number => contradiction
  | operation operator left right =>
      rw [tokens, List.any_append, List.any_cons]
      exact Bool.or_eq_true_iff.2 (Or.inr rfl)
  | group inner inductionHypothesis =>
      rw [tokens, List.any_cons, List.any_append, inductionHypothesis hasOperator]
      rfl
  | negation inner => rfl

/--
What is written computes to the value of the formula and its first unit.  With
an operator it is evaluated as well: the number in double precision, if it is
finite, and that unit behind it.
-/
theorem compute?_written_and_evaluate_written
    {formula : Formula}
    {value : Rat}
    (isCommon : formula.HasCommonUnit)
    (isPlain : formula.dividesPlainly = true)
    (valued : formula.value? = some value) :
    compute? rationals formula.written = some (value, formula.unit) ∧
      (formula.hasOperator = true → ∀ number unit,
        compute? doubles formula.written = some (number, unit) → number.isFinite = true →
          evaluate formula.written = Number.format number ++ formula.unit) := by
  have read := formula.writes.tokensOf?_eq_some
  have sameUnit := commonUnit?_tokens isCommon
  constructor
  · let nowhere : Environment := fun _ => none
    have parsed : ParsesTo nowhere _ _ value := parsesTo isPlain valued
    obtain ⟨expression, parses, isValue⟩ := parsed
    have written : expression? formula.tokens = some expression := by
      rw [← openExpression?_map_token nowhere, openExpression?_eq_some_iff]
      exact parses.loosen (Level.sum_le _)
    simp [compute?, read, sameUnit, written, isValue]
  · intro hasOperator number unit computed isFinite
    obtain rfl : formula.unit = unit := by
      obtain ⟨tokens, isTokens, computed⟩ := Option.bind_eq_some_iff.1 computed
      obtain ⟨common, isUnit, computed⟩ := Option.bind_eq_some_iff.1 computed
      obtain ⟨expression, -, computed⟩ := Option.bind_eq_some_iff.1 computed
      obtain ⟨value, -, same⟩ := Option.bind_eq_some_iff.1 computed
      obtain rfl := Option.some.inj (read.symm.trans isTokens)
      rw [sameUnit] at isUnit
      exact (Option.some.inj isUnit).trans (Prod.mk.inj (Option.some.inj same)).2
    have isResult : result? formula.written = some (Number.format number ++ formula.unit) := by
      simpa [result?, read, computed, isFinite] using any_isOperator_tokens hasOperator
    rw [evaluate, (hasDarkEnds_written formula).trim_eq, isResult]
    rfl

instance (formula : Formula) : Decidable formula.HasCommonUnit :=
  inferInstanceAs (Decidable (∀ first ∈ formula.units, ∀ second ∈ formula.units, _ = true))

/-- Precedence, a group and a negated group, as in `(20px + 10px) / 2 - -(1.5PX)`. -/
theorem compute?_written_and_evaluate_written_sample :
    let formula := operation .subtract
      (operation .divide
        (operation .add
          (quantity { negative := false, whole := "20".toList, fraction := none
                      unit := "px".toList })
          (quantity { negative := false, whole := "10".toList, fraction := none
                      unit := "px".toList }))
        (quantity { negative := false, whole := "2".toList, fraction := none, unit := [] }))
      (negation
        (quantity { negative := false, whole := "1".toList, fraction := some "5".toList
                    unit := "PX".toList }))
    let text := "(20px + 10px) / 2 - -(1.5PX)".toList
    formula.HasCommonUnit ∧ formula.dividesPlainly = true ∧ formula.value? = some (33 / 2) ∧
      compute? rationals text = some (33 / 2, "px".toList) ∧
        ∀ number unit, compute? doubles text = some (number, unit) → number.isFinite = true →
          evaluate text = Number.format number ++ "px".toList := by
  intro formula text
  have isCommon : formula.HasCommonUnit := by decide +kernel
  have isPlain : formula.dividesPlainly = true := by decide +kernel
  have valued : formula.value? = some (33 / 2) := by decide +kernel
  obtain ⟨exact, evaluated⟩ := compute?_written_and_evaluate_written isCommon isPlain valued
  exact ⟨isCommon, isPlain, valued, exact, evaluated rfl⟩

/-- The value of `10 / -(5)` is read as that of `10 / -1 * (5)`. -/
theorem compute?_written_ne_value?_sample :
    let formula := operation .divide
      (quantity { negative := false, whole := "10".toList, fraction := none, unit := [] })
      (negation
        (quantity { negative := false, whole := "5".toList, fraction := none, unit := [] }))
    formula.written = "10 / -(5)".toList ∧ formula.HasCommonUnit ∧ formula.hasOperator = true ∧
      formula.value? = some (-2) ∧ compute? rationals formula.written = some (-50, []) := by
  decide +kernel

end Formula
end Arithmetic
end LessTheme
