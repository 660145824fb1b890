import Mathlib.Algebra.Field.Rat
import LessTheme.Arithmetic.Evaluation
import LessTheme.Proofs.Arithmetic.Token

/-!
# The grammar of arithmetic values

The reader of expressions keeps pending operators and goes through the tokens
once.  What it accepts is the usual grammar of sums, products and factors, read
here over *items*: tokens and references, where a reference is one operand.

Two lists of items may be joined by an operator if the right one is tight
enough.  For addition and multiplication that is weaker than the grammar asks,
since they may be regrouped without changing the value.
-/

namespace LessTheme
namespace Arithmetic

/-! ## Items -/

/-- A token, or a reference that stands for one operand. -/
inductive Item
  | token (token : Token)
  | reference (name : Text)
  deriving DecidableEq, Repr

/-- Whether an operand has to follow an item. -/
def Item.isOpen : Item → Bool
  | .token inner => inner.isOpen
  | .reference _ => false

/-- The expressions that references stand for. -/
abbrev Environment := Text → Option Expression

/-- Reads one item; a reference is read like a number. -/
def Reading.stepItem? (environment : Environment) (reading : Reading) : Item → Option Reading
  | .token token => reading.step? token
  | .reference name =>
      match reading.operand with
      | none => (environment name).map fun operand => ⟨some operand, reading.group, reading.outer⟩
      | some _ => none

/-- The expression that some items write. -/
def openExpression? (environment : Environment) (items : List Item) : Option Expression :=
  (items.foldlM (Reading.stepItem? environment) Reading.start).bind Reading.finish?

/-- Items without references write what their tokens write. -/
theorem openExpression?_map_token
    (environment : Environment)
    (tokens : List Token) :
    openExpression? environment (tokens.map Item.token) = expression? tokens := by
  rw [openExpression?, expression?, List.foldlM_map]
  rfl

/-! ## Levels -/

/-- How tightly a list of items holds together. -/
inductive Level
  | sum
  | product
  | factor
  deriving DecidableEq, Repr

namespace Level

/-- The place of a level in the order of tightness. -/
def rank : Level → Nat
  | .sum => 0
  | .product => 1
  | .factor => 2

instance : LE Level := ⟨fun looser tighter => looser.rank ≤ tighter.rank⟩

instance (looser tighter : Level) : Decidable (looser ≤ tighter) :=
  inferInstanceAs (Decidable (looser.rank ≤ tighter.rank))

theorem le_refl (level : Level) : level ≤ level := Nat.le_refl level.rank

theorem le_trans
    {first second third : Level}
    (below : first ≤ second)
    (above : second ≤ third) :
    first ≤ third :=
  Nat.le_trans below above

theorem sum_le (level : Level) : sum ≤ level := Nat.zero_le level.rank

theorem le_factor (level : Level) : level ≤ factor := by cases level <;> decide

end Level

namespace Operator

/-- The level of the operations with an operator. -/
def level : Operator → Level
  | .add | .subtract => .sum
  | .multiply | .divide => .product

/-- The level of the right operands that the grammar allows. -/
def operandLevel : Operator → Level
  | .add | .subtract => .product
  | .multiply | .divide => .factor

/-- The loosest level of right operands that may be regrouped with the left one. -/
def admittedLevel : Operator → Level
  | .add => .sum
  | .subtract | .multiply => .product
  | .divide => .factor

theorem level_le_operandLevel (operator : Operator) :
    operator.level ≤ operator.operandLevel := by
  cases operator <;> decide

theorem admittedLevel_le_operandLevel (operator : Operator) :
    operator.admittedLevel ≤ operator.operandLevel := by
  cases operator <;> decide

/-- Only operators that associate admit right operands of their own level. -/
theorem admittedLevel_eq (operator : Operator) :
    operator.admittedLevel = operator.operandLevel ∨
      operator.admittedLevel = operator.level ∧ (operator = .add ∨ operator = .multiply) := by
  cases operator <;> decide

end Operator

/-! ## The grammar -/

/-- Some items write an expression of a level. -/
inductive Parses (environment : Environment) : Level → List Item → Expression → Prop
  | quantity (negative : Bool) (numeral : Numeral) (unit : Text) :
      Parses environment .factor [.token (.quantity negative numeral unit)]
        (.number negative numeral)
  | reference {name : Text} {operand : Expression} (isOperand : environment name = some operand) :
      Parses environment .factor [.reference name] operand
  | group {items : List Item} {inner : Expression} (parses : Parses environment .sum items inner) :
      Parses environment .factor (.token .opening :: (items ++ [.token .closing])) inner
  | ofFactor {items : List Item} {factor : Expression}
      (parses : Parses environment .factor items factor) :
      Parses environment .product items factor
  | ofProduct {items : List Item} {product : Expression}
      (parses : Parses environment .product items product) :
      Parses environment .sum items product
  | binary (operator : Operator) {leftItems rightItems : List Item} {left right : Expression}
      (parsesLeft : Parses environment operator.level leftItems left)
      (parsesRight : Parses environment operator.operandLevel rightItems right) :
      Parses environment operator.level (leftItems ++ .token (.operator operator) :: rightItems)
        (.binary operator left right)

variable {environment : Environment} {items : List Item} {expression : Expression}

namespace Parses

/-- What holds together tightly may be read as something looser. -/
theorem loosen
    {level looser : Level}
    (parses : Parses environment level items expression)
    (isLooser : looser ≤ level) :
    Parses environment looser items expression := by
  cases level <;> cases looser
  case sum.sum | product.product | factor.factor => exact parses
  case product.sum => exact parses.ofProduct
  case factor.product => exact parses.ofFactor
  case factor.sum => exact parses.ofFactor.ofProduct
  all_goals exact absurd isLooser (by decide)

theorem exists_operand_of_mem
    {level : Level}
    {name : Text}
    (parses : Parses environment level items expression)
    (member : .reference name ∈ items) :
    ∃ operand, environment name = some operand := by
  induction parses with
  | quantity => simp at member
  | @reference other operand isOperand =>
      obtain rfl := Item.reference.inj (List.mem_singleton.1 member)
      exact ⟨operand, isOperand⟩
  | group _ inductionHypothesis =>
      refine inductionHypothesis ?_
      simpa using member
  | ofFactor _ inductionHypothesis | ofProduct _ inductionHypothesis =>
      exact inductionHypothesis member
  | binary operator _ _ inLeft inRight =>
      simp only [List.mem_append, List.mem_cons, reduceCtorEq, false_or] at member
      exact member.elim inLeft inRight

theorem exists_getLast?
    {level : Level}
    (parses : Parses environment level items expression) :
    ∃ last, items.getLast? = some last ∧ last.isOpen = false := by
  induction parses with
  | quantity | reference => exact ⟨_, rfl, rfl⟩
  | group =>
      refine ⟨.token .closing, ?_, rfl⟩
      rw [← List.cons_append, List.getLast?_concat]
  | ofFactor _ inductionHypothesis | ofProduct _ inductionHypothesis => exact inductionHypothesis
  | binary operator _ _ _ inRight =>
      obtain ⟨last, isLast, isClosed⟩ := inRight
      refine ⟨last, ?_, isClosed⟩
      rw [List.getLast?_append, List.getLast?_cons, isLast]
      rfl

/-- The tokens of an expression end with an operand. -/
theorem expectsOperand_eq_false
    {level : Level}
    {tokens : List Token}
    (parses : Parses environment level (tokens.map Item.token) expression)
    (operandNext : Bool) :
    expectsOperand operandNext tokens = false := by
  obtain ⟨last, isLast, isClosed⟩ := parses.exists_getLast?
  rw [List.getLast?_map, Option.map_eq_some_iff] at isLast
  obtain ⟨token, isLast, rfl⟩ := isLast
  exact (expectsOperand_of_getLast? isLast operandNext).trans isClosed

/-! ## Reading what the grammar writes -/

/-- What the reader does with items of a level where an operand is due. -/
def Runs (environment : Environment) (items : List Item) (expression : Expression) :
    Level → Prop
  | .factor => ∀ group outer,
      items.foldlM (Reading.stepItem? environment) ⟨none, group, outer⟩ =
        some ⟨some expression, group, outer⟩
  | .product => ∀ sum outer, ∃ product operand,
      items.foldlM (Reading.stepItem? environment) ⟨none, ⟨sum, none⟩, outer⟩ =
          some ⟨some operand, ⟨sum, product⟩, outer⟩ ∧
        attach product operand = expression
  | .sum => ∀ outer, ∃ group operand,
      items.foldlM (Reading.stepItem? environment) ⟨none, Group.empty, outer⟩ =
          some ⟨some operand, group, outer⟩ ∧
        group.close operand = expression

theorem Runs.binary
    {leftItems rightItems : List Item}
    {left right : Expression}
    (operator : Operator)
    (runsLeft : Runs environment leftItems left operator.level)
    (runsRight : Runs environment rightItems right operator.operandLevel) :
    Runs environment (leftItems ++ .token (.operator operator) :: rightItems)
      (.binary operator left right) operator.level := by
  cases operator
  case add | subtract =>
    intro outer
    obtain ⟨group, operand, read, rfl⟩ := runsLeft outer
    obtain ⟨product, rightOperand, readRight, rfl⟩ := runsRight _ outer
    refine ⟨⟨some ⟨group.close operand, _⟩, product⟩, rightOperand, ?_, rfl⟩
    rw [List.foldlM_append, read]
    exact readRight
  case multiply | divide =>
    intro sum outer
    obtain ⟨product, operand, read, rfl⟩ := runsLeft sum outer
    refine ⟨some ⟨attach product operand, _⟩, right, ?_, rfl⟩
    rw [List.foldlM_append, read]
    exact runsRight _ outer

theorem runs
    {level : Level}
    (parses : Parses environment level items expression) :
    Runs environment items expression level := by
  induction parses with
  | quantity negative numeral unit => exact fun _ _ => rfl
  | reference isOperand =>
      intro group outer
      rw [List.foldlM_cons, Reading.stepItem?, isOperand]
      rfl
  | group _ inductionHypothesis =>
      intro group outer
      obtain ⟨inner, operand, read, rfl⟩ := inductionHypothesis (group :: outer)
      rw [List.foldlM_cons]
      change List.foldlM _ (⟨none, Group.empty, group :: outer⟩ : Reading) _ = _
      rw [List.foldlM_append, read]
      rfl
  | ofFactor _ inductionHypothesis =>
      exact fun sum outer => ⟨none, _, inductionHypothesis ⟨sum, none⟩ outer, rfl⟩
  | ofProduct _ inductionHypothesis =>
      intro outer
      obtain ⟨product, operand, read, rfl⟩ := inductionHypothesis none outer
      exact ⟨⟨none, product⟩, operand, read, rfl⟩
  | binary operator _ _ runsLeft runsRight => exact Runs.binary operator runsLeft runsRight

end Parses

/-! ## Writing what the reader reads -/

/-- The items of a pending operator and its left operand. -/
def ReadsPending (environment : Environment) (level : Level) :
    Option Pending → List Item → Prop
  | none, items => items = []
  | some pending, items => pending.operator.level = level ∧ ∃ leftItems,
      items = leftItems ++ [.token (.operator pending.operator)] ∧
        Parses environment level leftItems pending.left

/-- The items that wait for an operand since the last open parenthesis. -/
def ReadsGroup (environment : Environment) (group : Group) (items : List Item) : Prop :=
  ∃ sumItems productItems, items = sumItems ++ productItems ∧
    ReadsPending environment .sum group.sum sumItems ∧
    ReadsPending environment .product group.product productItems

/-- The items of the groups around the innermost one, each with its parenthesis. -/
def ReadsOuter (environment : Environment) : List Group → List Item → Prop
  | [], items => items = []
  | group :: outer, items => ∃ before inside,
      items = before ++ inside ++ [.token .opening] ∧
        ReadsOuter environment outer before ∧ ReadsGroup environment group inside

/-- The items of the operand just completed. -/
def ReadsOperand (environment : Environment) : Option Expression → List Item → Prop
  | none, items => items = []
  | some operand, items => Parses environment .factor items operand

/-- The items that a reader has gone through. -/
def Reads (environment : Environment) (reading : Reading) (items : List Item) : Prop :=
  ∃ before inside last, items = before ++ inside ++ last ∧
    ReadsOuter environment reading.outer before ∧
    ReadsGroup environment reading.group inside ∧
    ReadsOperand environment reading.operand last

theorem ReadsPending.attach
    {operator : Operator}
    {pending : Option Pending}
    {pendingItems : List Item}
    (reads : ReadsPending environment operator.level pending pendingItems)
    (parses : Parses environment operator.operandLevel items expression) :
    Parses environment operator.level (pendingItems ++ items) (attach pending expression) := by
  cases pending with
  | none =>
      obtain rfl := reads
      exact parses.loosen operator.level_le_operandLevel
  | some pending =>
      obtain ⟨sameLevel, leftItems, rfl, parsesLeft⟩ := reads
      have sameOperandLevel : pending.operator.operandLevel = operator.operandLevel := by
        revert sameLevel
        generalize pending.operator = other
        cases operator <;> cases other <;> decide
      rw [List.append_assoc, List.singleton_append, ← sameLevel]
      rw [← sameLevel] at parsesLeft
      rw [← sameOperandLevel] at parses
      exact parsesLeft.binary pending.operator parses

/-- A group that ends with an operand is a sum. -/
theorem ReadsGroup.close
    {group : Group}
    {inside : List Item}
    (reads : ReadsGroup environment group inside)
    (parses : Parses environment .factor items expression) :
    Parses environment .sum (inside ++ items) (group.close expression) := by
  obtain ⟨sumItems, productItems, rfl, readsSum, readsProduct⟩ := reads
  have product : Parses environment Operator.multiply.level (productItems ++ items)
      (attach group.product expression) := readsProduct.attach parses
  have sum : Parses environment Operator.add.level (sumItems ++ (productItems ++ items))
      (group.close expression) := readsSum.attach product
  rwa [List.append_assoc]

theorem ReadsGroup.push
    {group : Group}
    {inside : List Item}
    (reads : ReadsGroup environment group inside)
    (parses : Parses environment .factor items expression)
    (operator : Operator) :
    ReadsGroup environment (group.push expression operator)
      (inside ++ items ++ [.token (.operator operator)]) := by
  obtain ⟨sumItems, productItems, rfl, readsSum, readsProduct⟩ := id reads
  have product : Parses environment Operator.multiply.level (productItems ++ items)
      (attach group.product expression) := readsProduct.attach parses
  cases operator
  case add | subtract =>
    exact ⟨_, [], (List.append_nil _).symm, ⟨rfl, _, rfl, reads.close parses⟩, rfl⟩
  case multiply | divide =>
    refine ⟨sumItems, _, ?_, readsSum, rfl, _, rfl, product⟩
    simp only [List.append_assoc]

theorem Reads.stepItem?
    {reading next : Reading}
    {item : Item}
    (reads : Reads environment reading items)
    (stepped : reading.stepItem? environment item = some next) :
    Reads environment next (items ++ [item]) := by
  obtain ⟨operand, group, outer⟩ := reading
  obtain ⟨before, inside, last, rfl, readsOuter, readsGroup, readsOperand⟩ := reads
  unfold Reading.stepItem? at stepped
  split at stepped
  case h_1 token =>
    unfold Reading.step? at stepped
    split at stepped
    case h_1 negative numeral unit none =>
      obtain rfl := Option.some.inj stepped
      dsimp only at none
      subst none
      obtain rfl := readsOperand
      refine ⟨before, inside, _, ?_, readsOuter, readsGroup, .quantity negative numeral unit⟩
      rw [List.append_nil]
    case h_2 operator operand isOperand =>
      obtain rfl := Option.some.inj stepped
      dsimp only at isOperand
      subst isOperand
      refine ⟨before, _, [], ?_, readsOuter, readsGroup.push readsOperand operator, rfl⟩
      simp only [List.append_assoc, List.append_nil]
    case h_3 none =>
      obtain rfl := Option.some.inj stepped
      dsimp only at none
      subst none
      obtain rfl := readsOperand
      refine ⟨_, [], [], ?_, ⟨before, inside, rfl, readsOuter, readsGroup⟩, ?_, rfl⟩
      · simp only [List.append_nil]
      · exact ⟨[], [], rfl, rfl, rfl⟩
    case h_4 operand around further isOperand isOuter =>
      obtain rfl := Option.some.inj stepped
      dsimp only at isOperand isOuter
      subst isOperand isOuter
      obtain ⟨earlier, waiting, rfl, readsFurther, readsAround⟩ := readsOuter
      refine ⟨earlier, waiting, _, ?_, readsFurther, readsAround,
        (readsGroup.close readsOperand).group⟩
      simp only [List.append_assoc, List.cons_append, List.nil_append]
    case h_5 => contradiction
  case h_2 name =>
    split at stepped
    case h_1 none =>
      obtain ⟨operand, isOperand, rfl⟩ := Option.map_eq_some_iff.1 stepped
      dsimp only at none
      subst none
      obtain rfl := readsOperand
      refine ⟨before, inside, _, ?_, readsOuter, readsGroup, .reference isOperand⟩
      rw [List.append_nil]
    case h_2 => contradiction

theorem Reads.foldlM
    {reading last : Reading}
    {others : List Item}
    (reads : Reads environment reading items)
    (run : others.foldlM (Reading.stepItem? environment) reading = some last) :
    Reads environment last (items ++ others) := by
  induction others generalizing reading items with
  | nil =>
      obtain rfl := Option.some.inj run
      rwa [List.append_nil]
  | cons item rest inductionHypothesis =>
      obtain ⟨next, stepped, run⟩ := Option.bind_eq_some_iff.1 run
      rw [← List.singleton_append, ← List.append_assoc]
      exact inductionHypothesis (reads.stepItem? stepped) run

/-- The reader accepts the sums of the grammar, and reads each as the grammar does. -/
theorem openExpression?_eq_some_iff :
    openExpression? environment items = some expression ↔
      Parses environment .sum items expression := by
  constructor
  · intro read
    obtain ⟨last, run, finished⟩ := Option.bind_eq_some_iff.1 read
    have start : Reads environment Reading.start [] :=
      ⟨[], [], [], rfl, rfl, ⟨[], [], rfl, rfl, rfl⟩, rfl⟩
    have reads : Reads environment last items := start.foldlM run
    obtain ⟨operand, group, outer⟩ := last
    unfold Reading.finish? at finished
    split at finished
    case h_1 operand isOperand isOuter =>
      obtain rfl := Option.some.inj finished
      dsimp only at isOperand isOuter
      subst isOperand isOuter
      obtain ⟨before, inside, last, rfl, rfl, readsGroup, readsOperand⟩ := reads
      exact readsGroup.close readsOperand
    case h_2 => contradiction
  · intro parses
    obtain ⟨group, operand, read, rfl⟩ := parses.runs []
    rw [openExpression?, Reading.start, read]
    rfl

/-! ## Values -/

/-- An operation has a value if both operands have one and zero does not divide. -/
theorem Expression.value?_binary_eq_some_iff
    {operator : Operator}
    {left right : Expression}
    {value : Rat} :
    (binary operator left right).value? rationals = some value ↔
      ∃ leftValue rightValue,
        left.value? rationals = some leftValue ∧ right.value? rationals = some rightValue ∧
          ¬(operator = .divide ∧ rightValue = 0) ∧
          rationals.apply operator leftValue rightValue = value := by
  have isZero : ∀ number : Rat, rationals.isZero number = true ↔ number = 0 :=
    fun number => beq_iff_eq
  simp only [Expression.value?, bind, Option.bind_eq_some_iff, isZero,
    Option.ite_none_left_eq_some, pure, Option.some.injEq]
  constructor
  · rintro ⟨leftValue, isLeft, rightValue, isRight, nonzero, rfl⟩
    exact ⟨leftValue, rightValue, isLeft, isRight, nonzero, rfl⟩
  · rintro ⟨leftValue, rightValue, isLeft, isRight, nonzero, rfl⟩
    exact ⟨leftValue, isLeft, rightValue, isRight, nonzero, rfl⟩

/-- Some items write an expression of a level that has the given value. -/
def ParsesTo (environment : Environment) (level : Level) (items : List Item) (value : Rat) :
    Prop :=
  ∃ expression, Parses environment level items expression ∧
    expression.value? rationals = some value

namespace ParsesTo

variable {leftItems rightItems : List Item} {leftValue rightValue value : Rat}

theorem loosen
    {level looser : Level}
    (parses : ParsesTo environment level items value)
    (isLooser : looser ≤ level) :
    ParsesTo environment looser items value :=
  parses.imp fun _ read => ⟨read.1.loosen isLooser, read.2⟩

theorem group
    (parses : ParsesTo environment .sum items value) :
    ParsesTo environment .factor (.token .opening :: (items ++ [.token .closing])) value :=
  parses.imp fun _ read => ⟨read.1.group, read.2⟩

/-- Tokens in parentheses are a factor, and so may stand anywhere. -/
theorem enclosed
    {tokens : List Token}
    {level wanted : Level}
    (isNeeded : Bool)
    (isTight : isNeeded = false → wanted ≤ level)
    (parses : ParsesTo environment level (tokens.map Item.token) value) :
    ParsesTo environment wanted ((enclosedTokens isNeeded tokens).map Item.token) value := by
  cases isNeeded
  case true =>
    have enclosed := (parses.loosen (Level.sum_le level)).group
    rw [enclosedTokens, if_pos rfl, List.map_cons, List.map_append]
    exact enclosed.loosen (Level.le_factor wanted)
  case false => exact parses.loosen (isTight rfl)

theorem binary
    {operator : Operator}
    (parsesLeft : ParsesTo environment operator.level leftItems leftValue)
    (parsesRight : ParsesTo environment operator.operandLevel rightItems rightValue)
    (nonzero : ¬(operator = .divide ∧ rightValue = 0)) :
    ParsesTo environment operator.level (leftItems ++ .token (.operator operator) :: rightItems)
      (rationals.apply operator leftValue rightValue) := by
  obtain ⟨left, readLeft, isLeft⟩ := parsesLeft
  obtain ⟨right, readRight, isRight⟩ := parsesRight
  exact ⟨_, readLeft.binary operator readRight,
    Expression.value?_binary_eq_some_iff.2 ⟨_, _, isLeft, isRight, nonzero, rfl⟩⟩

end ParsesTo

/-- Operations of one level may be regrouped behind addition and multiplication. -/
theorem apply_apply
    {operator other : Operator}
    (associates : operator = .add ∨ operator = .multiply)
    (sameLevel : other.level = operator.level)
    (first second third : Rat) :
    rationals.apply operator first (rationals.apply other second third) =
      rationals.apply other (rationals.apply operator first second) third := by
  obtain rfl | rfl := associates <;> cases other
  case inl.add => exact (add_assoc first second third).symm
  case inl.subtract => exact (add_sub_assoc first second third).symm
  case inr.multiply => exact (mul_assoc first second third).symm
  case inr.divide => exact (mul_div_assoc first second third).symm
  all_goals contradiction

namespace ParsesTo

variable {leftItems rightItems : List Item} {leftValue rightValue value : Rat}

/-- What stands right of an operator that associates may be an operation of its level. -/
theorem regroup
    {operator : Operator}
    (associates : operator = .add ∨ operator = .multiply)
    (parsesLeft : ParsesTo environment operator.level leftItems leftValue)
    (parsesRight : ParsesTo environment operator.level rightItems rightValue) :
    ParsesTo environment operator.level (leftItems ++ .token (.operator operator) :: rightItems)
      (rationals.apply operator leftValue rightValue) := by
  have plain : ∀ number : Rat, ¬(operator = .divide ∧ number = 0) := by
    rintro number ⟨rfl, -⟩
    simp at associates
  have ofOperand : ∀ {items value}, ParsesTo environment operator.operandLevel items value →
      ParsesTo environment operator.level (leftItems ++ .token (.operator operator) :: items)
        (rationals.apply operator leftValue value) :=
    fun parsesOperand => parsesLeft.binary parsesOperand (plain _)
  obtain ⟨right, readRight, isRight⟩ := parsesRight
  -- The induction runs down the left spine of the right operand.
  generalize isLevel : operator.level = level at readRight
  induction readRight generalizing rightValue with
  | quantity | reference | group => cases operator <;> contradiction
  | ofFactor readFactor =>
      have operandLevel : operator.operandLevel = .factor := by
        cases operator <;> first | rfl | contradiction
      rw [← operandLevel] at readFactor
      exact isLevel ▸ ofOperand ⟨_, readFactor, isRight⟩
  | ofProduct readProduct =>
      have operandLevel : operator.operandLevel = .product := by
        cases operator <;> first | rfl | contradiction
      rw [← operandLevel] at readProduct
      exact isLevel ▸ ofOperand ⟨_, readProduct, isRight⟩
  | binary other readFirst readSecond inductionHypothesis =>
      obtain ⟨firstValue, secondValue, isFirst, isSecond, nonzero, rfl⟩ :=
        Expression.value?_binary_eq_some_iff.1 isRight
      have first := inductionHypothesis isFirst isLevel
      rw [apply_apply associates isLevel.symm]
      have joined := first.binary ⟨_, readSecond, isSecond⟩ nonzero
      rwa [List.append_assoc, List.cons_append] at joined

/-- An operation may have any right operand that its operator admits. -/
theorem operation
    {operator : Operator}
    (parsesLeft : ParsesTo environment operator.level leftItems leftValue)
    (parsesRight : ParsesTo environment operator.admittedLevel rightItems rightValue)
    (nonzero : ¬(operator = .divide ∧ rightValue = 0)) :
    ParsesTo environment operator.level (leftItems ++ .token (.operator operator) :: rightItems)
      (rationals.apply operator leftValue rightValue) := by
  obtain isOperand | ⟨isLevel, associates⟩ := operator.admittedLevel_eq
  · rw [isOperand] at parsesRight
    exact parsesLeft.binary parsesRight nonzero
  · rw [isLevel] at parsesRight
    exact parsesLeft.regroup associates parsesRight

end ParsesTo

end Arithmetic
end LessTheme
