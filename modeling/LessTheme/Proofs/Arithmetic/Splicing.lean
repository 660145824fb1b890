import LessTheme.Proofs.Arithmetic.Grammar

/-!
# Splicing values into expressions

A reference is one operand.  Putting the tokens of a value in its place keeps
the value of the whole if the tokens hold together tightly enough for their
neighbours.  How tightly they hold is decided by the loosest operator outside
all parentheses.
-/

namespace LessTheme
namespace Arithmetic

/-! ## The loosest operator -/

/-- The looser of two levels. -/
def Level.looser (first second : Level) : Level := if first ≤ second then first else second

/--
The level of the loosest operator outside parentheses, given how many are open;
without such an operator the items are a factor.
-/
def loosest : Nat → List Item → Level
  | _, [] => .factor
  | depth, .token .opening :: rest => loosest (depth + 1) rest
  | depth, .token .closing :: rest => loosest (depth - 1) rest
  | 0, .token (.operator operator) :: rest => operator.level.looser (loosest 0 rest)
  | depth, _ :: rest => loosest depth rest

namespace Level

theorem looser_assoc (first second third : Level) :
    (first.looser second).looser third = first.looser (second.looser third) := by
  cases first <;> cases second <;> cases third <;> rfl

theorem factor_looser (level : Level) : factor.looser level = level := by cases level <;> rfl

theorem looser_eq_left
    {first second : Level}
    (isLooser : first ≤ second) :
    first.looser second = first :=
  if_pos isLooser

theorem looser_eq_right
    {first second : Level}
    (isLooser : second ≤ first) :
    first.looser second = second := by
  cases first <;> cases second <;> first | rfl | exact absurd isLooser (by decide)

end Level

/-- Parentheses around items that close what they open hide them. -/
theorem loosest_group
    {inner : List Item}
    (closes : ∀ depth rest, loosest (depth + 1) (inner ++ rest) = loosest (depth + 1) rest)
    (depth : Nat)
    (rest : List Item) :
    loosest depth (.token .opening :: (inner ++ [.token .closing]) ++ rest) =
      loosest depth rest := by
  rw [List.cons_append, List.append_assoc, loosest, closes]
  rfl

namespace Parses

variable {environment : Environment} {level : Level} {items : List Item} {expression : Expression}

/-- What the grammar writes closes the parentheses that it opens. -/
theorem loosest_append
    (parses : Parses environment level items expression)
    (rest : List Item) :
    (∀ depth, loosest (depth + 1) (items ++ rest) = loosest (depth + 1) rest) ∧
      loosest 0 (items ++ rest) = (loosest 0 items).looser (loosest 0 rest) := by
  induction parses generalizing rest with
  | quantity | reference =>
      exact ⟨fun _ => rfl, (Level.factor_looser _).symm⟩
  | @group inner _ _ inductionHypothesis =>
      have hides := loosest_group fun depth rest => (inductionHypothesis rest).1 depth
      have isFactor := hides 0 []
      rw [List.append_nil] at isFactor
      refine ⟨fun depth => hides (depth + 1) rest, ?_⟩
      rw [hides, isFactor]
      exact (Level.factor_looser _).symm
  | ofFactor _ inductionHypothesis => exact inductionHypothesis rest
  | ofProduct _ inductionHypothesis => exact inductionHypothesis rest
  | binary operator _ _ left right =>
      constructor
      · intro depth
        rw [List.append_assoc, (left _).1, List.cons_append, loosest]
        · exact (right rest).1 depth
        all_goals simp
      · rw [List.append_assoc, (left _).2, (left _).2, List.cons_append, loosest, loosest,
          (right rest).2, Level.looser_assoc, Level.looser_assoc]

/-- Items hold together exactly as tightly as their loosest operator. -/
theorem parses_loosest
    (parses : Parses environment level items expression) :
    level ≤ loosest 0 items ∧ Parses environment (loosest 0 items) items expression := by
  induction parses with
  | quantity negative numeral unit =>
      exact ⟨Level.le_refl .factor, .quantity negative numeral unit⟩
  | reference isOperand => exact ⟨Level.le_refl .factor, .reference isOperand⟩
  | group inner =>
      have isFactor := loosest_group (fun depth rest => (inner.loosest_append rest).1 depth) 0 []
      rw [List.append_nil] at isFactor
      rw [isFactor]
      exact ⟨Level.le_refl .factor, inner.group⟩
  | ofFactor _ inductionHypothesis =>
      exact ⟨Level.le_trans (by decide) inductionHypothesis.1, inductionHypothesis.2⟩
  | ofProduct _ inductionHypothesis => exact ⟨Level.sum_le _, inductionHypothesis.2⟩
  | binary operator left right isLeft isRight =>
      have rightTight := Level.le_trans operator.level_le_operandLevel isRight.1
      rw [(left.loosest_append _).2, loosest, Level.looser_eq_left rightTight,
        Level.looser_eq_right isLeft.1]
      exact ⟨Level.le_refl _, left.binary operator right⟩

end Parses

/-! ## Neighbours -/

/-- The loosest level that may follow an item, if later operators may be regrouped. -/
def admittedAfter : Option Item → Level
  | none | some (.token .opening) => .sum
  | some (.token (.operator operator)) => operator.admittedLevel
  | some _ => .factor

/-- The level of the operands that the grammar allows after an item. -/
def operandAfter : Option Item → Level
  | none | some (.token .opening) => .sum
  | some (.token (.operator operator)) => operator.operandLevel
  | some _ => .factor

/-- The loosest level that may stand before an item. -/
def operandBefore : Option Item → Level
  | none | some (.token .closing) => .sum
  | some (.token (.operator operator)) => operator.level
  | some _ => .factor

/-- Items of a level may be spliced in between two neighbours. -/
def Admits (previous : Option Item) (level : Level) (next : Option Item) : Prop :=
  admittedAfter previous ≤ level ∧ operandBefore next ≤ level

instance (previous : Option Item) (level : Level) (next : Option Item) :
    Decidable (Admits previous level next) :=
  inferInstanceAs (Decidable (_ ∧ _))

theorem admittedAfter_le_operandAfter (previous : Option Item) :
    admittedAfter previous ≤ operandAfter previous := by
  unfold admittedAfter operandAfter
  split
  · exact Level.le_refl .sum
  · exact Level.le_refl .sum
  · exact Operator.admittedLevel_le_operandLevel _
  · exact Level.le_factor .factor

/-! ## Splicing -/

section Splicing

variable (put : Text → List Token)

/-- The tokens of some items when tokens are put in the place of references. -/
def splice (items : List Item) : List Token :=
  items.flatMap fun
    | .token token => [token]
    | .reference name => put name

/-- Whether the neighbours of every reference admit what is put in its place. -/
def fits : Option Item → List Item → Option Item → Bool
  | _, [], _ => true
  | _, .token token :: rest, next => fits (some (.token token)) rest next
  | previous, .reference name :: rest, next =>
      decide (Admits previous (loosest 0 ((put name).map Item.token)) (rest.head?.or next)) &&
        fits (some (.reference name)) rest next

variable {put}

theorem splice_append (front back : List Item) :
    splice put (front ++ back) = splice put front ++ splice put back :=
  List.flatMap_append

theorem splice_map_token (tokens : List Token) :
    splice put (tokens.map Item.token) = tokens := by
  rw [splice, List.flatMap_map]
  exact List.flatMap_singleton' tokens

/-- The units of what is spliced in are all that counts for the common unit. -/
theorem commonUnit?_splice_congr
    {other : Text → List Token}
    {items : List Item}
    (sameUnits : ∀ name, .reference name ∈ items → units (put name) = units (other name)) :
    commonUnit? (splice put items) = commonUnit? (splice other items) := by
  have same : units (splice put items) = units (splice other items) := by
    induction items with
    | nil => rfl
    | cons item rest inductionHypothesis =>
        have sameRest := inductionHypothesis fun name member =>
          sameUnits name (List.mem_cons_of_mem item member)
        rw [splice, splice, List.flatMap_cons, List.flatMap_cons, units_append, units_append,
          ← splice, ← splice, sameRest]
        cases item with
        | token token => rfl
        | reference name => rw [sameUnits name List.mem_cons_self]
  unfold commonUnit?
  rw [same]

theorem fits_append_token
    {previous next : Option Item}
    {front back : List Item}
    {token : Token}
    (isFit : fits put previous (front ++ .token token :: back) next = true) :
    fits put previous front (some (.token token)) = true ∧
      fits put (some (.token token)) back next = true := by
  induction front generalizing previous with
  | nil => exact ⟨rfl, isFit⟩
  | cons item rest inductionHypothesis =>
      cases item with
      | token other => exact inductionHypothesis isFit
      | reference name =>
          rw [List.cons_append, fits, Bool.and_eq_true] at isFit
          obtain ⟨restFits, backFits⟩ := inductionHypothesis isFit.2
          refine ⟨?_, backFits⟩
          rw [fits, Bool.and_eq_true]
          refine ⟨?_, restFits⟩
          have sameNext : (rest ++ .token token :: back).head?.or next =
              rest.head?.or (some (.token token)) := by
            cases rest <;> rfl
          rw [← sameNext]
          exact isFit.1

variable {environment : Environment}

/--
Putting tokens of the right values in the place of references keeps the value,
though operations may be regrouped.
-/
theorem Parses.splice
    {level : Level}
    {items : List Item}
    {expression : Expression}
    {value : Rat}
    {previous next : Option Item}
    (puts : ∀ name operand number, environment name = some operand →
      operand.value? rationals = some number →
        ParsesTo environment .sum ((put name).map Item.token) number)
    (parses : Parses environment level items expression)
    (valued : expression.value? rationals = some value)
    (before : operandAfter previous ≤ level)
    (behind : operandBefore next ≤ level)
    (isFit : fits put previous items next = true) :
    ∃ level, Admits previous level next ∧
      ParsesTo environment level ((splice put items).map Item.token) value := by
  induction parses generalizing value previous next with
  | quantity negative numeral unit =>
      exact ⟨.factor, ⟨Level.le_factor _, Level.le_factor _⟩, _,
        .quantity negative numeral unit, valued⟩
  | @reference name operand isOperand =>
      obtain ⟨other, parses, sameValue⟩ := puts name operand value isOperand valued
      rw [fits, Bool.and_eq_true, decide_eq_true_eq] at isFit
      refine ⟨_, isFit.1, other, ?_, sameValue⟩
      rw [Arithmetic.splice, List.flatMap_singleton]
      exact parses.parses_loosest.2
  | @group inner _ _ inductionHypothesis =>
      have innerFits : fits put (some (.token .opening)) inner (some (.token .closing)) = true :=
        (fits_append_token isFit).1
      obtain ⟨level, -, parses⟩ :=
        inductionHypothesis valued (Level.sum_le _) (Level.sum_le _) innerFits
      refine ⟨.factor, ⟨Level.le_factor _, Level.le_factor _⟩, ?_⟩
      have enclosed := (parses.loosen (Level.sum_le level)).group
      change ParsesTo environment .factor (_ :: (Arithmetic.splice put (inner ++ _)).map _) value
      rw [splice_append, List.map_append]
      exact enclosed
  | ofFactor _ inductionHypothesis =>
      exact inductionHypothesis valued (Level.le_factor _) (Level.le_factor _) isFit
  | ofProduct _ inductionHypothesis =>
      exact inductionHypothesis valued (Level.le_trans before (Level.sum_le _))
        (Level.le_trans behind (Level.sum_le _)) isFit
  | binary operator _ _ left right =>
      obtain ⟨leftFits, rightFits⟩ := fits_append_token isFit
      obtain ⟨leftValue, rightValue, isLeft, isRight, nonzero, rfl⟩ :=
        Expression.value?_binary_eq_some_iff.1 valued
      obtain ⟨leftLevel, ⟨-, leftTight⟩, parsesLeft⟩ :=
        left isLeft before (Level.le_refl _) leftFits
      obtain ⟨rightLevel, ⟨rightTight, -⟩, parsesRight⟩ :=
        right isRight (Level.le_refl _)
          (Level.le_trans behind operator.level_le_operandLevel) rightFits
      refine ⟨operator.level, ⟨Level.le_trans (admittedAfter_le_operandAfter _) before, behind⟩, ?_⟩
      have joined := (parsesLeft.loosen leftTight).operation (parsesRight.loosen rightTight) nonzero
      rw [splice_append, List.map_append]
      exact joined

end Splicing

end Arithmetic
end LessTheme
