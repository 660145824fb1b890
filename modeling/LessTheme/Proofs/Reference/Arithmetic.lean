import LessTheme.Proofs.Arithmetic.Splicing
import LessTheme.Proofs.Reference.Fragment
import LessTheme.Proofs.Text.Trim

/-!
# Substitution in arithmetic values

A value with references is an expression if it is one with each reference read
as one operand, standing for the expression of its own value.  Substitution
keeps the number that this expression computes to, if each value put in without
parentheses holds together tightly enough for its neighbours.
-/

namespace LessTheme
namespace Reference

open Arithmetic

/-! ## Values cut at their references -/

/-- A reference and the text up to the next one. -/
structure Slot where
  /-- The name that the reference refers to. -/
  name : Text
  /-- The text behind the reference. -/
  behind : Text

/-- A value cut at its references. -/
structure Template where
  /-- The text in front of the first reference. -/
  front : Text
  /-- The references, each with the text behind it. -/
  slots : List Slot

/-- The template with a fragment in front. -/
def Template.prepend (fragment : Fragment) (template : Template) : Template :=
  match fragment with
  | .plain text => ⟨text ++ template.front, template.slots⟩
  | .reference name => ⟨[], ⟨name, template.front⟩ :: template.slots⟩

/-- The template of a value. -/
def template (value : Text) : Template := (fragments value).foldr Template.prepend ⟨[], []⟩

/-- The text of some slots when texts are put in the place of the references. -/
def fillSlots (put : Text → Text) (slots : List Slot) : Text :=
  slots.flatMap fun slot => put slot.name ++ slot.behind

variable {value? : Text → Option Text} {embed : Text → Text}

theorem flatMap_substitute_eq_fillSlots (fragments : List Fragment) :
    fragments.flatMap (Fragment.substitute value? embed) =
      (fragments.foldr Template.prepend ⟨[], []⟩).front ++
        fillSlots (fun name => Fragment.substitute value? embed (.reference name))
          (fragments.foldr Template.prepend ⟨[], []⟩).slots := by
  induction fragments with
  | nil => rfl
  | cons fragment rest inductionHypothesis =>
      rw [List.flatMap_cons, inductionHypothesis, List.foldr_cons]
      cases fragment with
      | plain text => exact (List.append_assoc _ _ _).symm
      | reference name => exact (List.append_assoc _ _ _).symm

/-- How the values of references are put into a value. -/
def embedding (value : Text) : Text → Text :=
  if (bareName? value).isSome then Text.trim else embedded

theorem substituteWith_eq_fillSlots (value : Text) :
    substituteWith value? value =
      (template value).front ++
        fillSlots (fun name => Fragment.substitute value? (embedding value) (.reference name))
          (template value).slots :=
  flatMap_substitute_eq_fillSlots (fragments value)

/-- A value is put in with parentheses or without. -/
theorem exists_embedding_eq_enclosed (value found : Text) :
    ∃ isNeeded, embedding value found = enclosed isNeeded found.trim := by
  unfold embedding
  split
  · exact ⟨false, rfl⟩
  · exact ⟨hasInfix found && !isParenthesized found, rfl⟩

/-! ## Values as items -/

/-- The items of some slots, given whether an operand has to come next. -/
def slotItems? : Bool → List Slot → Option (List Item)
  | _, [] => some []
  | false, _ :: _ => none
  | true, slot :: rest => do
      let tokens ← tokens? false false (lexemes slot.behind)
      let later ← slotItems? (expectsOperand false tokens) rest
      return .reference slot.name :: (tokens.map Item.token ++ later)

/-- The items of a value, each reference read as a number is. -/
def items? (value : Text) : Option (List Item) := do
  let tokens ← tokensOf? (template value).front
  let later ← slotItems? (expectsOperand true tokens) (template value).slots
  return tokens.map Item.token ++ later

/-- The tokens of a text and of slots that are filled behind it. -/
theorem tokens?_append_fillSlots
    {put : Text → Text}
    {putTokens : Text → List Token}
    {slots : List Slot}
    {operandNext afterBlank : Bool}
    {text : Text}
    {tokens : List Token}
    {later : List Item}
    (writes : ∀ name, .reference name ∈ later → Writes (put name) (putTokens name))
    (read : tokens? operandNext afterBlank (lexemes text) = some tokens)
    (readSlots : slotItems? (expectsOperand operandNext tokens) slots = some later) :
    tokens? operandNext afterBlank (lexemes (text ++ fillSlots put slots)) =
      some (tokens ++ splice putTokens later) := by
  induction slots generalizing operandNext afterBlank text tokens later with
  | nil =>
      obtain rfl : [] = later := by
        rw [slotItems?] at readSlots
        exact Option.some.inj readSlots
      rw [fillSlots, List.flatMap_nil, List.append_nil, read]
      exact congrArg some (List.append_nil tokens).symm
  | cons slot rest inductionHypothesis =>
      cases isDue : expectsOperand operandNext tokens with
      | false =>
          rw [isDue] at readSlots
          contradiction
      | true =>
          rw [isDue, slotItems?] at readSlots
          obtain ⟨behindTokens, readBehind, readSlots⟩ := Option.bind_eq_some_iff.1 readSlots
          obtain ⟨restItems, readRest, same⟩ := Option.bind_eq_some_iff.1 readSlots
          obtain rfl := Option.some.inj same
          have writesRest : ∀ name, .reference name ∈ restItems →
              Writes (put name) (putTokens name) := fun name member =>
            writes name (List.mem_cons_of_mem _ (List.mem_append_right _ member))
          have readTail := inductionHypothesis writesRest readBehind readRest
          have tailApart := startsApart_of_tokens?_false readTail
          have isFilled : text ++ fillSlots put (slot :: rest) =
              text ++ (put slot.name ++ (slot.behind ++ fillSlots put rest)) := by
            rw [fillSlots, List.flatMap_cons, List.append_assoc (put slot.name)]
            rfl
          have isSpliced : splice putTokens
              (.reference slot.name :: (behindTokens.map Item.token ++ restItems)) =
                putTokens slot.name ++ (behindTokens ++ splice putTokens restItems) := by
            rw [splice, List.flatMap_cons, ← splice, splice_append, splice_map_token]
          rw [isFilled, lexemes_append (Or.inl (endsApart_of_expectsOperand read isDue)),
            tokens?_append read, isDue, writes slot.name List.mem_cons_self _ _ tailApart, readTail,
            isSpliced]
          rfl

/-! ## Computing with references -/

section Computing

variable (values : OrderedMap Text)

/-- The value that a map gives to a reference. -/
def found? (name : Text) : Option Text := (Fragment.reference name).name?.bind values.get?

/-- The tokens of the value of a reference. -/
def valueTokens? (name : Text) : Option (List Token) :=
  (found? values name).bind fun found => tokensOf? found.trim

/-- The expression that the value of a reference writes. -/
def operand? : Environment := fun name => (valueTokens? values name).bind expression?

/-- The tokens that are put in the place of a reference. -/
def embeddedTokens (value name : Text) : List Token :=
  ((found? values name).bind fun found => tokensOf? (embedding value found)).getD []

/--
The exact number and the unit of a value in which each reference stands for
what its own value computes to; nothing if there is none.
-/
def computeOpen? (value : Text) : Option (Rat × Text) := do
  let items ← items? value
  let unit ← commonUnit? (splice (fun name => (valueTokens? values name).getD []) items)
  let number ← (← openExpression? (operand? values) items).value? rationals
  return (number, unit)

/-- Whether each value that is put in holds together tightly enough for its neighbours. -/
def embedsTightly (value : Text) : Bool :=
  (items? value).all fun items => fits (embeddedTokens values value) none items none

end Computing

variable {values : OrderedMap Text}

/-- What is put in the place of an operand, with parentheses or without. -/
theorem exists_embedded_of_operand?_eq_some
    {name : Text}
    {operand : Expression}
    (isOperand : operand? values name = some operand)
    (value : Text) :
    ∃ isNeeded tokens,
      valueTokens? values name = some tokens ∧ expression? tokens = some operand ∧
        embeddedTokens values value name = enclosedTokens isNeeded tokens ∧
        Writes (Fragment.substitute values.get? (embedding value) (.reference name))
          (enclosedTokens isNeeded tokens) := by
  obtain ⟨tokens, isTokens, written⟩ := Option.bind_eq_some_iff.1 isOperand
  obtain ⟨found, isFound, read⟩ := Option.bind_eq_some_iff.1 isTokens
  obtain ⟨isNeeded, isEmbedded⟩ := exists_embedding_eq_enclosed value found
  have parses : Parses (operand? values) .sum (tokens.map Item.token) operand := by
    rwa [← openExpression?_eq_some_iff, openExpression?_map_token]
  have notBlank : ∀ char, found.trim.getLast? = some char → isBlankMark char = false := by
    intro char isLast
    have dark := Text.isWhiteSpace_of_getLast?_trim isLast
    by_contra isBlank
    simp only [isBlankMark, Bool.not_eq_false, Bool.or_eq_true, beq_iff_eq] at isBlank
    obtain (rfl | rfl) | rfl := isBlank <;> contradiction
  have writes : Writes (embedding value found) (enclosedTokens isNeeded tokens) := by
    rw [isEmbedded]
    exact (Writes.of_tokensOf?_eq_some read (parses.expectsOperand_eq_false true)
      (endsBlank_lexemes_eq_false notBlank)).enclosed isNeeded
  refine ⟨isNeeded, tokens, isTokens, written, ?_, ?_⟩
  · rw [embeddedTokens, isFound, Option.bind_some, writes.tokensOf?_eq_some, Option.getD_some]
  · have isPut : Fragment.substitute values.get? (embedding value) (.reference name) =
        embedding value found := by
      unfold found? at isFound
      rw [Fragment.substitute, isFound]
    rwa [isPut]

/--
Substitution keeps what a value computes to, the value of each reference being
read on its own, if every value that is put in fits its neighbours.
-/
theorem compute?_substitute
    {value : Text}
    {result : Rat × Text}
    (computed : computeOpen? values value = some result)
    (isTight : embedsTightly values value = true) :
    compute? rationals (substitute values value) = some result := by
  obtain ⟨items, isItems, computed⟩ := Option.bind_eq_some_iff.1 computed
  obtain ⟨unit, isUnit, computed⟩ := Option.bind_eq_some_iff.1 computed
  obtain ⟨expression, isExpression, computed⟩ := Option.bind_eq_some_iff.1 computed
  obtain ⟨number, valued, same⟩ := Option.bind_eq_some_iff.1 computed
  obtain rfl := Option.some.inj same
  rw [embedsTightly, isItems, Option.all_some] at isTight
  have parses := openExpression?_eq_some_iff.1 isExpression
  have read : tokensOf? (substitute values value) =
      some (splice (embeddedTokens values value) items) := by
    obtain ⟨front, readFront, isItems⟩ := Option.bind_eq_some_iff.1 isItems
    obtain ⟨later, readSlots, same⟩ := Option.bind_eq_some_iff.1 isItems
    obtain rfl := Option.some.inj same
    rw [splice_append, splice_map_token, substitute, substituteWith_eq_fillSlots]
    refine tokens?_append_fillSlots (fun name member => ?_) readFront readSlots
    obtain ⟨operand, isOperand⟩ := parses.exists_operand_of_mem (List.mem_append_right _ member)
    obtain ⟨isNeeded, tokens, -, -, isEmbedded, writes⟩ :=
      exists_embedded_of_operand?_eq_some isOperand value
    rwa [isEmbedded]
  have sameUnit : commonUnit? (splice (embeddedTokens values value) items) = some unit := by
    rw [← isUnit]
    refine commonUnit?_splice_congr fun name member => ?_
    obtain ⟨operand, isOperand⟩ := parses.exists_operand_of_mem member
    obtain ⟨isNeeded, tokens, isTokens, -, isEmbedded, -⟩ :=
      exists_embedded_of_operand?_eq_some isOperand value
    rw [isEmbedded, isTokens, units_enclosedTokens, Option.getD_some]
  have puts : ∀ name operand number, operand? values name = some operand →
      operand.value? rationals = some number →
        ParsesTo (operand? values) .sum
          ((embeddedTokens values value name).map Item.token) number := by
    intro name operand number isOperand isNumber
    obtain ⟨isNeeded, tokens, -, written, isEmbedded, -⟩ :=
      exists_embedded_of_operand?_eq_some isOperand value
    rw [isEmbedded]
    rw [← openExpression?_map_token (operand? values), openExpression?_eq_some_iff] at written
    exact ParsesTo.enclosed isNeeded (fun _ => Level.le_refl .sum) ⟨operand, written, isNumber⟩
  obtain ⟨level, -, spliced, parsesSpliced, isNumber⟩ :=
    parses.splice puts valued (Level.sum_le _) (Level.sum_le _) isTight
  have written : expression? (splice (embeddedTokens values value) items) = some spliced := by
    rw [← openExpression?_map_token (operand? values), openExpression?_eq_some_iff]
    exact parsesSpliced.loosen (Level.sum_le level)
  simp [compute?, read, sameUnit, written, isNumber]

/-- A sum gets parentheses in front of an operator, and a tight difference needs none there. -/
theorem compute?_substitute_sample :
    let values := OrderedMap.ofList
      [("gap".toList, "10px + 5px".toList), ("pair".toList, "10px-5px".toList)]
    let value := "@pair + @gap * 2".toList
    computeOpen? values value = some (35, "px".toList) ∧ embedsTightly values value = true ∧
      substitute values value = "10px-5px + (10px + 5px) * 2".toList ∧
        compute? rationals (substitute values value) = some (35, "px".toList) := by
  intro values value
  have computed : computeOpen? values value = some (35, "px".toList) := by decide +kernel
  have isTight : embedsTightly values value = true := by decide +kernel
  exact ⟨computed, isTight, by decide +kernel, compute?_substitute computed isTight⟩

/-- A minus without spaces is an operator, but gets no parentheses in a product. -/
theorem compute?_substitute_ne_sample :
    let values := OrderedMap.ofList [("pair".toList, "10px-5px".toList)]
    let value := "@pair * 2".toList
    computeOpen? values value = some (10, "px".toList) ∧
      substitute values value = "10px-5px * 2".toList ∧
        compute? rationals (substitute values value) = some (0, "px".toList) := by
  decide +kernel

end Reference
end LessTheme
