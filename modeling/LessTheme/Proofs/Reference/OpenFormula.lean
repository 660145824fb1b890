import LessTheme.Proofs.Arithmetic.Formula
import LessTheme.Proofs.Reference.Fragment
import LessTheme.Proofs.Source.Closed

/-!
# Formulas with references

An open formula is an arithmetic value as an author writes it: unsigned
quantities and references with operators between, and groups in parentheses.
Substitution in its text is substitution in the formula: a value that is put
in gets parentheses exactly if it is an operation.
-/

namespace LessTheme
namespace Reference

open Arithmetic (Quantity Operator)
open Source

/-- The name that a reference writes behind its at sign. -/
structure VariableName where
  /-- The name as it is written. -/
  text : Text
  nonempty : text ≠ [] := by decide
  named : ∀ char ∈ text, isNameChar char = true := by exact List.all_eq_true.1 rfl

/-- A formula whose operands may be references. -/
inductive OpenFormula
  | number (quantity : Quantity) (unsigned : quantity.negative = false)
  | reference (name : VariableName)
  /-- A formula in parentheses. -/
  | group (inner : OpenFormula)
  | operation (operator : Operator) (left right : OpenFormula)

namespace OpenFormula

/-- The formula as it is written, with one space on each side of an operator. -/
def text : OpenFormula → Text
  | .number quantity _ => quantity.written
  | .reference name => '@' :: name.text
  | .group inner => '(' :: (inner.text ++ [')'])
  | .operation operator left right => left.text ++ ([' ', operator.mark, ' '] ++ right.text)

/-- The names that a formula refers to, in order. -/
def references : OpenFormula → List Text
  | .number _ _ => []
  | .reference name => [name.text]
  | .group inner => inner.references
  | .operation _ left right => left.references ++ right.references

/-- Whether a formula has an operator outside all groups. -/
def isOperation : OpenFormula → Bool
  | .operation .. => true
  | .number .. | .reference _ | .group _ => false

/-- A formula as it stands inside a larger one. -/
def operand (formula : OpenFormula) : OpenFormula :=
  if formula.isOperation then .group formula else formula

/-- Puts formulas in the place of references, as operands. -/
def fill (value? : Text → Option OpenFormula) : OpenFormula → OpenFormula
  | .number quantity unsigned => .number quantity unsigned
  | .reference name => (value? name.text).elim (.reference name) operand
  | .group inner => .group (inner.fill value?)
  | .operation operator left right => .operation operator (left.fill value?) (right.fill value?)

/-- Puts formulas in the place of references; what is one reference becomes the formula itself. -/
def expand (value? : Text → Option OpenFormula) : OpenFormula → OpenFormula
  | .reference name => (value? name.text).getD (.reference name)
  | formula => formula.fill value?

/-! ## The text of a formula -/

theorem isRunChar_of_mem_written
    {quantity : Quantity}
    (unsigned : quantity.negative = false)
    {char : Char}
    (member : char ∈ quantity.written) :
    Arithmetic.isRunChar char = true := by
  rw [Quantity.written, unsigned] at member
  exact quantity.isRunChar_of_mem_run char member

/-- What is no character of numbers and units stands in no unsigned quantity. -/
theorem not_mem_written
    {quantity : Quantity}
    {mark : Char}
    (unsigned : quantity.negative = false)
    (noRun : Arithmetic.isRunChar mark = false) :
    mark ∉ quantity.written :=
  fun member => Bool.false_ne_true (noRun.symm.trans (isRunChar_of_mem_written unsigned member))

theorem not_mem_name
    {mark : Char}
    (name : VariableName)
    (noName : isNameChar mark = false) :
    mark ∉ name.text :=
  fun member => Bool.false_ne_true (noName.symm.trans (name.named mark member))

theorem readsAs_operator (operator : Operator) :
    ReadsAs [' ', operator.mark, ' '] ([' ', operator.mark, ' '].map .ofCode) := by
  cases operator <;> exact ⟨by decide, rfl⟩

/-- All of a formula is code, and its parentheses are closed. -/
theorem readsAs (formula : OpenFormula) : ReadsAs formula.text (formula.text.map .ofCode) := by
  induction formula with
  | number quantity unsigned =>
      apply ReadsAs.of_isInert
      intro char member special
      have noRun : ∀ char ∈ specialChars, Arithmetic.isRunChar char = false :=
        List.all_iff_forall_prop.1 rfl
      exact not_mem_written unsigned (noRun char special) member
  | reference name =>
      apply ReadsAs.of_isInert
      exact List.forall_mem_cons.2 ⟨by decide, isInert_of_forall_isNameChar name.named⟩
  | group inner inductionHypothesis =>
      have reads := inductionHypothesis.group
      rwa [text, List.map_cons, List.map_append]
  | operation operator left right leftReads rightReads =>
      have joins : Mode.Joins [' ', operator.mark, ' '] right.text.head? := nofun
      have between := (readsAs_operator operator).append rightReads joins
      have whole := leftReads.append between fun _ => ⟨by simp, by simp⟩
      rwa [text, List.map_append, List.map_append]

theorem cells_text (formula : OpenFormula) : cells formula.text = formula.text.map .ofCode :=
  formula.readsAs.2

theorem hasDarkEnds_text (formula : OpenFormula) : Text.HasDarkEnds formula.text := by
  induction formula with
  | number quantity unsigned =>
      refine Text.hasDarkEnds_of_forall ?_ fun char member => ?_
      · exact List.append_ne_nil_of_right_ne_nil _ quantity.run_ne_nil
      · exact Arithmetic.Formula.isWhiteSpace_of_isRunChar (isRunChar_of_mem_written unsigned member)
  | reference name =>
      refine Text.hasDarkEnds_of_forall (List.cons_ne_nil _ _) ?_
      refine List.forall_mem_cons.2 ⟨rfl, fun char member => ?_⟩
      rw [← Bool.not_eq_true]
      exact fun blank => not_mem_name name (isNameChar_of_isWhiteSpace blank) member
  | group inner =>
      have opening : Text.HasDarkEnds ['('] :=
        Text.hasDarkEnds_of_forall (List.cons_ne_nil _ _) (List.forall_mem_singleton.2 rfl)
      have closing : Text.HasDarkEnds [')'] :=
        Text.hasDarkEnds_of_forall (List.cons_ne_nil _ _) (List.forall_mem_singleton.2 rfl)
      exact opening.append closing inner.text
  | operation operator left right leftDark rightDark =>
      exact leftDark.append rightDark [' ', operator.mark, ' ']

@[simp] theorem trim_text (formula : OpenFormula) : formula.text.trim = formula.text :=
  formula.hasDarkEnds_text.trim_eq

/-- Only a formula that is one reference is read as one reference. -/
theorem bareName?_text_eq_none
    {formula : OpenFormula}
    (noReference : ∀ name, formula ≠ .reference name) :
    bareName? formula.text = none := by
  rw [Option.eq_none_iff_forall_ne_some]
  intro name isName
  obtain ⟨isReference, -, named⟩ := bareName?_eq_some_iff.1 isName
  rw [trim_text] at isReference
  cases formula with
  | reference name => exact noReference name rfl
  | number quantity unsigned =>
      have isFirst : '@' ∈ quantity.written := by
        change quantity.written = _ at isReference
        rw [isReference]
        exact List.mem_cons_self
      exact not_mem_written unsigned rfl isFirst
  | group inner => exact absurd (List.cons.inj isReference).1 (by decide)
  | operation operator left right =>
      have hasSpace : ' ' ∈ '@' :: name := by
        rw [← isReference]
        simp [text]
      obtain isAt | inName := List.mem_cons.1 hasSpace
      · exact absurd isAt (by decide)
      · exact absurd (named ' ' inName) (by decide)

/-! ## The fragments of a formula -/

/-- The fragments of a formula, cut where its parts meet. -/
def pieces : OpenFormula → List Fragment
  | .number quantity _ => [.plain quantity.written]
  | .reference name => [.reference name.text]
  | .group inner => .plain ['('] :: (inner.pieces ++ [.plain [')']])
  | .operation operator left right =>
      left.pieces ++ .plain [' ', operator.mark, ' '] :: right.pieces

end OpenFormula

/-- What is collected from a fragment without reference is collected from its characters. -/
def Fragment.IsAdditive {Item : Type} (collect : Fragment → List Item) : Prop :=
  ∀ front behind,
    collect (.plain (front ++ behind)) = collect (.plain front) ++ collect (.plain behind)

/-- What is collected from the run in front of a reading and from the fragments behind. -/
def Reading.collect {Item : Type} (reading : Reading) (collect : Fragment → List Item) :
    List Item :=
  collect (.plain reading.word) ++ reading.fragments.flatMap collect

section Collect

variable {Item : Type} {collect : Fragment → List Item} {reading : Reading}

theorem Fragment.IsAdditive.plain_nil
    (additive : Fragment.IsAdditive collect) :
    collect (.plain []) = [] :=
  List.self_eq_append_left.1 (additive [] [])

theorem word_foldr_prepend_cons
    {char : Char}
    (noName : isNameChar char = false)
    (text : Text)
    (reading : Reading) :
    (((char :: text).map .ofCode).foldr Reading.prepend reading).word = [] := by
  rw [List.map_cons, List.foldr_cons, Reading.prepend, if_neg (by simp [Cell.ofCode, noName])]
  split <;> rfl

/-- Text without at sign adds what is collected from it, wherever the fragments are cut. -/
theorem collect_foldr_prepend_of_not_mem
    {text : Text}
    (additive : Fragment.IsAdditive collect)
    (absent : '@' ∉ text) :
    ((text.map .ofCode).foldr Reading.prepend reading).collect collect =
      collect (.plain text) ++ reading.collect collect := by
  induction text with
  | nil => rw [additive.plain_nil, List.map_nil, List.foldr_nil, List.nil_append]
  | cons char rest inductionHypothesis =>
      rw [List.mem_cons, not_or] at absent
      have notAt : (Cell.ofCode char).isCode '@' = false := by
        simpa [Cell.isCode, Cell.ofCode] using Ne.symm absent.1
      rw [← List.singleton_append, additive, List.append_assoc, ← inductionHypothesis absent.2,
        List.singleton_append, List.map_cons, List.foldr_cons]
      generalize (rest.map .ofCode).foldr Reading.prepend reading = behind
      rw [Reading.prepend, notAt, Reading.collect, Reading.collect, ← List.append_assoc,
        ← additive]
      split
      case isTrue => rfl
      case isFalse =>
        rw [if_neg Bool.false_ne_true, additive.plain_nil, List.nil_append, List.flatMap_cons]
        rfl

theorem collect_foldr_prepend_reference
    (name : VariableName)
    (additive : Fragment.IsAdditive collect)
    (ends : reading.word = []) :
    ((('@' :: name.text).map .ofCode).foldr Reading.prepend reading).collect collect =
      collect (.reference name.text) ++ reading.collect collect := by
  have run : ∀ word : Text, (∀ char ∈ word, isNameChar char = true) →
      (word.map .ofCode).foldr Reading.prepend reading = ⟨word, reading.fragments⟩ := by
    intro word named
    induction word with
    | nil => exact congrArg (Reading.mk · reading.fragments) ends
    | cons char rest inductionHypothesis =>
        rw [List.forall_mem_cons] at named
        rw [List.map_cons, List.foldr_cons, inductionHypothesis named.2, Reading.prepend]
        exact if_pos named.1
  have opens : Reading.prepend (.ofCode '@') ⟨name.text, reading.fragments⟩ =
      ⟨[], .reference name.text :: reading.fragments⟩ := rfl
  rw [List.map_cons, List.foldr_cons, run name.text name.named, opens, Reading.collect,
    Reading.collect, ends, additive.plain_nil, List.nil_append, List.nil_append,
    List.flatMap_cons]

end Collect

namespace OpenFormula

section Collect

variable {Item : Type} {collect : Fragment → List Item} {reading : Reading}

theorem collect_foldr_prepend_text
    (formula : OpenFormula)
    (additive : Fragment.IsAdditive collect)
    (ends : reading.word = []) :
    ((formula.text.map .ofCode).foldr Reading.prepend reading).collect collect =
      formula.pieces.flatMap collect ++ reading.collect collect := by
  induction formula generalizing reading with
  | number quantity unsigned =>
      rw [pieces, List.flatMap_singleton]
      exact collect_foldr_prepend_of_not_mem additive (not_mem_written unsigned rfl)
  | reference name =>
      rw [pieces, List.flatMap_singleton]
      exact collect_foldr_prepend_reference name additive ends
  | group inner inductionHypothesis =>
      have closing := word_foldr_prepend_cons (show isNameChar ')' = false from rfl) [] reading
      rw [text, ← List.singleton_append, List.map_append, List.map_append, List.foldr_append,
        List.foldr_append, collect_foldr_prepend_of_not_mem additive (by decide),
        inductionHypothesis closing, collect_foldr_prepend_of_not_mem additive (by decide)]
      simp only [pieces, List.flatMap_cons, List.flatMap_append, List.flatMap_nil,
        List.append_nil, List.append_assoc]
  | operation operator left right leftCollects rightCollects =>
      have between := word_foldr_prepend_cons (show isNameChar ' ' = false from rfl)
        [operator.mark, ' '] ((right.text.map .ofCode).foldr Reading.prepend reading)
      have absent : '@' ∉ [' ', operator.mark, ' '] := by cases operator <;> decide
      rw [text, List.map_append, List.map_append, List.foldr_append, List.foldr_append,
        leftCollects between, collect_foldr_prepend_of_not_mem additive absent,
        rightCollects ends]
      simp only [pieces, List.flatMap_cons, List.flatMap_append, List.append_assoc]

/-- The fragments of a formula's text hold what the fragments of the formula hold. -/
theorem flatMap_fragments_text
    (formula : OpenFormula)
    (additive : Fragment.IsAdditive collect) :
    (fragments formula.text).flatMap collect = formula.pieces.flatMap collect := by
  have collected := formula.collect_foldr_prepend_text additive
    (show (Reading.mk [] []).word = [] from rfl)
  have nothing : (Reading.mk [] []).collect collect = [] := by
    rw [Reading.collect, additive.plain_nil]
    rfl
  rw [nothing, List.append_nil] at collected
  rw [fragments, cells_text, fragmentsOf, List.flatMap_cons, ← collected]
  rfl

end Collect

/-- The names that a formula refers to are read off its text. -/
theorem referencedNames_text (formula : OpenFormula) :
    referencedNames formula.text = formula.references := by
  have additive : Fragment.IsAdditive fun fragment => fragment.name?.toList := fun _ _ => rfl
  rw [referencedNames, List.filterMap_eq_flatMap_toList, formula.flatMap_fragments_text additive]
  induction formula with
  | number => rfl
  | reference name =>
      rw [pieces, List.flatMap_singleton, Fragment.name?_reference name.nonempty]
      rfl
  | group inner inductionHypothesis =>
      rw [references, ← inductionHypothesis]
      simp [pieces, Fragment.name?]
  | operation operator left right leftNames rightNames =>
      rw [references, ← leftNames, ← rightNames]
      simp [pieces, Fragment.name?]

/-! ## Operators outside groups -/

/-- Characters that stand in no number and in no name. -/
def marks : List Char := ['(', ')', '*', '+', '/', ' ', '\t', '\n', '\x0c', '\r']

theorem not_mem_marks_of_mem_written
    {quantity : Quantity}
    (unsigned : quantity.negative = false) :
    ∀ char ∈ quantity.written, char ∉ marks := by
  intro char member isMark
  have noRun : ∀ char ∈ marks, Arithmetic.isRunChar char = false := List.all_iff_forall_prop.1 rfl
  exact not_mem_written unsigned (noRun char isMark) member

theorem not_mem_marks_of_mem_name (name : VariableName) : ∀ char ∈ name.text, char ∉ marks := by
  intro char member isMark
  have noName : ∀ char ∈ marks, isNameChar char = false := List.all_iff_forall_prop.1 rfl
  exact not_mem_name name (noName char isMark) member

/-- A number or a name holds no operator; a minus in a name has no space in front. -/
theorem holdsInfix_word_append
    {word : Text}
    {before : Option Char}
    (unmarked : ∀ char ∈ word, char ∉ marks)
    (joined : word.head? = some '-' → before.any isAsciiWhiteSpace = false)
    (singlePart : Bool)
    (depth : Nat)
    (rest : List Cell) :
    holdsInfix singlePart depth before (word.map .ofCode ++ rest) =
      holdsInfix singlePart depth (word.getLast?.or before) rest := by
  induction word generalizing before with
  | nil => rfl
  | cons char others inductionHypothesis =>
      obtain ⟨here, unmarked⟩ := List.forall_mem_cons.1 unmarked
      simp only [marks, List.mem_cons, List.not_mem_nil, or_false, not_or] at here
      have dark : isAsciiWhiteSpace char = false := by simp [isAsciiWhiteSpace, here]
      have noInfix (after : Option Char) :
          isInfix singlePart before (.ofCode char) after = false := by
        by_cases isMinus : char = '-'
        · subst isMinus
          simp [isInfix, isSpaced, Cell.isCode, Cell.ofCode, joined rfl]
        · simp [isInfix, Cell.isCode, Cell.ofCode, here, isMinus]
      have sameDepth : openParentheses depth (.ofCode char) = depth := by
        simp [openParentheses, Cell.isCode, Cell.ofCode, here]
      rw [List.map_cons, List.cons_append, holdsInfix, noInfix, Bool.and_false, Bool.false_or,
        sameDepth, List.getLast?_cons, Option.some_or, ← Option.or_some]
      exact inductionHypothesis unmarked fun _ => dark

/-- An operator stands outside the parentheses of a formula if the formula is an operation. -/
theorem holdsInfix_text_append
    (formula : OpenFormula)
    (singlePart : Bool)
    (depth : Nat)
    (before : Option Char)
    (rest : List Cell) :
    holdsInfix singlePart depth before (formula.text.map .ofCode ++ rest) =
      ((depth == 0 && formula.isOperation) ||
        holdsInfix singlePart depth (formula.text.getLast?.or before) rest) := by
  induction formula generalizing depth before rest with
  | number quantity unsigned =>
      have noMinus : quantity.written.head? ≠ some '-' :=
        mt List.mem_of_mem_head? (not_mem_written unsigned rfl)
      rw [isOperation, Bool.and_false, Bool.false_or, text,
        holdsInfix_word_append (not_mem_marks_of_mem_written unsigned) fun isFirst =>
          absurd isFirst noMinus]
  | reference name =>
      have unmarked : ∀ char ∈ '@' :: name.text, char ∉ marks :=
        List.forall_mem_cons.2 ⟨by decide, not_mem_marks_of_mem_name name⟩
      rw [isOperation, Bool.and_false, Bool.false_or, text,
        holdsInfix_word_append unmarked fun isFirst =>
          absurd (Option.some.inj isFirst) (by decide)]
  | group inner inductionHypothesis =>
      have opening (after : Option Char) :
          isInfix singlePart before (.ofCode '(') after = false := rfl
      have closing (last after : Option Char) :
          isInfix singlePart last (.ofCode ')') after = false := rfl
      have enters : openParentheses depth (.ofCode '(') = depth + 1 := rfl
      have leaves : openParentheses (depth + 1) (.ofCode ')') = depth := rfl
      rw [isOperation, Bool.and_false, Bool.false_or, text, List.map_cons, List.cons_append,
        List.map_append, List.append_assoc, holdsInfix, opening, enters, inductionHypothesis,
        List.map_singleton, List.singleton_append, holdsInfix, closing, leaves, ← List.cons_append,
        List.getLast?_concat]
      simp [Cell.ofCode]
  | operation operator left right leftHolds rightHolds =>
      have space (last after : Option Char) :
          isInfix singlePart last (.ofCode ' ') after = false := rfl
      have mark : isInfix singlePart (some ' ') (.ofCode operator.mark) (some ' ') = true := by
        cases operator <;> cases singlePart <;> rfl
      have flat : ∀ char ∈ [' ', operator.mark, ' '],
          openParentheses depth (.ofCode char) = depth := by
        cases operator <;> simp [openParentheses, Cell.isCode, Cell.ofCode, Operator.mark]
      have middle (last : Option Char) (behind : List Cell) :
          holdsInfix singlePart depth last ([' ', operator.mark, ' '].map .ofCode ++ behind) =
            (depth == 0 || holdsInfix singlePart depth (some ' ') behind) := by
        have char_ofCode (char : Char) : (Cell.ofCode char).char = char := rfl
        simp only [List.forall_mem_cons] at flat
        simp only [List.map_cons, List.cons_append, List.map_nil, List.nil_append, holdsInfix,
          List.head?_cons, Option.map_some, char_ofCode, flat, space, mark, Bool.and_false,
          Bool.false_or, Bool.and_true]
      have last : (left.text ++ ([' ', operator.mark, ' '] ++ right.text)).getLast?.or before =
          right.text.getLast?.or (some ' ') := by
        rw [List.getLast?_append, List.getLast?_append, Option.or_assoc, Option.or_assoc]
        rfl
      rw [isOperation, Bool.and_true, text, last, List.map_append, List.map_append,
        List.append_assoc, List.append_assoc, leftHolds, middle, rightHolds]
      cases depth == 0
      · simp only [Bool.false_and, Bool.false_or]
      · simp only [Bool.true_or, Bool.or_true]

theorem hasInfix_text (formula : OpenFormula) : hasInfix formula.text = formula.isOperation := by
  have held := formula.holdsInfix_text_append (decide ((parts formula.text).length ≤ 1)) 0 none []
  rwa [List.append_nil, holdsInfix, Bool.or_false, beq_self_eq_true, Bool.true_and,
    ← cells_text] at held

theorem delimited?_map_ofCode_append
    {word : Text}
    (nonempty : word ≠ [])
    (absent : '(' ∉ word)
    (rest : List Cell) :
    delimited? '(' ')' (word.map .ofCode ++ rest) = none := by
  obtain ⟨first, others, rfl⟩ := List.exists_cons_of_ne_nil nonempty
  rw [List.mem_cons, not_or] at absent
  have noParenthesis : (Cell.ofCode first).isCode '(' = false := by
    simpa [Cell.isCode, Cell.ofCode] using Ne.symm absent.1
  rw [List.map_cons, List.cons_append, delimited?, noParenthesis, if_neg Bool.false_ne_true]

/-- What parentheses in front of a formula enclose is within the formula. -/
theorem length_le_of_delimited?_eq_some
    {formula : OpenFormula}
    {inner rest : List Cell}
    (delimited : delimited? '(' ')' (formula.text.map .ofCode ++ rest) = some inner) :
    inner.length + 2 ≤ formula.text.length := by
  induction formula generalizing rest with
  | number quantity unsigned =>
      have nonempty : quantity.written ≠ [] :=
        List.append_ne_nil_of_right_ne_nil _ quantity.run_ne_nil
      rw [text, delimited?_map_ofCode_append nonempty (not_mem_written unsigned rfl)]
        at delimited
      contradiction
  | reference name =>
      have absent : '(' ∉ '@' :: name.text := by
        rw [List.mem_cons, not_or]
        exact ⟨by decide, not_mem_name name rfl⟩
      rw [text, delimited?_map_ofCode_append (List.cons_ne_nil _ _) absent] at delimited
      contradiction
  | group within =>
      have balanced := within.readsAs.isBalanced
      have opens : (Cell.ofCode '(').isCode '(' = true := rfl
      have closes : enclosed? '(' ')' 0 (.ofCode ')' :: rest) = some [] := rfl
      rw [text, List.map_cons, List.cons_append, delimited?, if_pos opens, List.map_append,
        List.append_assoc, List.map_singleton, List.singleton_append, balanced.enclosed?_append,
        closes, Option.map_some] at delimited
      obtain rfl := Option.some.inj delimited
      simp [text]
  | operation operator left right inductionHypothesis =>
      rw [text, List.map_append, List.append_assoc] at delimited
      have within := inductionHypothesis delimited
      rw [text, List.length_append]
      omega

/-- Parentheses around the first operand do not enclose the operation. -/
theorem isParenthesized_operation
    (operator : Operator)
    (left right : OpenFormula) :
    isParenthesized (operation operator left right).text = false := by
  rw [isParenthesized, trim_text, Option.any_eq_false]
  intro inner delimited
  rw [cells_text, text, List.map_append] at delimited
  have within := length_le_of_delimited?_eq_some delimited
  rw [beq_eq_false_iff_ne, text, List.length_append, List.length_append]
  simp only [List.length_cons]
  omega

/-- A formula is put into a value as an operand. -/
theorem embedded_text (formula : OpenFormula) : embedded formula.text = formula.operand.text := by
  rw [embedded, hasInfix_text, trim_text]
  cases formula with
  | number | reference | group => rfl
  | operation operator left right =>
      rw [isParenthesized_operation]
      rfl

/-! ## Substitution in a formula -/

theorem text_fill
    (value? : Text → Option OpenFormula)
    (formula : OpenFormula) :
    (formula.fill value?).text =
      formula.pieces.flatMap
        (Fragment.substitute (fun name => (value? name).map text) embedded) := by
  induction formula with
  | number quantity unsigned => exact (List.append_nil _).symm
  | reference name =>
      rw [pieces, List.flatMap_singleton, Fragment.substitute,
        Fragment.name?_reference name.nonempty, Option.bind_some, fill]
      cases value? name.text with
      | none => rfl
      | some value => exact value.embedded_text.symm
  | group inner inductionHypothesis =>
      rw [fill, text, inductionHypothesis]
      simp [pieces, Fragment.substitute, Fragment.name?, Fragment.text]
  | operation operator left right leftFilled rightFilled =>
      rw [fill, text, leftFilled, rightFilled]
      simp [pieces, Fragment.substitute, Fragment.name?, Fragment.text]

/-- Substitution in the text of a formula is substitution in the formula. -/
theorem substituteWith_text
    (value? : Text → Option OpenFormula)
    (formula : OpenFormula) :
    substituteWith (fun name => (value? name).map text) formula.text =
      (formula.expand value?).text := by
  have ofNoReference (noReference : ∀ name, formula ≠ .reference name) :
      substituteWith (fun name => (value? name).map text) formula.text =
        (formula.fill value?).text := by
    have additive : Fragment.IsAdditive
        (Fragment.substitute (fun name => (value? name).map text) embedded) := fun _ _ => rfl
    rw [substituteWith, bareName?_text_eq_none noReference, text_fill]
    exact formula.flatMap_fragments_text additive
  cases formula with
  | number => exact ofNoReference nofun
  | group => exact ofNoReference nofun
  | operation => exact ofNoReference nofun
  | reference name =>
      have isReference : bareName? (reference name).text = some name.text :=
        bareName?_eq_some_iff.2 ⟨trim_text _, name.nonempty, name.named⟩
      have simple : IsSimple (reference name).text :=
        ⟨trim_text _, Or.inl (Option.isSome_of_eq_some isReference)⟩
      rw [simple.substituteWith_of_bareName?_eq_some isReference, expand]
      cases value? name.text with
      | none => rfl
      | some value => exact value.trim_text

end OpenFormula
end Reference
end LessTheme
