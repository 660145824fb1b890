import LessTheme.Proofs.Lowering.CustomColor
import LessTheme.Proofs.Lowering.Selector
import LessTheme.Proofs.Text.LetterCase

/-!
# Selectors and the rewriting of colours

A colour that is rewritten holds no end of a statement, and neither does what
is written for it, so rewriting it changes one statement.  No selector becomes
complex by that where no statement that opens a block holds both a grouping
pseudo-class and a colour: a selector with a group is not changed, and no other
one comes to hold a group.
-/

namespace LessTheme
namespace Lowering

open Source

/-! ## Exchanging a part of a statement -/

/-- Cells that end no statement and belong to no interpolation, wherever they stand. -/
structure IsStretch (cells : List Cell) : Prop where
  nonempty : cells ≠ []
  noMark : ∀ cell ∈ cells, cell.char ≠ ';' ∧ cell.char ≠ '{' ∧ cell.char ≠ '}'
  noAtLast : cells.getLast?.any (·.isCode '@') = false

namespace IsStretch

variable {old new : List Cell}

theorem any_closes
    (stretch : IsStretch old)
    (back : List Cell) :
    (old ++ back).any (fun cell => cell.char == '}') = back.any (fun cell => cell.char == '}') := by
  have noClosing : old.any (fun cell => cell.char == '}') = false := by
    rw [List.any_eq_false]
    intro cell member
    simpa using (stretch.noMark cell member).2.2
  rw [List.any_append, noClosing, Bool.false_or]

theorem head?_ne
    (stretch : IsStretch old)
    (back : List Cell) :
    ((old ++ back).head?.map Cell.char == some '{') = false := by
  obtain ⟨cell, rest, rfl⟩ := List.exists_cons_of_ne_nil stretch.nonempty
  simpa using (stretch.noMark cell List.mem_cons_self).2.1

theorem tail
    {cell next : Cell}
    {rest : List Cell}
    (stretch : IsStretch (cell :: next :: rest)) :
    IsStretch (next :: rest) where
  nonempty := List.cons_ne_nil _ _
  noMark := (List.forall_mem_cons.1 stretch.noMark).2
  noAtLast := stretch.noAtLast

/-- The cells of a stretch all belong to an interpolation, or none of them does. -/
theorem markInterpolations_append
    (stretch : IsStretch old)
    (inside : Bool)
    (back : List Cell) :
    markInterpolations inside (old ++ back) =
      old.map (·, inside) ++ markInterpolations inside back := by
  obtain ⟨cell, rest, rfl⟩ := List.exists_cons_of_ne_nil stretch.nonempty
  induction rest generalizing cell with
  | nil =>
      obtain ⟨noMark, -⟩ := List.forall_mem_cons.1 stretch.noMark
      cases inside with
      | true =>
          have goesOn : (cell.char != '}') = true := bne_iff_ne.2 noMark.2.2
          rw [List.singleton_append, markInterpolations, goesOn]
          rfl
      | false =>
          have noAt : cell.isCode '@' = false := stretch.noAtLast
          simp [markInterpolations, noAt]
  | cons next others inductionHypothesis =>
      have further := inductionHypothesis next stretch.tail
      obtain ⟨noMark, restMark⟩ := List.forall_mem_cons.1 stretch.noMark
      have noBrace := (restMark next List.mem_cons_self).2.1
      cases inside with
      | true =>
          rw [List.cons_append, markInterpolations, bne_iff_ne.2 noMark.2.2, further]
          rfl
      | false =>
          have skips : entersInterpolation cell (next :: others ++ back) = false := by
            simp [entersInterpolation, noBrace]
          rw [List.cons_append, markInterpolations_false_cons, skips, further]
          rfl

/-- Interpolations around a stretch are the same for another stretch. -/
theorem exists_markInterpolations
    (oldStretch : IsStretch old)
    (newStretch : IsStretch new)
    (inside : Bool)
    (front back : List Cell) :
    ∃ ahead flag,
      markInterpolations inside (front ++ (old ++ back)) =
          ahead ++ (old.map (·, flag) ++ markInterpolations flag back) ∧
        markInterpolations inside (front ++ (new ++ back)) =
          ahead ++ (new.map (·, flag) ++ markInterpolations flag back) := by
  induction front generalizing inside with
  | nil =>
      exact ⟨[], inside, oldStretch.markInterpolations_append inside back,
        newStretch.markInterpolations_append inside back⟩
  | cons cell rest inductionHypothesis =>
      cases inside with
      | true =>
          obtain ⟨ahead, flag, sameOld, sameNew⟩ := inductionHypothesis (cell.char != '}')
          refine ⟨(cell, true) :: ahead, flag, ?_, ?_⟩
          · rw [List.cons_append, markInterpolations, sameOld, List.cons_append]
          · rw [List.cons_append, markInterpolations, sameNew, List.cons_append]
      | false =>
          have sameBrace : ((rest ++ (old ++ back)).head?.map Cell.char == some '{') =
              ((rest ++ (new ++ back)).head?.map Cell.char == some '{') := by
            cases rest with
            | nil => exact (oldStretch.head?_ne back).trans (newStretch.head?_ne back).symm
            | cons => rfl
          have sameFlag : entersInterpolation cell (rest ++ (old ++ back)) =
              entersInterpolation cell (rest ++ (new ++ back)) := by
            rw [entersInterpolation, entersInterpolation, sameBrace, List.any_append,
              oldStretch.any_closes, List.any_append, newStretch.any_closes]
          obtain ⟨ahead, flag, sameOld, sameNew⟩ :=
            inductionHypothesis (entersInterpolation cell (rest ++ (old ++ back)))
          refine ⟨(cell, false) :: ahead, flag, ?_, ?_⟩
          · rw [List.cons_append, markInterpolations_false_cons, sameOld, List.cons_append]
          · rw [List.cons_append, markInterpolations_false_cons, ← sameFlag, sameNew,
              List.cons_append]

/-- No statement ends in a stretch. -/
theorem endsStatement_eq_false
    (stretch : IsStretch old)
    (flag : Bool) :
    ∀ marked ∈ old.map (·, flag), endsStatement marked = false := by
  intro marked member
  obtain ⟨cell, inStretch, rfl⟩ := List.mem_map.1 member
  obtain ⟨noSemicolon, noOpening, noClosing⟩ := stretch.noMark cell inStretch
  simp [endsStatement, Cell.isCode, noSemicolon, noOpening, noClosing]

end IsStretch

/-- Cells in front belong to statements of their own and to the first one behind them. -/
theorem exists_statements_append
    (front : List (Cell × Bool)) :
    ∃ (before : List Statement) (lead : List Cell), ∀ back,
      statements (front ++ back) = before ++ lead.foldr extendFirst (statements back) := by
  induction front with
  | nil => exact ⟨[], [], fun _ => rfl⟩
  | cons marked rest inductionHypothesis =>
      obtain ⟨before, lead, split⟩ := inductionHypothesis
      by_cases ends : endsStatement marked = true
      · refine ⟨⟨[], some marked.1⟩ :: before, lead, fun back => ?_⟩
        rw [List.cons_append, statements, if_pos ends, split, List.cons_append]
      · cases before with
        | nil =>
            refine ⟨[], marked.1 :: lead, fun back => ?_⟩
            rw [List.cons_append, statements, if_neg ends, split]
            rfl
        | cons first others =>
            refine ⟨⟨marked.1 :: first.body, first.stop⟩ :: others, lead, fun back => ?_⟩
            rw [List.cons_append, statements, if_neg ends, split]
            rfl

theorem statements_append_of_forall
    {front : List (Cell × Bool)}
    (goesOn : ∀ marked ∈ front, endsStatement marked = false)
    (back : List (Cell × Bool)) :
    statements (front ++ back) = (front.map Prod.fst).foldr extendFirst (statements back) := by
  induction front with
  | nil => rfl
  | cons marked rest inductionHypothesis =>
      obtain ⟨here, further⟩ := List.forall_mem_cons.1 goesOn
      rw [List.cons_append, statements, if_neg (by simp [here]), inductionHypothesis further]
      rfl

/-- Cells in front of some statements are the beginning of the first one, or one without an end. -/
theorem exists_foldr_extendFirst
    (back : List Statement) :
    ∃ rest stop after, (back = ⟨rest, stop⟩ :: after ∨ stop = none ∧ after = []) ∧
      ∀ front : List Cell, front ≠ [] →
        front.foldr extendFirst back = ⟨front ++ rest, stop⟩ :: after := by
  cases back with
  | nil =>
      refine ⟨[], none, [], .inr ⟨rfl, rfl⟩, fun front nonempty => ?_⟩
      obtain ⟨cell, others, rfl⟩ := List.exists_cons_of_ne_nil nonempty
      clear nonempty
      induction others generalizing cell with
      | nil => rfl
      | cons next others inductionHypothesis =>
          rw [List.foldr_cons, inductionHypothesis]
          rfl
  | cons first others =>
      refine ⟨first.body, first.stop, others, .inl rfl, fun front _ => ?_⟩
      clear *-
      induction front with
      | nil => rfl
      | cons cell rest inductionHypothesis =>
          rw [List.foldr_cons, inductionHypothesis]
          rfl

/-- Exchanging a stretch for another one changes one statement, which ends as before. -/
theorem IsStretch.exists_statements
    {old new : List Cell}
    (oldStretch : IsStretch old)
    (newStretch : IsStretch new)
    (front back : List Cell) :
    ∃ before lead rest stop after,
      statements (markInterpolations false (front ++ (old ++ back))) =
          before ++ ⟨lead ++ (old ++ rest), stop⟩ :: after ∧
        statements (markInterpolations false (front ++ (new ++ back))) =
          before ++ ⟨lead ++ (new ++ rest), stop⟩ :: after := by
  obtain ⟨ahead, flag, sameOld, sameNew⟩ :=
    oldStretch.exists_markInterpolations newStretch false front back
  obtain ⟨before, lead, split⟩ := exists_statements_append ahead
  obtain ⟨rest, stop, after, -, extended⟩ :=
    exists_foldr_extendFirst (statements (markInterpolations flag back))
  have whole : ∀ stretch : List Cell, IsStretch stretch →
      statements (ahead ++ (stretch.map (·, flag) ++ markInterpolations flag back)) =
        before ++ ⟨lead ++ (stretch ++ rest), stop⟩ :: after := by
    intro stretch isStretch
    rw [split, statements_append_of_forall (isStretch.endsStatement_eq_false flag),
      List.map_map, ← List.foldr_append, extended _ (by simp [isStretch.nonempty])]
    simp [Function.comp_def]
  refine ⟨before, lead, rest, stop, after, ?_, ?_⟩
  · rw [sameOld, whole old oldStretch]
  · rw [sameNew, whole new newStretch]

/-! ## Groups and colours in statements -/

/-- Whether a text holds the beginning of a grouping pseudo-class, in any letter case. -/
def holdsGrouping (text : Text) : Bool :=
  groupingPseudoClasses.any fun pseudoClass => text.lower.includes pseudoClass

/-- Whether a text holds the name and the parenthesis of a colour function, in any letter case. -/
def holdsColor (text : Text) : Bool :=
  colorFunctions.any fun name => text.lower.includes (name ++ ['('])

theorem holdsGrouping_iff
    {text : Text} :
    holdsGrouping text = true ↔
      ∃ pseudoClass ∈ groupingPseudoClasses, pseudoClass <:+: text.lower := by
  simp only [holdsGrouping, List.any_eq_true, Text.includes_iff_isInfix]

theorem holdsColor_iff
    {text : Text} :
    holdsColor text = true ↔ ∃ name ∈ colorFunctions, name ++ ['('] <:+: text.lower := by
  simp only [holdsColor, List.any_eq_true, Text.includes_iff_isInfix]

theorem lower_isInfix
    {part text : Text}
    (isPart : part <:+: text) :
    part.lower <:+: text.lower := by
  obtain ⟨front, back, rfl⟩ := isPart
  rw [Text.lower_append, Text.lower_append]
  exact List.infix_append _ _ _

/-- A group stands in every text that holds one of its parts. -/
theorem holdsGrouping_of_isInfix
    {part text : Text}
    (isPart : part <:+: text)
    (holds : holdsGrouping part = true) :
    holdsGrouping text = true := by
  obtain ⟨pseudoClass, listed, inPart⟩ := holdsGrouping_iff.1 holds
  exact holdsGrouping_iff.2 ⟨pseudoClass, listed, inPart.trans (lower_isInfix isPart)⟩

theorem holdsColor_of_isInfix
    {part text : Text}
    (isPart : part <:+: text)
    (holds : holdsColor part = true) :
    holdsColor text = true := by
  obtain ⟨name, listed, inPart⟩ := holdsColor_iff.1 holds
  exact holdsColor_iff.2 ⟨name, listed, inPart.trans (lower_isInfix isPart)⟩

/-- The text of a call to a colour function holds a colour. -/
theorem holdsColor_callText
    {name : Text}
    {functions : List Text}
    (isColor : name.isOneOf functions = true)
    (colors : functions ⊆ colorFunctions)
    (arguments : Text) :
    holdsColor (callText name arguments) = true := by
  have lowerCase : ∀ function ∈ colorFunctions, Text.lower function = function := by decide
  obtain ⟨function, listed, same⟩ := List.any_eq_true.1 isColor
  have isFunction := colors listed
  rw [Text.equalsIgnoringCase, beq_iff_eq, lowerCase function isFunction] at same
  refine holdsColor_iff.2 ⟨function, isFunction, ?_⟩
  rw [callText, Text.lower_append, Text.lower_cons, same]
  exact ⟨[], Text.lower (arguments ++ [')']), by simp⟩

theorem exists_isInfix_of_holdsComplexGroup
    {cells : List Cell}
    (holds : holdsComplexGroup cells = true) :
    ∃ pseudoClass ∈ groupingPseudoClasses, pseudoClass <:+: chars cells := by
  induction cells with
  | nil => contradiction
  | cons cell rest inductionHypothesis =>
      rw [holdsComplexGroup, Bool.or_eq_true, List.any_eq_true] at holds
      obtain ⟨pseudoClass, listed, starts⟩ | later := holds
      · rw [startsComplexGroup, Bool.and_eq_true, List.isPrefixOf_iff_prefix] at starts
        exact ⟨pseudoClass, listed, starts.1.isInfix⟩
      · obtain ⟨pseudoClass, listed, inRest⟩ := inductionHypothesis later
        exact ⟨pseudoClass, listed, inRest.trans (List.suffix_cons _ _).isInfix⟩

namespace Statement

/-- Whether a statement opens a block and holds both a group and a colour. -/
def isMixed (statement : Statement) : Bool :=
  statement.stop.any (fun cell => cell.char == '{') &&
    (holdsGrouping (chars statement.body) && holdsColor (chars statement.body))

/-- A statement without a group is not bound. -/
theorem binding?_eq_none_of_holdsGrouping
    {statement : Statement}
    (noGroup : holdsGrouping (chars statement.body) = false) :
    statement.binding? = none := by
  rw [binding?, if_neg]
  intro complex
  rw [isComplex, Bool.and_eq_true] at complex
  obtain ⟨-, isComplex⟩ := complex
  rw [isComplexSelector, Bool.and_eq_true] at isComplex
  obtain ⟨pseudoClass, listed, inSelector⟩ := exists_isInfix_of_holdsComplexGroup isComplex.2
  rw [chars_cells] at inSelector
  have selectorPart : (chars statement.selector).trimEnd <:+: chars statement.body := by
    have begins : (chars statement.selector).trimEnd <+: chars statement.selector :=
      List.rdropWhile_prefix isWhiteSpace _
    have ends : chars statement.selector <:+ chars statement.body :=
      (List.dropWhile_suffix isLead).map Cell.char
    exact begins.isInfix.trans ends.isInfix
  have holds := holdsGrouping_of_isInfix selectorPart (holdsGrouping_iff.2 ⟨_, listed, inSelector⟩)
  exact Bool.false_ne_true (noGroup.symm.trans holds)

end Statement

/-- No statement is bound, and none that opens a block holds both a group and a colour. -/
def HasSimpleSelectors (cells : List Cell) : Prop :=
  ∀ statement ∈ statements (markInterpolations false cells),
    statement.binding? = none ∧ statement.isMixed = false

/-- Selectors stay simple if a colour is exchanged for a stretch that makes no group. -/
theorem HasSimpleSelectors.exchange
    {front old new back : List Cell}
    (simple : HasSimpleSelectors (front ++ (old ++ back)))
    (oldStretch : IsStretch old)
    (newStretch : IsStretch new)
    (isColor : holdsColor (chars old) = true)
    (makesNoGroup : ∀ lead rest, holdsGrouping (lead ++ (chars new ++ rest)) = true →
      holdsGrouping (lead ++ (chars old ++ rest)) = true) :
    HasSimpleSelectors (front ++ (new ++ back)) := by
  obtain ⟨before, lead, rest, stop, after, oldStatements, newStatements⟩ :=
    oldStretch.exists_statements newStretch front back
  rw [HasSimpleSelectors, oldStatements, List.forall_mem_append, List.forall_mem_cons] at simple
  obtain ⟨beforeSimple, ⟨-, unmixed⟩, afterSimple⟩ := simple
  rw [HasSimpleSelectors, newStatements, List.forall_mem_append, List.forall_mem_cons]
  refine ⟨beforeSimple, ?_, afterSimple⟩
  cases opens : stop.any (fun cell => cell.char == '{') with
  | false =>
      refine ⟨Statement.binding?_eq_none_of_stop opens, ?_⟩
      rw [Statement.isMixed, opens, Bool.false_and]
  | true =>
      have colored : holdsColor (chars (lead ++ (old ++ rest))) = true := by
        rw [chars_append, chars_append]
        exact holdsColor_of_isInfix ⟨chars lead, chars rest, by simp⟩ isColor
      have noGroup : holdsGrouping (chars (lead ++ (old ++ rest))) = false := by
        rwa [Statement.isMixed, opens, colored, Bool.true_and, Bool.and_true] at unmixed
      have stillNoGroup : holdsGrouping (chars (lead ++ (new ++ rest))) = false := by
        rw [Bool.eq_false_iff] at noGroup ⊢
        intro holds
        rw [chars_append, chars_append] at holds noGroup
        exact noGroup (makesNoGroup _ _ holds)
      refine ⟨Statement.binding?_eq_none_of_holdsGrouping stillNoGroup, ?_⟩
      rw [Statement.isMixed, stillNoGroup, Bool.false_and, Bool.and_false]

/-! ## Colours in literal strings -/

/-- Whether a character neither ends a statement nor has a part in an interpolation. -/
def isUnmarked (char : Char) : Bool := char != ';' && char != '{' && char != '}'

theorem isUnmarked_iff
    {char : Char} :
    isUnmarked char = true ↔ char ≠ ';' ∧ char ≠ '{' ∧ char ≠ '}' := by
  simp [isUnmarked, and_assoc]

theorem isStretch_of_isUnmarked
    {cells : List Cell}
    (nonempty : cells ≠ [])
    (unmarked : ∀ char ∈ chars cells, isUnmarked char = true)
    (noAtLast : cells.getLast?.any (·.isCode '@') = false) :
    IsStretch cells := by
  refine ⟨nonempty, fun cell member => isUnmarked_iff.1 ?_, noAtLast⟩
  exact unmarked cell.char (List.mem_map_of_mem member)

theorem isStretch_callParts
    {parts : CallParts}
    (unmarked : ∀ char ∈ chars parts.cells, isUnmarked char = true) :
    IsStretch parts.cells := by
  obtain ⟨front, isCall⟩ := parts.exists_cells_eq_concat
  refine isStretch_of_isUnmarked ?_ unmarked ?_
  · rw [isCall]
    exact List.concat_ne_nil _ _
  · rw [isCall, List.getLast?_concat, Option.any_some]
    exact Cell.isCode_eq_false_of_isCode parts.closes (by decide)

theorem isStretch_literal
    {quote : Char}
    {text : Text}
    (isQuote : quote = '"' ∨ quote = '\'')
    (unmarked : ∀ char ∈ text, isUnmarked char = true) :
    IsStretch (⟨'~', .code, false⟩ :: opened .string (quote :: (text ++ [quote]))) := by
  have quoteUnmarked : isUnmarked quote = true := by
    obtain rfl | rfl := isQuote <;> rfl
  refine isStretch_of_isUnmarked (List.cons_ne_nil _ _) ?_ ?_
  · rw [chars_cons, chars_opened, List.forall_mem_cons, List.forall_mem_cons,
      List.forall_mem_append, List.forall_mem_singleton]
    exact ⟨rfl, quoteUnmarked, unmarked, quoteUnmarked⟩
  · simp [opened, inside, List.getLast?_cons, Cell.isCode]

/-- A literal string makes no group. -/
theorem holdsGrouping_of_literal
    {quote : Char}
    {lead text rest : Text}
    (isQuote : quote = '"' ∨ quote = '\'')
    (holds : holdsGrouping (lead ++ (('~' :: quote :: (text ++ [quote])) ++ rest)) = true) :
    holdsGrouping (lead ++ (text ++ rest)) = true := by
  obtain ⟨pseudoClass, listed, isInfix⟩ := holdsGrouping_iff.1 holds
  have noTilde : ∀ pseudoClass ∈ groupingPseudoClasses, '~' ∉ pseudoClass := by decide
  have noQuote : ∀ pseudoClass ∈ groupingPseudoClasses, quote ∉ pseudoClass := by
    obtain rfl | rfl := isQuote <;> decide
  have lowerQuote : quote.toLower = quote := by
    obtain rfl | rfl := isQuote <;> rfl
  have lowerTilde : '~'.toLower = '~' := rfl
  have split : Text.lower (lead ++ (('~' :: quote :: (text ++ [quote])) ++ rest)) =
      lead.lower ++ '~' :: ([] ++ quote :: (text.lower ++ quote :: rest.lower)) := by
    simp [lowerQuote, lowerTilde, Text.lower]
  have part : ∀ part, pseudoClass <:+: Text.lower part → part <:+: lead ++ (text ++ rest) →
      holdsGrouping (lead ++ (text ++ rest)) = true := fun part inPart isPart =>
    holdsGrouping_of_isInfix isPart (holdsGrouping_iff.2 ⟨pseudoClass, listed, inPart⟩)
  rw [split] at isInfix
  obtain inLead | behind :=
    Text.isInfix_or_of_isInfix_append_cons (noTilde pseudoClass listed) isInfix
  · exact part lead inLead (List.prefix_append _ _).isInfix
  obtain inNothing | behind :=
    Text.isInfix_or_of_isInfix_append_cons (noQuote pseudoClass listed) behind
  · exact part [] inNothing List.nil_infix
  obtain inText | inRest :=
    Text.isInfix_or_of_isInfix_append_cons (noQuote pseudoClass listed) behind
  · exact part text inText ⟨lead, rest, by simp⟩
  · exact part rest inRest ⟨lead ++ text, [], by simp⟩

/-- Selectors stay simple if calls that end no statement are put into literal strings. -/
theorem Rewrites.hasSimpleSelectors
    {before : Option Cell}
    {cells : List Cell}
    {patch : Patch}
    (rewrites : Rewrites before cells patch)
    (unmarked : ∀ text ∈ patch.replaced, ∀ char ∈ text, isUnmarked char = true)
    (front : List Cell)
    (simple : HasSimpleSelectors (front ++ cells)) :
    HasSimpleSelectors (front ++ literalCells patch cells) := by
  induction rewrites generalizing front with
  | nil => exact simple
  | @keep before cell rest patch noLiteral further inductionHypothesis =>
      rw [List.append_cons] at simple
      have kept := inductionHypothesis unmarked _ simple
      rwa [← List.append_cons] at kept
  | @wrap before parts quote rest patch mayStart isColor isQuote noQuote further
      inductionHypothesis =>
      obtain ⟨here, others⟩ := List.forall_mem_cons.1 unmarked
      have colored : holdsColor (chars parts.cells) = true := by
        rw [parts.chars_cells 0]
        exact holdsColor_callText (Bool.and_eq_true_iff.1 isColor).1 (List.Subset.refl _) _
      have exchanged := simple.exchange (isStretch_callParts here) (isStretch_literal isQuote here)
        colored fun lead rest holds => by
          rw [chars_cons, chars_opened] at holds
          exact holdsGrouping_of_literal isQuote holds
      rw [← List.append_assoc] at exchanged
      have kept := inductionHypothesis others _ exchanged
      rwa [literalCells, length_chars, List.drop_left, ← List.cons_append, ← List.append_assoc]

end Lowering
end LessTheme
