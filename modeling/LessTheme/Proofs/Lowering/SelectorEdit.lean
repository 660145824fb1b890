import LessTheme.Proofs.Lowering.AtRuleEdit
import LessTheme.Proofs.Lowering.ColorEdit
import LessTheme.Proofs.Lowering.Selector

/-!
# Selectors bound byte by byte

The selector in front of a brace may be read backward over the bytes, up to the
end of the statement before.  White space and comments in front of it are
passed over, and what is left up to the brace is sliced out and searched for
complex groups.  No slice is refused, and the edits that bind the selectors are
those of the patch.
-/

namespace LessTheme
namespace Lowering

open Source

/-! ## The search for complex groups -/

/-- Whether one of several alternatives holds a nested pseudo-class, unless a slice is refused. -/
def isComplexGroup? (inner : Text) : Option Bool :=
  (splitTopLevel? ',' inner).map fun alternatives =>
    decide (1 < alternatives.length) &&
      alternatives.any fun alternative =>
        nestedPseudoClasses.any fun pseudoClass => alternative.includes pseudoClass

/-- Whether a complex group of a pseudo-class begins at the bytes that stand at the given place. -/
def startsComplexGroup?
    (text pseudoClass : Text)
    (place : Nat)
    (cells : List Cell) : Option Bool :=
  if pseudoClass.isPrefixOf (chars cells) then
    match delimited? '(' ')' (cells.drop (pseudoClass.length - 1)) with
    | some inner =>
        (text.slice? (place + pseudoClass.length)
          (place + pseudoClass.length + inner.length)).bind isComplexGroup?
    | none => some false
  else some false

/-- Whether a complex group of a pseudo-class begins among the bytes from the given place on. -/
def holdsGroup? (text pseudoClass : Text) : Nat → List Cell → Option Bool
  | _, [] => some false
  | place, byte :: rest => do
      if ← startsComplexGroup? text pseudoClass place (byte :: rest) then return true
      else holdsGroup? text pseudoClass (place + 1) rest

/-- Whether a selector has to be bound to a variable, unless a slice is refused. -/
def isComplexSelector? (selector : Text) : Option Bool :=
  if selector.head? = some '@' then some false
  else groupingPseudoClasses.anyM fun pseudoClass =>
    holdsGroup? selector.lower pseudoClass 0 (cells (Text.bytes selector.lower))

/-! ## The search for selectors -/

/-- Whether a marked cell opens a block. -/
def opensBlock (marked : Cell × Bool) : Bool := !marked.2 && marked.1.isCode '{'

/--
The edit that binds the selector in front of a brace to the variable with the given
number, if it is complex and has a literal form; of the marked bytes before the brace
the last one comes first.
-/
def selectorEdit?
    (source : Text)
    (number : UInt64)
    (before : List (Cell × Bool)) : Option (Option Edit) :=
  let statement := (before.takeWhile fun marked => !endsStatement marked).reverse.map Prod.fst
  let selector := statement.dropWhile Statement.isLead
  let start := before.length - selector.length
  if selector.isEmpty || selector.any Cell.isComment then some none
  else do
    let text ← source.slice? start before.length
    if ← isComplexSelector? text.trimEnd then
      return text.trimEnd.collapse.literal?.map fun literal =>
        ⟨start, before.length, boundSelector number literal⟩
    else return none

/-- The edits that bind the selectors among some marked bytes, given the marked bytes before. -/
def selectorEditsFrom?
    (source : Text) : UInt64 → List (Cell × Bool) → List (Cell × Bool) → Option (List Edit)
  | _, _, [] => some []
  | number, before, marked :: rest =>
      if opensBlock marked then do
        match ← selectorEdit? source number before with
        | some edit =>
            (selectorEditsFrom? source (number + 1) (marked :: before) rest).map (edit :: ·)
        | none => selectorEditsFrom? source number (marked :: before) rest
      else selectorEditsFrom? source number (marked :: before) rest

/-- The edits that bind all complex selectors of a text, numbered after the numbers in use. -/
def selectorEdits? (source : Text) : Option (List Edit) :=
  selectorEditsFrom? source (highestSelectorNumber source + 1) []
    (markInterpolations false (cells (Text.bytes source)))

/-! ## Complex groups -/

/-- Whether a complex group of a pseudo-class begins at some cell. -/
def holdsGroup (pseudoClass : Text) : List Cell → Bool
  | [] => false
  | cell :: rest => startsComplexGroup pseudoClass (cell :: rest) || holdsGroup pseudoClass rest

theorem holdsComplexGroup_eq_any (cells : List Cell) :
    holdsComplexGroup cells =
      groupingPseudoClasses.any fun pseudoClass => holdsGroup pseudoClass cells := by
  induction cells with
  | nil => rfl
  | cons cell rest inductionHypothesis =>
      rw [holdsComplexGroup, inductionHypothesis]
      simp only [groupingPseudoClasses, List.any_cons, List.any_nil, Bool.or_false, holdsGroup]
      ac_rfl

theorem anyM_eq_some_any
    {search? : Text → Option Bool}
    {holds : Text → Bool}
    {words : List Text}
    (found : ∀ word ∈ words, search? word = some (holds word)) :
    words.anyM search? = some (words.any holds) := by
  induction words with
  | nil => rfl
  | cons word rest inductionHypothesis =>
      obtain ⟨here, later⟩ := List.forall_mem_cons.1 found
      rw [List.anyM, here, inductionHypothesis later, List.any_cons]
      cases holds word <;> rfl

theorem narrow_of_mem_groupingPseudoClasses :
    ∀ pseudoClass ∈ groupingPseudoClasses,
      pseudoClass ≠ [] ∧ ∀ char ∈ pseudoClass, ¬IsWide char := by
  have narrow : (groupingPseudoClasses.all fun pseudoClass =>
      pseudoClass.all fun char => decide (char.toNat < 0x80)) = true := by decide
  have nonempty : ∀ pseudoClass ∈ groupingPseudoClasses, pseudoClass ≠ [] := by decide
  intro pseudoClass member
  exact ⟨nonempty pseudoClass member,
    not_isWide_of_all (List.all_eq_true.1 narrow pseudoClass member)⟩

theorem isComplexGroup?_eq (inner : Text) : isComplexGroup? inner = some (isComplexGroup inner) := by
  rw [isComplexGroup?, splitTopLevel?_eq (by decide)]
  rfl

section Groups

variable {text pseudoClass : Text}

/-- The cells in front of the parenthesis of a pseudo-class are in ASCII. -/
theorem not_isWide_of_isPrefixOf
    (narrow : ∀ char ∈ pseudoClass, ¬IsWide char)
    {cells : List Cell}
    (begins : pseudoClass.isPrefixOf (chars cells) = true) :
    ∀ cell ∈ cells.take (pseudoClass.length - 1), ¬IsWide cell.char := by
  intro cell member
  have isPrefix := List.prefix_iff_eq_take.1 (List.isPrefixOf_iff_prefix.1 begins)
  rw [← chars_take] at isPrefix
  have inPrefix := List.take_subset_take_left cells (Nat.sub_le pseudoClass.length 1) member
  exact narrow cell.char (isPrefix ▸ List.mem_map_of_mem inPrefix)

/-- What a pseudo-class encloses stands behind as many bytes as the pseudo-class has. -/
theorem exists_append_of_delimited?_drop
    (nonempty : pseudoClass ≠ [])
    {cells inner : List Cell}
    (isNarrow : ∀ cell ∈ cells.take (pseudoClass.length - 1), ¬IsWide cell.char)
    (found : delimited? '(' ')' (cells.drop (pseudoClass.length - 1)) = some inner) :
    ∃ begun behind, cells = begun ++ (inner ++ behind) ∧
      Text.byteLength (chars begun) = pseudoClass.length := by
  obtain ⟨opening, closing, behind, split, opens, -⟩ := exists_eq_of_delimited?_eq_some found
  have isLength : (cells.take (pseudoClass.length - 1)).length + 1 = pseudoClass.length := by
    have some := congrArg List.length split
    have positive := List.length_pos_of_ne_nil nonempty
    rw [List.length_drop, List.length_cons] at some
    rw [List.length_take]
    omega
  have narrowOpening : ¬IsWide opening.char :=
    not_isWide_of_eq (Cell.char_of_isCode opens) (by decide)
  refine ⟨cells.take (pseudoClass.length - 1) ++ [opening], closing :: behind, ?_, ?_⟩
  · conv_lhs => rw [← List.take_append_drop (pseudoClass.length - 1) cells, split]
    simp
  · rw [← length_bytesOf, bytesOf_append, bytesOf_eq_self isNarrow, bytesOf_cons,
      Cell.bytes_of_not_isWide narrowOpening, List.length_append]
    exact isLength

/-- Over the bytes a complex group begins where it begins over the cells. -/
theorem startsComplexGroup?_bytesOf
    (nonempty : pseudoClass ≠ [])
    (narrow : ∀ char ∈ pseudoClass, ¬IsWide char)
    {front : Text}
    {cells : List Cell}
    (whole : text = front ++ chars cells) :
    startsComplexGroup? text pseudoClass front.byteLength (bytesOf cells) =
      some (startsComplexGroup pseudoClass cells) := by
  rw [startsComplexGroup?, startsComplexGroup, chars_bytesOf, Text.isPrefixOf_bytes narrow]
  cases begins : pseudoClass.isPrefixOf (chars cells) with
  | false => rfl
  | true =>
      have isNarrow := not_isWide_of_isPrefixOf narrow begins
      rw [drop_bytesOf isNarrow, delimited?_bytesOf (by decide) (by decide), Bool.true_and,
        if_pos rfl]
      cases found : delimited? '(' ')' (cells.drop (pseudoClass.length - 1)) with
      | none => rfl
      | some inner =>
          obtain ⟨begun, behind, parted, isBegun⟩ :=
            exists_append_of_delimited?_drop nonempty isNarrow found
          have isSlice : text.slice? (front.byteLength + pseudoClass.length)
              (front.byteLength + pseudoClass.length + (bytesOf inner).length) =
                some (chars inner) := by
            refine Text.slice?_eq_some_iff.2 ⟨front ++ chars begun, chars behind, ?_, ?_, ?_⟩
            · rw [whole, parted, chars_append, chars_append, List.append_assoc]
            · rw [Text.byteLength_append, isBegun]
            · rw [Text.byteLength_append, Text.byteLength_append, isBegun, length_bytesOf]
          rw [Option.map_some]
          dsimp only
          rw [isSlice, Option.bind_some, isComplexGroup?_eq]

theorem isPrefixOf_chars_of_isWide
    (nonempty : pseudoClass ≠ [])
    (narrow : ∀ char ∈ pseudoClass, ¬IsWide char)
    {cell : Cell}
    (wide : IsWide cell.char)
    (rest : List Cell) :
    pseudoClass.isPrefixOf (chars (cell :: rest)) = false := by
  obtain ⟨mark, others, rfl⟩ := List.exists_cons_of_ne_nil nonempty
  have isOther : (mark == cell.char) = false :=
    beq_false_of_ne fun same => narrow mark List.mem_cons_self (same ▸ wide)
  rw [chars_cons, List.isPrefixOf_cons_cons, isOther, Bool.false_and]

theorem holdsGroup?_cons_of_isWide
    (nonempty : pseudoClass ≠ [])
    (narrow : ∀ char ∈ pseudoClass, ¬IsWide char)
    {cell : Cell}
    (wide : IsWide cell.char)
    (place : Nat)
    (rest : List Cell) :
    holdsGroup? text pseudoClass place (cell :: rest) =
      holdsGroup? text pseudoClass (place + 1) rest := by
  rw [holdsGroup?, startsComplexGroup?, isPrefixOf_chars_of_isWide nonempty narrow wide]
  rfl

/-- Over the bytes a complex group is found where one is found over the cells. -/
theorem holdsGroup?_bytesOf
    (nonempty : pseudoClass ≠ [])
    (narrow : ∀ char ∈ pseudoClass, ¬IsWide char)
    {front : Text}
    {cells : List Cell}
    (whole : text = front ++ chars cells) :
    holdsGroup? text pseudoClass front.byteLength (bytesOf cells) =
      some (holdsGroup pseudoClass cells) := by
  induction cells generalizing front with
  | nil => rfl
  | cons cell rest inductionHypothesis =>
      have behind : text = (front ++ [cell.char]) ++ chars rest := by
        rw [whole, List.append_assoc]
        rfl
      have further := inductionHypothesis behind
      rw [Text.byteLength_append] at further
      by_cases wide : IsWide cell.char
      · have passes := search_bytes_append_of_isWide
          (fun _ => @holdsGroup?_cons_of_isWide text _ nonempty narrow _) wide
        rw [bytesOf_cons, passes, holdsGroup, startsComplexGroup,
          isPrefixOf_chars_of_isWide nonempty narrow wide, Bool.false_and, Bool.false_or]
        exact further
      · have begins := startsComplexGroup?_bytesOf nonempty narrow whole
        rw [bytesOf_cons, Cell.bytes_of_not_isWide wide, List.singleton_append] at begins ⊢
        rw [holdsGroup?, begins, holdsGroup]
        cases startsComplexGroup pseudoClass (cell :: rest) with
        | true => rfl
        | false =>
            rw [Text.byteLength, Text.utf8Size_of_not_isWide wide] at further
            exact further

end Groups

/-- The search over the bytes of a selector decides whether it is complex. -/
theorem isComplexSelector?_eq (selector : Text) :
    isComplexSelector? selector = some (isComplexSelector selector) := by
  rw [isComplexSelector?, isComplexSelector, holdsComplexGroup_eq_any]
  by_cases isAtRule : selector.head? = some '@'
  · rw [if_pos isAtRule, isAtRule]
    rfl
  · rw [if_neg isAtRule, bne_iff_ne.2 isAtRule, Bool.true_and]
    refine anyM_eq_some_any fun pseudoClass member => ?_
    obtain ⟨nonempty, narrow⟩ := narrow_of_mem_groupingPseudoClasses pseudoClass member
    rw [cells_bytes]
    exact @holdsGroup?_bytesOf selector.lower pseudoClass nonempty narrow [] _
      (chars_cells selector.lower).symm

/-! ## Marked bytes -/

/-- The bytes of marked cells, each with the mark of its cell. -/
def markedBytes (marks : List (Cell × Bool)) : List (Cell × Bool) :=
  marks.flatMap fun marked => marked.1.bytes.map fun byte => (byte, marked.2)

@[simp] theorem markedBytes_nil : markedBytes [] = [] := rfl

theorem markedBytes_cons
    (marked : Cell × Bool)
    (rest : List (Cell × Bool)) :
    markedBytes (marked :: rest) =
      marked.1.bytes.map (fun byte => (byte, marked.2)) ++ markedBytes rest := rfl

theorem markedBytes_append (front back : List (Cell × Bool)) :
    markedBytes (front ++ back) = markedBytes front ++ markedBytes back :=
  List.flatMap_append

theorem map_fst_markedBytes (marks : List (Cell × Bool)) :
    (markedBytes marks).map Prod.fst = bytesOf (marks.map Prod.fst) := by
  induction marks with
  | nil => rfl
  | cons marked rest inductionHypothesis =>
      rw [markedBytes_cons, List.map_append, inductionHypothesis, List.map_map]
      exact congrArg (· ++ _) (List.map_id _)

theorem length_markedBytes (marks : List (Cell × Bool)) :
    (markedBytes marks).length = Text.byteLength (chars (marks.map Prod.fst)) := by
  rw [← length_bytesOf, ← map_fst_markedBytes, List.length_map]

theorem markInterpolations_append_of_isWide
    {front : List Cell}
    (wide : ∀ cell ∈ front, IsWide cell.char)
    (inside : Bool)
    (rest : List Cell) :
    markInterpolations inside (front ++ rest) =
      front.map (fun cell => (cell, inside)) ++ markInterpolations inside rest := by
  induction front with
  | nil => rfl
  | cons cell others inductionHypothesis =>
      obtain ⟨here, later⟩ := List.forall_mem_cons.1 wide
      rw [List.cons_append, List.map_cons, List.cons_append, ← inductionHypothesis later]
      cases inside with
      | true => rw [markInterpolations, bne_iff_ne.2 (here.ne (by decide))]
      | false =>
          rw [markInterpolations, Cell.isCode_eq_false_of_isWide here (by decide)]
          rfl

theorem head?_bytesOf_eq_brace (cells : List Cell) :
    ((bytesOf cells).head?.map Cell.char == some '{') =
      (cells.head?.map Cell.char == some '{') := by
  have same := @Text.head?_bytes_eq_some_iff (chars cells) '{' (by decide)
  rw [← chars_bytesOf, chars, chars, List.head?_map, List.head?_map] at same
  rw [Bool.eq_iff_iff, beq_iff_eq, beq_iff_eq]
  exact same

/-- A byte belongs to an interpolation if its character does. -/
theorem markInterpolations_bytesOf
    (inside : Bool)
    (cells : List Cell) :
    markInterpolations inside (bytesOf cells) = markedBytes (markInterpolations inside cells) := by
  induction cells generalizing inside with
  | nil => cases inside <;> rfl
  | cons cell rest inductionHypothesis =>
      rw [bytesOf_cons]
      by_cases wide : IsWide cell.char
      · have here := @markInterpolations_append_of_isWide [cell] (by simpa using wide) inside rest
        rw [List.singleton_append] at here
        rw [markInterpolations_append_of_isWide
          (fun _ member => (Cell.of_mem_bytes member).2 wide), inductionHypothesis, here]
        rfl
      · have closes : IsBytewise fun next => next.char == '}' :=
          .of_isWide fun _ isWide => beq_false_of_ne (isWide.ne (by decide))
        rw [Cell.bytes_of_not_isWide wide, List.singleton_append]
        cases inside with
        | true =>
            rw [markInterpolations, markInterpolations, inductionHypothesis, markedBytes_cons,
              Cell.bytes_of_not_isWide wide]
            rfl
        | false =>
            rw [markInterpolations, markInterpolations, inductionHypothesis, markedBytes_cons,
              Cell.bytes_of_not_isWide wide, head?_bytesOf_eq_brace, closes.any_bytesOf]
            rfl

/-! ## Selectors read backward -/

theorem endsStatement_of_mem_markedBytes
    {marks : List (Cell × Bool)}
    (goesOn : ∀ marked ∈ marks, endsStatement marked = false) :
    ∀ marked ∈ markedBytes marks, endsStatement marked = false := by
  intro marked member
  obtain ⟨whole, isMark, isByte⟩ := List.mem_flatMap.1 member
  obtain ⟨byte, inCell, rfl⟩ := List.mem_map.1 isByte
  have ends : IsBytewise fun cell => cell.isCode ';' || cell.isCode '{' || cell.isCode '}' :=
    ((IsBytewise.isCode (by decide)).or (.isCode (by decide))).or (.isCode (by decide))
  rw [← goesOn whole isMark, endsStatement, endsStatement]
  exact congrArg (!whole.2 && ·) (ends whole.1 byte inCell)

theorem not_isWide_of_endsStatement
    {marked : Cell × Bool}
    (ends : endsStatement marked = true) :
    ¬IsWide marked.1.char := by
  intro wide
  have noMark (mark : Char) (narrow : mark.toNat < 0x80) : marked.1.isCode mark = false :=
    Cell.isCode_eq_false_of_isWide wide narrow
  rw [endsStatement, noMark _ (by decide), noMark _ (by decide), noMark _ (by decide),
    Bool.or_self, Bool.or_self, Bool.and_false] at ends
  contradiction

/-- Whether a statement may begin behind some marked cells. -/
def EndsStatements (marks : List (Cell × Bool)) : Prop :=
  ∀ last ∈ marks.getLast?, endsStatement last = true

/-- The statement in front of a place is read backward up to the end of the one before. -/
theorem takeWhile_reverse_markedBytes
    {earlier body : List (Cell × Bool)}
    (isEnd : EndsStatements earlier)
    (goesOn : ∀ marked ∈ body, endsStatement marked = false) :
    (markedBytes (earlier ++ body)).reverse.takeWhile (fun marked => !endsStatement marked) =
      (markedBytes body).reverse := by
  have isBody : ∀ marked ∈ (markedBytes body).reverse, (!endsStatement marked) = true := by
    intro marked member
    rw [endsStatement_of_mem_markedBytes goesOn marked (List.mem_reverse.1 member)]
    rfl
  rw [markedBytes_append, List.reverse_append, List.takeWhile_append_of_pos isBody]
  have stops :
      (markedBytes earlier).reverse.takeWhile (fun marked => !endsStatement marked) = [] := by
    cases List.eq_nil_or_concat earlier with
    | inl isEmpty => rw [isEmpty]; rfl
    | inr split =>
        obtain ⟨front, last, rfl⟩ := split
        have ends := isEnd last (by simp)
        rw [List.concat_eq_append, markedBytes_append, markedBytes_cons,
          Cell.bytes_of_not_isWide (not_isWide_of_endsStatement ends), List.reverse_append]
        simp [ends]
  rw [stops, List.append_nil]

theorem isBytewise_isLead : IsBytewise Statement.isLead :=
  (IsBytewise.of_isWide fun _ wide => wide.isAsciiWhiteSpace_eq_false).or .isComment

theorem isEmpty_bytesOf (cells : List Cell) : (bytesOf cells).isEmpty = cells.isEmpty := by
  cases cells with
  | nil => rfl
  | cons cell rest =>
      obtain ⟨byte, others, split⟩ := List.exists_cons_of_ne_nil cell.bytes_ne_nil
      rw [bytesOf_cons, split]
      rfl

/-- The edit that binds the selector of a statement that begins at the given byte. -/
def Statement.edit?
    (number : UInt64)
    (place : Nat)
    (statement : Statement) : Option Edit :=
  statement.binding?.map fun literal =>
    ⟨place + Text.byteLength (chars statement.lead), place + statement.keptBody.byteLength,
      boundSelector number literal⟩

theorem edits_selectorPatch_cons
    (number : UInt64)
    (place : Nat)
    (statement : Statement)
    (rest : List Statement) :
    (selectorPatch number (statement :: rest)).edits place =
      match statement.edit? number place with
      | some edit =>
          edit :: (selectorPatch (number + 1) rest).edits (place + statement.text.byteLength)
      | none => (selectorPatch number rest).edits (place + statement.text.byteLength) := by
  have isKept := congrArg Text.byteLength statement.keptBody_eq_lead_append_selector
  rw [Text.byteLength_append] at isKept
  rw [Statement.edit?]
  cases bound : statement.binding? with
  | none =>
      rw [selectorPatch_of_none bound]
      rfl
  | some literal =>
      rw [selectorPatch_of_some bound, Patch.edits, Patch.edits, Patch.edits, Statement.text,
        Text.byteLength_append, isKept]
      simp only [Option.map_some, Nat.add_assoc]

/-- In front of a brace the selector of the statement is read, and no slice is refused. -/
theorem selectorEdit?_markedBytes
    {source : Text}
    {earlier body : List (Cell × Bool)}
    (isEnd : EndsStatements earlier)
    (goesOn : ∀ marked ∈ body, endsStatement marked = false)
    {later : Text}
    (whole : source = chars ((earlier ++ body).map Prod.fst) ++ later)
    {statement : Statement}
    (isStatement : statement.body = body.map Prod.fst)
    (opens : statement.stop.any (fun cell => cell.char == '{') = true)
    (number : UInt64) :
    selectorEdit? source number (markedBytes (earlier ++ body)).reverse =
      some (statement.edit? number (Text.byteLength (chars (earlier.map Prod.fst)))) := by
  have isSelector : (body.map Prod.fst).dropWhile Statement.isLead = statement.selector := by
    rw [← isStatement]
    rfl
  have isComplex : statement.isComplex = (!statement.selector.any Cell.isComment &&
      isComplexSelector (chars statement.selector).trimEnd) := by
    rw [Statement.isComplex, opens, Bool.true_and]
  have isKept := statement.keptBody_eq_lead_append_selector
  have isFront : chars ((earlier ++ body).map Prod.fst) =
      chars (earlier.map Prod.fst) ++ statement.keptBody := by
    rw [List.map_append, chars_append, ← isStatement]
    rfl
  have isStart : Text.byteLength (chars (earlier.map Prod.fst) ++ statement.keptBody) -
      Text.byteLength (chars statement.selector) =
        Text.byteLength (chars (earlier.map Prod.fst) ++ chars statement.lead) := by
    rw [isKept, ← List.append_assoc, Text.byteLength_append _ (chars statement.selector),
      Nat.add_sub_cancel]
  have isSlice : source.slice?
      (Text.byteLength (chars (earlier.map Prod.fst) ++ chars statement.lead))
      (Text.byteLength (chars (earlier.map Prod.fst) ++ statement.keptBody)) =
        some (chars statement.selector) := by
    refine Text.slice?_eq_some_iff.2 ⟨_, later, ?_, rfl, ?_⟩
    · rw [whole, isFront, isKept]
      simp only [List.append_assoc]
    · rw [isKept, List.append_assoc]
  rw [selectorEdit?, takeWhile_reverse_markedBytes isEnd goesOn, List.reverse_reverse,
    map_fst_markedBytes, isBytewise_isLead.dropWhile_bytesOf, isSelector, isEmpty_bytesOf,
    IsBytewise.isComment.any_bytesOf, List.length_reverse, length_markedBytes, length_bytesOf,
    isFront, isStart, isSlice, Statement.edit?, Statement.binding?, isComplex,
    ← Text.byteLength_append, ← Text.byteLength_append]
  cases isEmpty : statement.selector.isEmpty with
  | true =>
      rw [List.isEmpty_iff.1 isEmpty]
      rfl
  | false =>
      cases statement.selector.any Cell.isComment with
      | true => rfl
      | false =>
          rw [Bool.or_self, if_neg Bool.false_ne_true, Option.bind_eq_bind, Option.bind_some,
            isComplexSelector?_eq, Bool.not_false, Bool.true_and]
          cases isComplexSelector (chars statement.selector).trimEnd <;> rfl

/-! ## The course of the search -/

theorem opensBlock_eq_false
    {marked : Cell × Bool}
    (goesOn : endsStatement marked = false) :
    opensBlock marked = false := by
  refine Bool.eq_false_iff.2 fun opens => Bool.eq_false_iff.1 goesOn ?_
  obtain ⟨outside, isBrace⟩ := Bool.and_eq_true_iff.1 opens
  rw [endsStatement, outside, isBrace]
  simp

theorem char_ne_brace
    {marked : Cell × Bool}
    (ends : endsStatement marked = true)
    (goesOn : opensBlock marked = false) :
    marked.1.char ≠ '{' := by
  obtain ⟨outside, isStop⟩ := Bool.and_eq_true_iff.1 ends
  rw [opensBlock, outside, Bool.true_and] at goesOn
  rw [goesOn, Bool.or_false, Bool.or_eq_true] at isStop
  obtain isStop | isStop := isStop
  all_goals
    rw [Cell.char_of_isCode isStop]
    decide

theorem edits_selectorPatch_of_stop
    {statements : List Statement}
    (noStop : ∀ statement ∈ statements, statement.stop = none)
    (number : UInt64)
    (place : Nat) :
    (selectorPatch number statements).edits place = [] := by
  induction statements generalizing place with
  | nil => rfl
  | cons statement rest inductionHypothesis =>
      obtain ⟨here, later⟩ := List.forall_mem_cons.1 noStop
      rw [selectorPatch_of_none (Statement.binding?_eq_none_of_stop (by rw [here]; rfl)),
        Patch.edits, inductionHypothesis later]

section Search

variable {source : Text} {earlier body : List (Cell × Bool)}

theorem selectorEditsFrom?_append
    {number : UInt64}
    {front : List (Cell × Bool)}
    (passes : ∀ marked ∈ front, opensBlock marked = false)
    (before rest : List (Cell × Bool)) :
    selectorEditsFrom? source number before (front ++ rest) =
      selectorEditsFrom? source number (front.reverse ++ before) rest := by
  induction front generalizing before with
  | nil => rfl
  | cons marked others inductionHypothesis =>
      obtain ⟨here, later⟩ := List.forall_mem_cons.1 passes
      rw [List.cons_append, selectorEditsFrom?, here, if_neg Bool.false_ne_true,
        inductionHypothesis later, List.reverse_cons, List.append_assoc]
      rfl

/-- Within a statement nothing is bound. -/
theorem selectorEditsFrom?_markedBytes_cons
    {marked : Cell × Bool}
    (goesOn : endsStatement marked = false)
    (number : UInt64)
    (before rest : List (Cell × Bool)) :
    selectorEditsFrom? source number (markedBytes before).reverse (markedBytes (marked :: rest)) =
      selectorEditsFrom? source number (markedBytes (before ++ [marked])).reverse
        (markedBytes rest) := by
  have passes : ∀ byte ∈ markedBytes [marked], opensBlock byte = false := by
    intro byte member
    refine opensBlock_eq_false (endsStatement_of_mem_markedBytes ?_ byte member)
    exact List.forall_mem_singleton.2 goesOn
  rw [← List.singleton_append, markedBytes_append [marked] rest,
    selectorEditsFrom?_append passes, markedBytes_append, List.reverse_append]

/-- At the end of a statement its selector is bound. -/
theorem selectorEditsFrom?_markedBytes_stop
    (isEnd : EndsStatements earlier)
    (goesOn : ∀ marked ∈ body, endsStatement marked = false)
    {stop : Cell × Bool}
    (ends : endsStatement stop = true)
    {rest : List (Cell × Bool)}
    (whole : source = chars ((earlier ++ (body ++ stop :: rest)).map Prod.fst))
    (number : UInt64) :
    selectorEditsFrom? source number (markedBytes (earlier ++ body)).reverse
        (markedBytes (stop :: rest)) =
      match Statement.edit? number (Text.byteLength (chars (earlier.map Prod.fst)))
        ⟨body.map Prod.fst, some stop.1⟩ with
      | some edit =>
          (selectorEditsFrom? source (number + 1)
            (markedBytes (earlier ++ (body ++ [stop]))).reverse (markedBytes rest)).map (edit :: ·)
      | none =>
          selectorEditsFrom? source number (markedBytes (earlier ++ (body ++ [stop]))).reverse
            (markedBytes rest) := by
  have isStop : stop.1.bytes = [stop.1] :=
    Cell.bytes_of_not_isWide (not_isWide_of_endsStatement ends)
  have behind : (markedBytes (earlier ++ (body ++ [stop]))).reverse =
      stop :: (markedBytes (earlier ++ body)).reverse := by
    rw [← List.append_assoc, markedBytes_append, List.reverse_append, markedBytes_cons, isStop]
    rfl
  rw [behind, markedBytes_cons, isStop, List.map_singleton, List.singleton_append,
    selectorEditsFrom?]
  cases opens : opensBlock stop with
  | false =>
      have noBrace : (some stop.1).any (fun cell => cell.char == '{') = false :=
        beq_false_of_ne (char_ne_brace ends opens)
      rw [if_neg Bool.false_ne_true, Statement.edit?, Statement.binding?_eq_none_of_stop noBrace]
      rfl
  | true =>
      have isBrace : (some stop.1).any (fun cell => cell.char == '{') = true :=
        beq_iff_eq.2 (Cell.char_of_isCode (Bool.and_eq_true_iff.1 opens).2)
      have isBody : Statement.body ⟨body.map Prod.fst, some stop.1⟩ = body.map Prod.fst := rfl
      rw [← List.append_assoc, List.map_append, chars_append] at whole
      rw [if_pos rfl, selectorEdit?_markedBytes isEnd goesOn whole isBody isBrace]
      cases Statement.edit? number (Text.byteLength (chars (earlier.map Prod.fst)))
        ⟨body.map Prod.fst, some stop.1⟩ <;> rfl

/-- Over the bytes those selectors are bound that the patch binds. -/
theorem selectorEditsFrom?_markedBytes
    {marks : List (Cell × Bool)}
    (isEnd : EndsStatements earlier)
    (goesOn : ∀ marked ∈ body, endsStatement marked = false)
    (whole : source = chars ((earlier ++ (body ++ marks)).map Prod.fst))
    (number : UInt64) :
    selectorEditsFrom? source number (markedBytes (earlier ++ body)).reverse (markedBytes marks) =
      some ((selectorPatch number (statements (body ++ marks))).edits
        (Text.byteLength (chars (earlier.map Prod.fst)))) := by
  induction marks generalizing earlier body number with
  | nil =>
      rw [List.append_nil,
        edits_selectorPatch_of_stop fun _ => stop_eq_none_of_mem_statements goesOn]
      rfl
  | cons marked rest inductionHypothesis =>
      have split : body ++ marked :: rest = (body ++ [marked]) ++ rest := by simp
      cases ends : endsStatement marked with
      | false =>
          rw [selectorEditsFrom?_markedBytes_cons ends, List.append_assoc, split]
          exact inductionHypothesis isEnd
            (List.forall_mem_append.2 ⟨goesOn, List.forall_mem_singleton.2 ends⟩)
            (split ▸ whole) number
      | true =>
          have isEndBehind : EndsStatements (earlier ++ (body ++ [marked])) := by
            intro last isLast
            rw [← List.append_assoc, List.getLast?_concat, Option.mem_some_iff] at isLast
            exact isLast ▸ ends
          have further := @inductionHypothesis _ [] isEndBehind (List.forall_mem_nil _)
            (by simpa using whole)
          have isText : Statement.text ⟨body.map Prod.fst, some marked.1⟩ =
              chars ((body ++ [marked]).map Prod.fst) := by
            rw [List.map_append, chars_append]
            rfl
          rw [List.append_nil, List.nil_append, List.map_append, chars_append,
            Text.byteLength_append, ← isText] at further
          rw [selectorEditsFrom?_markedBytes_stop isEnd goesOn ends whole,
            statements_append_cons goesOn ends, edits_selectorPatch_cons, further, further]
          cases Statement.edit? number (Text.byteLength (chars (earlier.map Prod.fst)))
            ⟨body.map Prod.fst, some marked.1⟩ <;> rfl

end Search

/-- The edits that bind selectors are those of the patch. -/
theorem selectorEdits?_eq (source : Text) :
    selectorEdits? source = some ((complexSelectorPatch source).edits 0) := by
  have whole : source = chars ((markInterpolations false (cells source)).map Prod.fst) := by
    rw [map_fst_markInterpolations, chars_cells]
  have isEnd : EndsStatements [] := fun _ member => absurd member (by simp)
  rw [selectorEdits?, cells_bytes, markInterpolations_bytesOf]
  exact @selectorEditsFrom?_markedBytes source [] [] _ isEnd (List.forall_mem_nil _) whole _

/-!
## Passes that are made by edits

Three passes rewrite a text by edits: selectors are bound, colours are made
literal and at-rules are cut out.  Each pass may be carried out over the bytes
of the text.  Every slice that its search asks for lies between characters, its
edits are well formed, and making them gives what the pass gives.
-/

theorem ne_nil_of_mem_complexSelectorPatch
    {source old new : Text}
    (member : Piece.replace old new ∈ complexSelectorPatch source) :
    old ≠ [] := by
  obtain ⟨statement, -, literal, -, bound, rfl, -⟩ := exists_binding_of_mem_selectorPatch member
  intro isEmpty
  have noSelector : statement.isComplex = false := by
    rw [Statement.isComplex, isEmpty]
    exact Bool.and_false _
  rw [Statement.binding?, noSelector] at bound
  contradiction

/--
Over the bytes of every text the three passes find well-formed edits, without asking for a
slice that there is not, and making the edits replaces exactly their ranges and gives the
result of the pass.
-/
theorem passes_make_wellFormed_edits (source : Text) :
    (∃ edits, selectorEdits? source = some edits ∧
      Edit.Produce source edits (bindComplexSelectors source)) ∧
    (∃ edits, customColorEdits? source = some edits ∧
      Edit.Produce source edits (literalCustomColors source)) ∧
    (∃ edits, atRuleEdits? source = some (edits, (cutAtRules source).atRules) ∧
      Edit.Produce source edits (cutAtRules source).source) := by
  refine ⟨⟨_, selectorEdits?_eq source, ?_⟩, ⟨_, customColorEdits?_eq source, ?_⟩,
    ⟨_, atRuleEdits?_eq source, ?_⟩⟩
  · exact Edit.produce_edits (before_complexSelectorPatch source)
      fun _ _ => ne_nil_of_mem_complexSelectorPatch
  · exact Edit.produce_edits (customColorRule.before_patch none source)
      fun _ _ => customColorRule.ne_nil_of_mem_patchFrom
  · exact Edit.produce_edits (atRuleRule.before_patch ⟨0, 0⟩ source)
      fun _ _ => atRuleRule.ne_nil_of_mem_patchFrom

end Lowering
end LessTheme
