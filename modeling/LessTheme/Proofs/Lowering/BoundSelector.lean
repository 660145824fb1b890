import LessTheme.Proofs.Lowering.Selector

/-!
# The string of a bound selector

A selector that is bound is put into a string, which in the text behind the
pass is a string of its own: the mode in front of the selector is the same in
the source and behind the pass.  The string ends at its quote unless an odd
number of backslashes stands at the end of the selector.  The selector is kept
but for its white space, which is collapsed in its strings as well.
-/

namespace LessTheme
namespace Lowering

open Source

/-- The cells of the stretch that a patch of some cells replaces behind the given pieces. -/
def stretchCells (cells : List Cell) (front : Patch) (old : Text) : List Cell :=
  (cells.drop front.before.length).take old.length

/--
A stretch of some cells is a selector that is bound to a variable, and it is
read in the mode that is also in front of it behind the patch.
-/
structure IsBound
    (cells : List Cell)
    (depth : Nat)
    (front : Patch)
    (old new : Text)
    (number : UInt64)
    (quote : Char)
    (outside : Nat) : Prop where
  isQuote : quote = '"' ∨ quote = '\''
  noQuote : quote ∉ old.collapse
  oneLine : '\n' ∉ old.collapse
  new_eq : new = boundSelector number ('~' :: quote :: (old.collapse ++ [quote]))
  readsFront : (Mode.code depth false).after front.after (some '@') = .code outside false
  readsOld : stretchCells cells front old = (Mode.code outside false).cellsBefore old (some '{')

/-- What stands in front of some cells, and in code leads to code, may be patched before them. -/
theorem IsBound.append
    {front rest : List Cell}
    {depth behindDepth outside : Nat}
    {behind : Patch}
    {old new : Text}
    {number : UInt64}
    {quote : Char}
    (before : Patch)
    (sameLength : before.before.length = front.length)
    (reads : ∀ next, (Mode.code depth false).after before.after next = .code behindDepth false)
    (further : IsBound rest behindDepth behind old new number quote outside) :
    IsBound (front ++ rest) depth (before ++ behind) old new number quote outside := by
  refine { further with readsFront := ?_, readsOld := ?_ }
  · rw [Patch.after_append, Mode.after_append, reads, further.readsFront]
  · rw [← further.readsOld, stretchCells, stretchCells, Patch.before_append, List.length_append,
      sameLength, List.drop_length_add_append]

namespace IsReadStatement

variable {depth behindDepth : Nat} {body rest : List Cell} {stop : Cell} {literal : Text}

/-- Behind a statement code is read. -/
theorem after_append
    (isRead : IsReadStatement depth body stop behindDepth)
    (next : Option Char) :
    (Mode.code depth false).after (chars body ++ [stop.char]) next = .code behindDepth false := by
  rw [Mode.after_append, List.head?_cons, Option.some_or, Mode.after, isRead.readsStop, Mode.after]

/-- Of the pieces of a bound statement the second one replaces the selector. -/
theorem exists_isBound
    (isRead : IsReadStatement depth body stop behindDepth)
    (bound : Statement.binding? ⟨body, some stop⟩ = some literal)
    (number : UInt64) :
    ∃ quote outside, IsBound (body ++ stop :: rest) depth
      [.keep (chars (Statement.lead ⟨body, some stop⟩))]
      (chars (Statement.selector ⟨body, some stop⟩)) (boundSelector number literal)
      number quote outside := by
  obtain ⟨-, -, lead, selector, leadDepth, rfl, sameLead, sameSelector, -, readsLead,
    readsSelector⟩ := isRead.exists_parts_of_some bound
  obtain ⟨-, -, oneLine, quote, isQuote, noQuote, rfl⟩ :=
    Statement.exists_of_binding?_eq_some bound
  rw [sameSelector] at oneLine noQuote ⊢
  rw [sameLead]
  refine ⟨quote, leadDepth, isQuote, noQuote, oneLine, rfl, ?_, ?_⟩
  · rw [Patch.after, Patch.after, List.append_nil, (readsLead _).2]
  · rw [readsSelector, stretchCells, Patch.before, Patch.before, List.append_nil,
      length_chars, length_chars, List.append_assoc, List.drop_left, List.take_left]

/-- The pieces of a bound statement take its text, and behind them code is read. -/
theorem before_and_after_of_some
    (isRead : IsReadStatement depth body stop behindDepth)
    (bound : Statement.binding? ⟨body, some stop⟩ = some literal)
    (number : UInt64) :
    let pieces : Patch := [.keep (chars (Statement.lead ⟨body, some stop⟩)),
      .replace (chars (Statement.selector ⟨body, some stop⟩)) (boundSelector number literal),
      .keep (Statement.stopText ⟨body, some stop⟩)]
    pieces.before.length = (body ++ [stop]).length ∧
      ∀ next, (Mode.code depth false).after pieces.after next = .code behindDepth false := by
  obtain ⟨isBrace, rfl, lead, selector, leadDepth, rfl, sameLead, sameSelector, -, readsLead, -⟩ :=
    isRead.exists_parts_of_some bound
  obtain ⟨-, -, oneLine, quote, isQuote, noQuote, rfl⟩ :=
    Statement.exists_of_binding?_eq_some bound
  have stopText : Statement.stopText ⟨lead ++ selector, some stop⟩ = [stop.char] := rfl
  have readsBrace : ∀ next, (Mode.code 0 false).after [stop.char] next = .code 0 false := by
    intro next
    simp [isBrace, Mode.after, Mode.read, parenthesisDepth]
  refine ⟨by simp [Patch.before, sameLead, sameSelector, stopText], fun next => ?_⟩
  rw [Patch.after, Patch.after, Patch.after, Patch.after, List.append_nil, sameLead, stopText,
    Mode.after_append, (readsLead _).2, Mode.after_append,
    (read_boundSelector isQuote noQuote oneLine _ _ _ _).2, readsBrace]

/-- In front of the cells behind a statement that is not bound one more piece is kept. -/
theorem exists_isBound_of_none
    (isRead : IsReadStatement depth body stop behindDepth)
    {pieces front back : Patch}
    {old new : Text}
    (further : ∀ front, pieces = front ++ .replace old new :: back →
      ∃ number quote outside, IsBound rest behindDepth front old new number quote outside)
    (replaces : .keep (chars body ++ [stop.char]) :: pieces = front ++ .replace old new :: back) :
    ∃ number quote outside,
      IsBound (body ++ stop :: rest) depth front old new number quote outside := by
  cases front with
  | nil => exact absurd (List.cons.inj replaces).1 nofun
  | cons piece front =>
      obtain ⟨rfl, behindReplaces⟩ := List.cons.inj replaces
      obtain ⟨number, quote, outside, isBound⟩ := further front behindReplaces
      have kept := isBound.append [.keep (chars body ++ [stop.char])]
        (show _ = (body ++ [stop]).length by simp [Patch.before]) fun next => by
          rw [Patch.after, Patch.after, List.append_nil, isRead.after_append]
      rw [List.append_cons]
      exact ⟨number, quote, outside, kept⟩

/-- Of the pieces of a bound statement only the second one replaces something. -/
theorem exists_isBound_of_some
    (isRead : IsReadStatement depth body stop behindDepth)
    (bound : Statement.binding? ⟨body, some stop⟩ = some literal)
    (number : UInt64)
    {pieces front back : Patch}
    {old new : Text}
    (further : ∀ front, pieces = front ++ .replace old new :: back →
      ∃ number quote outside, IsBound rest behindDepth front old new number quote outside)
    (replaces : .keep (chars (Statement.lead ⟨body, some stop⟩)) ::
      .replace (chars (Statement.selector ⟨body, some stop⟩)) (boundSelector number literal) ::
        .keep (Statement.stopText ⟨body, some stop⟩) :: pieces =
          front ++ .replace old new :: back) :
    ∃ number quote outside,
      IsBound (body ++ stop :: rest) depth front old new number quote outside := by
  match front, replaces with
  | [], replaces => exact absurd (List.cons.inj replaces).1 nofun
  | [lead], replaces =>
      obtain ⟨rfl, behindReplaces⟩ := List.cons.inj replaces
      obtain ⟨isReplace, -⟩ := List.cons.inj behindReplaces
      obtain ⟨rfl, rfl⟩ := Piece.replace.inj isReplace
      exact ⟨number, isRead.exists_isBound bound number⟩
  | [lead, selector], replaces =>
      obtain ⟨-, behindReplaces⟩ := List.cons.inj replaces
      obtain ⟨-, lastReplaces⟩ := List.cons.inj behindReplaces
      exact absurd (List.cons.inj lastReplaces).1 nofun
  | lead :: selector :: brace :: front, replaces =>
      obtain ⟨rfl, behindReplaces⟩ := List.cons.inj replaces
      obtain ⟨rfl, lastReplaces⟩ := List.cons.inj behindReplaces
      obtain ⟨rfl, restReplaces⟩ := List.cons.inj lastReplaces
      obtain ⟨restNumber, quote, outside, isBound⟩ := further front restReplaces
      obtain ⟨sameLength, readsPieces⟩ := isRead.before_and_after_of_some bound number
      rw [List.append_cons]
      exact ⟨restNumber, quote, outside, isBound.append _ sameLength readsPieces⟩

end IsReadStatement

/-- Every piece that replaces something binds a selector. -/
theorem exists_isBound_of_selectorPatch_eq
    {cells : List Cell}
    {depth : Nat}
    (reads : (Mode.code depth false).cells (chars cells) = cells)
    {number : UInt64}
    {front back : Patch}
    {old new : Text}
    (replaces : selectorPatch number (statements (markInterpolations false cells)) =
      front ++ .replace old new :: back) :
    ∃ bound quote outside, IsBound cells depth front old new bound quote outside := by
  induction length : cells.length using Nat.strong_induction_on
    generalizing cells depth number front with
  | _ count inductionHypothesis =>
  subst length
  have braces : BracesStandAsCode cells := reads ▸ bracesStandAsCode_cells _ _
  obtain unstopped | ⟨body, stop, rest, rfl, unstopped, ends, staysOpen⟩ :=
    unstopped_or_exists_stop braces (absurd · Bool.false_ne_true)
  case inl =>
    have member : Piece.replace old new ∈
        selectorPatch number (statements (markInterpolations false cells)) := by
      rw [replaces]
      exact List.mem_append_cons_self
    obtain ⟨statement, isStatement, literal, bound, isBound, -⟩ :=
      exists_binding_of_mem_selectorPatch member
    have noStop := stop_eq_none_of_mem_statements unstopped.endsStatement_eq_false isStatement
    rw [Statement.binding?_eq_none_of_stop (by rw [noStop]; rfl)] at isBound
    contradiction
  case inr =>
    obtain ⟨behindDepth, isRead, readsRest⟩ := IsReadStatement.exists_of_reads unstopped ends reads
    rw [unstopped.statements_append_cons ends staysOpen] at replaces
    have shorter : rest.length < (body ++ stop :: rest).length := by
      simp
      omega
    cases bound : Statement.binding? ⟨body, some stop⟩ with
    | none =>
        rw [selectorPatch_of_none bound] at replaces
        exact isRead.exists_isBound_of_none
          (fun _ restReplaces => inductionHypothesis _ shorter readsRest restReplaces rfl) replaces
    | some literal =>
        rw [selectorPatch_of_some bound] at replaces
        exact isRead.exists_isBound_of_some bound number
          (fun _ restReplaces => inductionHypothesis _ shorter readsRest restReplaces rfl) replaces

/-! ## The segments behind the pass -/

/-- The segments of a string and the semicolon and the interpolation behind it. -/
theorem exists_segmentsOfCells_string
    (quote : Char)
    (text : Text)
    (number : UInt64)
    (rest : List Cell) :
    ∃ further behind,
      segmentsOfCells (opened .string (quote :: (text ++ [quote])) ++
          (semicolonCell text :: .ofCode '\n' :: interpolationCells number ++ rest)) =
        ⟨.string, quote :: (text ++ quote :: if endsEscaped text then [';'] else [])⟩ ::
          ⟨.code, (if endsEscaped text then [] else [';']) ++
            '\n' :: '@' :: '{' :: (variableName number ++ '}' :: ' ' :: further)⟩ :: behind := by
  have code : .ofCode '\n' :: interpolationCells number =
      inside .code ('\n' :: '@' :: '{' :: (variableName number ++ ['}', ' '])) := by
    simp [interpolationCells, inside, Cell.ofCode]
  rw [semicolonCell, escapesNext_false_eq, List.cons_append, code]
  cases endsEscaped text with
  | true =>
      obtain ⟨further, behind, segments⟩ := exists_segmentsOfCells_opened_append_inside
        (show LexicalClass.code ≠ .string by decide)
        (List.cons_ne_nil quote (text ++ [quote, ';']))
        (List.cons_ne_nil '\n' ('@' :: '{' :: (variableName number ++ ['}', ' ']))) rest
      refine ⟨further, behind, ?_⟩
      have joined : opened .string (quote :: (text ++ [quote])) ++ [⟨';', .string, false⟩] =
          opened .string (quote :: (text ++ [quote, ';'])) := by
        simp [opened, inside]
      rw [← joined, List.append_assoc] at segments
      simpa using segments
  | false =>
      obtain ⟨further, behind, segments⟩ := exists_segmentsOfCells_opened_append_inside
        (show LexicalClass.code ≠ .string by decide)
        (List.cons_ne_nil quote (text ++ [quote]))
        (List.cons_ne_nil ';' ('\n' :: '@' :: '{' :: (variableName number ++ ['}', ' ']))) rest
      refine ⟨further, behind, ?_⟩
      simpa [inside] using segments

/--
In the text behind the pass the string that a selector is bound to is a
segment.  It ends at its quote and the semicolon behind it is code, or the
quote is escaped and the string ends with the line.
-/
theorem IsBound.exists_segments
    {source : Text}
    {front back : Patch}
    {old new : Text}
    {number : UInt64}
    {quote : Char}
    {outside : Nat}
    (isBound : IsBound (cells source) 0 front old new number quote outside)
    (after_eq : bindComplexSelectors source = front.after ++ (new ++ back.after)) :
    ∃ before start further behind,
      segments (bindComplexSelectors source) =
        before ++ ⟨.code, start ++ '@' :: (variableName number ++ [':', ' ', '~'])⟩ ::
          ⟨.string, quote :: (old.collapse ++ quote ::
            if endsEscaped old.collapse then [';'] else [])⟩ ::
          ⟨.code, (if endsEscaped old.collapse then [] else [';']) ++
            '\n' :: '@' :: '{' :: (variableName number ++ '}' :: ' ' :: further)⟩ :: behind ∧
      before.flatMap Segment.text ++ start = front.after := by
  obtain ⟨newCells, behindNew⟩ := read_boundSelector isBound.isQuote isBound.noQuote
    isBound.oneLine number outside false back.after.head?
  rw [← isBound.new_eq] at newCells behindNew
  have begins : (new ++ back.after).head? = some '@' := by
    rw [isBound.new_eq]
    rfl
  have declaration : declarationCells number ++ [⟨'~', .code, false⟩] =
      inside .code ('@' :: (variableName number ++ [':', ' ', '~'])) := by
    simp [declarationCells, inside, Cell.ofCode]
  have whole : cells (bindComplexSelectors source) =
      (Mode.initial.cellsBefore front.after (some '@') ++
        inside .code ('@' :: (variableName number ++ [':', ' ', '~']))) ++
      (opened .string (quote :: (old.collapse ++ [quote])) ++
        (semicolonCell old.collapse :: .ofCode '\n' :: interpolationCells number ++
          (Mode.code 0 false).cells back.after)) := by
    rw [after_eq, cells, Mode.cells_append, begins, Mode.initial, isBound.readsFront,
      Mode.cells_append, newCells, behindNew, ← declaration]
    simp
  obtain ⟨further, behind, stringSegments⟩ := exists_segmentsOfCells_string quote old.collapse
    number ((Mode.code 0 false).cells back.after)
  obtain ⟨before, start, frontSegments, sameText⟩ := exists_segmentsOfCells_append_inside
    (List.cons_ne_nil '@' (variableName number ++ [':', ' ', '~']))
    (Mode.initial.cellsBefore front.after (some '@'))
  rw [Mode.chars_cellsBefore] at sameText
  refine ⟨before, start, further, behind, ?_, sameText⟩
  rw [segments, whole, segmentsOfCells_append, frontSegments, stringSegments, List.append_assoc,
    List.singleton_append]
  intro last isLast first isFirst
  obtain rfl := Option.some.inj isFirst
  simp [Cell.continues]

/-- The stretch that is bound is its own text, and its strings begin with their quotes. -/
theorem IsBound.collapse_eq_iff
    {cells : List Cell}
    {depth : Nat}
    {front : Patch}
    {old new : Text}
    {number : UInt64}
    {quote : Char}
    {outside : Nat}
    (isBound : IsBound cells depth front old new number quote outside) :
    chars (stretchCells cells front old) = old ∧
      (old.collapse = collapseOutsideStrings (stretchCells cells front old) ↔
        HasPlainStrings (stretchCells cells front old)) := by
  have first : ∀ cell ∈ ((Mode.code outside false).cellsBefore old (some '{')).head?,
      cell.kind = .string → isWhiteSpace cell.char = false := by
    intro cell isFirst inString
    cases old with
    | nil => contradiction
    | cons char rest =>
        obtain rfl := Option.some.inj isFirst
        rw [Mode.read_char]
        have isOutside : IsOutsideString (.code outside false) := trivial
        exact isWhiteSpace_of_isOutsideString isOutside inString
  have same := @Source.squeeze_eq_iff _ false
    (beginStringsDark_cellsBefore (.code outside false) old (some '{')) fun _ => first
  rw [(squeeze_isBlankCell _).1, Mode.chars_cellsBefore] at same
  rw [isBound.readsOld, Mode.chars_cellsBefore]
  exact ⟨rfl, same⟩

/--
A selector that is bound to a variable is put into one string, with its white
space collapsed.  The string ends at its quote, with the semicolon as code
behind it, exactly if the collapsed selector does not end in an odd number of
backslashes.  Only white space outside of strings is collapsed exactly if the
white space in the strings of the selector consists of single spaces; collapsed
that way, the selector has its strings as they are.
-/
theorem segments_bindComplexSelectors
    {source : Text}
    {front back : Patch}
    {old new : Text}
    (replaces : complexSelectorPatch source = front ++ .replace old new :: back) :
    ∃ number quote, (quote = '"' ∨ quote = '\'') ∧ quote ∉ old.collapse ∧
      new = boundSelector number ('~' :: quote :: (old.collapse ++ [quote])) ∧
      (∃ before start further behind,
        segments (bindComplexSelectors source) =
          before ++ ⟨.code, start ++ '@' :: (variableName number ++ [':', ' ', '~'])⟩ ::
            ⟨.string, quote :: (old.collapse ++ quote ::
              if endsEscaped old.collapse then [';'] else [])⟩ ::
            ⟨.code, (if endsEscaped old.collapse then [] else [';']) ++
              '\n' :: '@' :: '{' :: (variableName number ++ '}' :: ' ' :: further)⟩ :: behind ∧
        before.flatMap Segment.text ++ start = front.after) ∧
      chars (stretchCells (cells source) front old) = old ∧
      (old.collapse = collapseOutsideStrings (stretchCells (cells source) front old) ↔
        HasPlainStrings (stretchCells (cells source) front old)) ∧
      ∀ before run behind, stretchCells (cells source) front old = before ++ (run ++ behind) →
        (∀ cell ∈ run, cell.kind = .string) →
          chars run <:+: collapseOutsideStrings (stretchCells (cells source) front old) := by
  have reads : (Mode.code 0 false).cells (chars (cells source)) = cells source :=
    congrArg Mode.initial.cells (chars_cells source)
  obtain ⟨number, quote, outside, isBound⟩ := exists_isBound_of_selectorPatch_eq reads replaces
  have after_eq : bindComplexSelectors source = front.after ++ (new ++ back.after) := by
    rw [bindComplexSelectors, replaces, Patch.after_append]
    rfl
  obtain ⟨sameText, collapses⟩ := isBound.collapse_eq_iff
  refine ⟨number, quote, isBound.isQuote, isBound.noQuote, isBound.new_eq,
    isBound.exists_segments after_eq, sameText, collapses,
    fun before run behind split inString => ?_⟩
  have noGap : ∀ cell ∈ run, isOuterBlank cell = false := by
    intro cell member
    simp [isOuterBlank, inString cell member]
  rw [split]
  exact isInfix_squeeze noGap false before behind

/-- A line break between two selectors is collapsed, and the space in a string stays. -/
theorem segments_bindComplexSelectors_attribute :
    complexSelectorPatch "a:is([t=\"x y\"],\n b:not(c)) \x7b" =
        [.keep [], .replace "a:is([t=\"x y\"],\n b:not(c)) " (boundSelector 1
          "~'a:is([t=\"x y\"], b:not(c))'"), .keep ['{']] ∧
      (∃ before further behind,
        segments (bindComplexSelectors "a:is([t=\"x y\"],\n b:not(c)) \x7b") =
          before ++ ⟨.string, "'a:is([t=\"x y\"], b:not(c))'"⟩ ::
            ⟨.code, ';' :: '\n' :: further⟩ :: behind) ∧
      HasPlainStrings (stretchCells (cells "a:is([t=\"x y\"],\n b:not(c)) \x7b") [.keep []]
        "a:is([t=\"x y\"],\n b:not(c)) ") := by
  have replaces : complexSelectorPatch "a:is([t=\"x y\"],\n b:not(c)) \x7b" =
      [.keep []] ++ .replace "a:is([t=\"x y\"],\n b:not(c)) " (boundSelector 1
        "~'a:is([t=\"x y\"], b:not(c))'") :: [.keep ['{']] := by
    decide +kernel
  obtain ⟨number, quote, isQuote, noQuote, -, ⟨before, start, further, behind, split, -⟩, -,
    plain, -⟩ := segments_bindComplexSelectors replaces
  have collapsed : Text.collapse "a:is([t=\"x y\"],\n b:not(c)) " =
      "a:is([t=\"x y\"], b:not(c))" := by
    decide +kernel
  have notEscaped : endsEscaped "a:is([t=\"x y\"], b:not(c))" = false := by decide +kernel
  rw [collapsed] at noQuote split
  obtain rfl : quote = '\'' := isQuote.resolve_left fun isDouble =>
    noQuote (by rw [isDouble]; decide)
  rw [notEscaped] at split
  rw [List.append_cons] at split
  exact ⟨replaces, ⟨_, _, behind, split⟩, plain.1 (by decide +kernel)⟩

/--
Two spaces in a string become one, and a backslash at the end of a selector
escapes the quote, so that the semicolon falls into the string.
-/
theorem segments_bindComplexSelectors_two_spaces_and_backslash :
    bindComplexSelectors "a:is([t=\"x  y\"],b:not(c))\x7b" =
        "@tw-selector-1: ~'a:is([t=\"x y\"],b:not(c))';\n@\x7btw-selector-1\x7d \x7b" ∧
      collapseOutsideStrings (stretchCells (cells "a:is([t=\"x  y\"],b:not(c))\x7b") [.keep []]
        "a:is([t=\"x  y\"],b:not(c))") = "a:is([t=\"x  y\"],b:not(c))" ∧
      segments (bindComplexSelectors "a:is(b,c:not(d))\\\x7b") =
        [⟨.code, "@tw-selector-1: ~"⟩, ⟨.string, "\"a:is(b,c:not(d))\\\";"⟩,
          ⟨.code, "\n@\x7btw-selector-1\x7d \x7b"⟩] :=
  ⟨by decide +kernel, by decide +kernel, by decide +kernel⟩

end Lowering
end LessTheme
