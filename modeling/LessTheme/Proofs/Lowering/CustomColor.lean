import LessTheme.Proofs.Lowering.Growth
import LessTheme.Proofs.Source.CallParts
import LessTheme.Proofs.Source.Literal
import LessTheme.Proofs.Text.Pieces

/-!
# Colours of custom properties as literal strings

Colours over custom properties are put into literal strings, and the rest of a
text is kept.  The kept text is read as before if every literal string holds
its call to the end and the call leaves as many parentheses open as it finds.
Then no colour over a custom property is left, so there is nothing to do a
second time.
-/

namespace LessTheme
namespace Lowering

open Source

/-- The cells behind a patch that makes calls literal, given the cells before it. -/
def literalCells : Patch → List Cell → List Cell
  | [], _ => []
  | .keep text :: rest, cells =>
      cells.take text.length ++ literalCells rest (cells.drop text.length)
  | .replace old new :: rest, cells =>
      ⟨'~', .code, false⟩ :: (opened .string new.tail ++ literalCells rest (cells.drop old.length))

/--
Whether no line feed ends the literal string of a replaced call, and a brace
stands in a replaced call only where no parentheses are open around it.
-/
def keepsReading : Nat → Patch → List Cell → Bool
  | _, [], _ => true
  | depth, .keep text :: rest, cells =>
      keepsReading ((cells.take text.length).foldl openBehind depth) rest (cells.drop text.length)
  | depth, .replace old _ :: rest, cells =>
      staysOpen false old &&
        (depth == 0 ||
          (cells.take old.length).all fun cell => !cell.isCode '{' && !cell.isCode '}') &&
        keepsReading ((cells.take old.length).foldl openBehind depth) rest (cells.drop old.length)

/-! ## The course of the rule -/

/-- What is done to some cells, given the cell before them. -/
inductive Rewrites : Option Cell → List Cell → Patch → Prop
  | nil (before : Option Cell) : Rewrites before [] []
  | keep {before : Option Cell} {cell : Cell} {rest : List Cell} {patch : Patch}
      (noLiteral : literalColor? before (cell :: rest) = none)
      (further : Rewrites (some cell) rest patch) :
      Rewrites before (cell :: rest) (.keep [cell.char] :: patch)
  | wrap {before : Option Cell} {parts : CallParts} {quote : Char} {rest : List Cell}
      {patch : Patch}
      (mayStart : mayStartCall before = true)
      (isColor : isCustomColor (parts.call 0) = true)
      (isQuote : quote = '"' ∨ quote = '\'')
      (noQuote : quote ∉ chars parts.cells)
      (further : Rewrites (some ⟨')', .code, false⟩) rest patch) :
      Rewrites before (parts.cells ++ rest)
        (.replace (chars parts.cells) ('~' :: quote :: (chars parts.cells ++ [quote])) :: patch)

theorem rewrites_patchFrom
    (before : Option Cell)
    (cells : List Cell) :
    Rewrites before cells (customColorRule.patchFrom before 0 cells) := by
  induction length : cells.length using Nat.strong_induction_on generalizing before cells with
  | _ count inductionHypothesis =>
  subst length
  cases cells with
  | nil => exact .nil before
  | cons cell rest =>
      unfold Rule.patchFrom
      cases made : customColorRule.replacement? before (cell :: rest) with
      | none => exact .keep made (inductionHypothesis _ (Nat.lt_succ_self _) _ rest rfl)
      | some replacement =>
          obtain ⟨call, literal, found, isColor, written, rfl⟩ :=
            exists_call_of_literalColor?_eq_some made
          obtain ⟨mayStart, parts, behind, whole, rfl⟩ :=
            exists_callParts_of_callAt?_eq_some found
          obtain ⟨first, others, isCall, -⟩ := parts.exists_cells_eq_cons
          obtain ⟨rfl, rfl⟩ : cell = first ∧ rest = others ++ behind := by
            simpa [isCall] using whole
          rw [← parts.chars_cells, isCall] at written
          obtain ⟨quote, isQuote, noQuote, rfl⟩ := Text.exists_quote_of_literal?_eq_some written
          have length : (parts.call 0).text.length - 1 = others.length := by
            rw [← parts.chars_cells, length_chars, isCall]
            rfl
          have shorter : behind.length < (cell :: (others ++ behind)).length := by
            rw [List.length_cons, List.length_append]
            omega
          have further := inductionHypothesis behind.length shorter
            (some ⟨')', .code, false⟩) behind rfl
          have wraps := Rewrites.wrap mayStart isColor isQuote (isCall ▸ noQuote) further
          rw [isCall, List.cons_append] at wraps
          dsimp only
          rw [length, List.take_left, Rule.patchFrom_eq_patchFrom_drop, List.drop_left]
          exact wraps

namespace Rewrites

variable {before : Option Cell} {cells : List Cell} {patch : Patch}

/-- Every replaced stretch is a call of the text. -/
theorem exists_call
    (rewrites : Rewrites before cells patch)
    {front back : Patch}
    {old new : Text}
    (split : patch = front ++ .replace old new :: back)
    {previous : Option Cell}
    (mayStart : mayStartCall previous = mayStartCall before)
    (start : Nat) :
    ∃ call ∈ callsFrom start previous cells,
      call.start = start + (Patch.before front).length ∧ call.text = old ∧ isCustomColor call = true ∧
        ∃ quote, (quote = '"' ∨ quote = '\'') ∧ quote ∉ old ∧
          new = '~' :: quote :: (old ++ [quote]) := by
  induction rewrites generalizing front previous start with
  | nil => simp at split
  | @keep before cell rest patch noLiteral further inductionHypothesis =>
      cases front with
      | nil => simp at split
      | cons piece others =>
          obtain ⟨rfl, restSplit⟩ := List.cons.inj split
          have mayFollow : mayStartCall (some cell) = mayStartCall (some cell) := rfl
          obtain ⟨call, member, isStart, facts⟩ :=
            inductionHypothesis restSplit mayFollow (start + 1)
          refine ⟨call, List.mem_append_right _ member, ?_, facts⟩
          rw [isStart, Patch.before, List.length_append, List.length_singleton, Nat.add_assoc]
  | @wrap before parts quote rest patch starts isColor isQuote noQuote further
      inductionHypothesis =>
      cases front with
      | nil =>
          obtain ⟨here, -⟩ := List.cons.inj split
          obtain ⟨rfl, rfl⟩ := Piece.replace.inj here
          refine ⟨parts.call start, ?_, rfl, (parts.chars_cells start).symm, isColor, quote,
            isQuote, noQuote, rfl⟩
          obtain ⟨first, others, isCall, -⟩ := parts.exists_cells_eq_cons
          have found := parts.callAt?_append start previous rest
          rw [if_pos (mayStart.trans starts)] at found
          rw [isCall, List.cons_append] at found ⊢
          exact List.mem_append_left _ (Option.mem_toList.2 found)
      | cons piece others =>
          obtain ⟨rfl, restSplit⟩ := List.cons.inj split
          obtain ⟨front, isCall⟩ := parts.exists_cells_eq_concat
          have isLast : parts.cells.getLast?.or previous = some parts.closing := by
            rw [isCall, List.getLast?_concat, Option.some_or]
          have mayFollow : mayStartCall (some parts.closing) =
              mayStartCall (some ⟨')', .code, false⟩) := by
            rw [Cell.eq_of_isCode parts.closes]
            rfl
          obtain ⟨call, member, isStart, facts⟩ :=
            inductionHypothesis restSplit mayFollow (start + parts.cells.length)
          refine ⟨call, ?_, ?_, facts⟩
          · rw [callsFrom_append, isLast]
            exact List.mem_append_right _ member
          · rw [isStart, Patch.before, List.length_append, length_chars, Nat.add_assoc]

end Rewrites

/-! ## Reading the result -/

/-- A replaced call stays in its string and leaves as many parentheses open as it finds. -/
theorem wrap_of_keepsReading
    {depth : Nat}
    {parts : CallParts}
    {new : Text}
    {patch : Patch}
    {rest : List Cell}
    (keeps : keepsReading depth (.replace (chars parts.cells) new :: patch)
      (parts.cells ++ rest) = true) :
    staysOpen false (chars parts.cells) = true ∧ parts.cells.foldl openBehind depth = depth ∧
      keepsReading depth patch rest = true := by
  rw [keepsReading, length_chars, List.take_left, List.drop_left, Bool.and_eq_true,
    Bool.and_eq_true] at keeps
  obtain ⟨⟨whole, keepsDepth⟩, restKeeps⟩ := keeps
  have sameDepth : parts.cells.foldl openBehind depth = depth := by
    apply parts.foldl_openBehind
    simpa using keepsDepth
  rw [sameDepth] at restKeeps
  exact ⟨whole, sameDepth, restKeeps⟩

/-- A character is read the same in front of characters that begin no comment behind a slash. -/
theorem read_congr_of_joins
    (mode : Mode)
    (char : Char)
    {next other : Option Char}
    (same : next = other ∨ ∀ text, Mode.Joins text next ∧ Mode.Joins text other) :
    mode.read char next = mode.read char other := by
  obtain rfl | joins := same
  · rfl
  · obtain ⟨nextJoins, otherJoins⟩ := joins [char]
    rw [mode.read_of_joins nextJoins, mode.read_of_joins otherJoins]

/-- Behind a call that is read from code on, code is read again. -/
theorem after_chars_cells
    {parts : CallParts}
    {mode : Mode}
    {next : Option Char}
    (reads : mode.cellsBefore (chars parts.cells) next = parts.cells) :
    mode.isCode = true ∧
      mode.after (chars parts.cells) next =
        .code (parts.cells.foldl openBehind mode.depth) false := by
  constructor
  · obtain ⟨first, others, isCall, named⟩ := parts.exists_cells_eq_cons
    rw [isCall, chars_cons, Mode.cellsBefore] at reads
    have isFirst := (List.cons.inj reads).1
    rw [Cell.isCodeName, Bool.and_eq_true, beq_iff_eq] at named
    obtain isCode | endsLine := (Mode.read_of_kind_eq_code (isFirst ▸ named.1)).1
    · exact isCode
    · rw [endsLine] at named
      exact absurd named.2 (by decide)
  · obtain ⟨front, isCall⟩ := parts.exists_cells_eq_concat
    rw [isCall] at reads ⊢
    exact Mode.after_concat_of_isCode reads parts.closes (by decide)

namespace Rewrites

variable {before : Option Cell} {cells : List Cell} {patch : Patch}

/-- The text behind the patch is read like the one before, also where a call stood in front. -/
theorem head?_or_joins (rewrites : Rewrites before cells patch) :
    (chars (literalCells patch cells)).head? = (chars cells).head? ∨
      ∀ text, Mode.Joins text (chars (literalCells patch cells)).head? ∧
        Mode.Joins text (chars cells).head? := by
  cases rewrites with
  | nil | keep => exact Or.inl rfl
  | @wrap _ parts =>
      right
      obtain ⟨first, others, isCall, named⟩ := parts.exists_cells_eq_cons
      rw [Cell.isCodeName, Bool.and_eq_true] at named
      refine fun text => ⟨Mode.joins_of_ne (by decide) (by decide) text, ?_⟩
      rw [isCall]
      apply Mode.joins_of_ne
      · intro isSlash
        rw [isSlash] at named
        exact absurd named.2 (by decide)
      · intro isStar
        rw [isStar] at named
        exact absurd named.2 (by decide)

/-- The cells behind the patch hold the text behind it. -/
theorem chars_literalCells (rewrites : Rewrites before cells patch) :
    chars (literalCells patch cells) = patch.after := by
  induction rewrites with
  | nil => rfl
  | keep _ _ inductionHypothesis => exact congrArg (_ :: ·) inductionHypothesis
  | wrap _ _ _ _ _ inductionHypothesis =>
      rw [literalCells, length_chars, List.drop_left, chars_cons, chars_append, chars_opened,
        inductionHypothesis]
      rfl

/-- The cells behind the patch are those of their own text. -/
theorem cells_literalCells
    (rewrites : Rewrites before cells patch)
    {mode : Mode}
    (reads : mode.cells (chars cells) = cells)
    (keeps : keepsReading mode.depth patch cells = true) :
    mode.cells (chars (literalCells patch cells)) = literalCells patch cells := by
  induction rewrites generalizing mode with
  | nil => rfl
  | @keep before cell rest patch noLiteral further inductionHypothesis =>
      rw [chars_cons, Mode.cells] at reads
      obtain ⟨isCell, restReads⟩ := List.cons.inj reads
      have depth := mode.depth_read_eq_openBehind cell.char (chars rest).head?
      rw [isCell] at depth
      have restKeeps : keepsReading (openBehind mode.depth cell) patch rest = true := keeps
      rw [← depth] at restKeeps
      have written := inductionHypothesis restReads restKeeps
      change mode.cells (cell.char :: chars (literalCells patch rest)) =
        cell :: literalCells patch rest
      rw [Mode.cells, read_congr_of_joins mode cell.char further.head?_or_joins, isCell, written]
  | @wrap before parts quote rest patch mayStart isColor isQuote noQuote further
      inductionHypothesis =>
      obtain ⟨whole, sameDepth, restKeeps⟩ := wrap_of_keepsReading keeps
      rw [chars_append] at reads
      obtain ⟨callReads, restReads⟩ := Mode.parts_of_cells_eq_append reads
      obtain ⟨isCode, behind⟩ := after_chars_cells callReads
      obtain ⟨afterColon, isMode⟩ := Mode.exists_eq_code_of_isCode isCode
      rw [behind, sameDepth] at restReads
      have written := inductionHypothesis restReads restKeeps
      have literal : literalCells
          (.replace (chars parts.cells) ('~' :: quote :: (chars parts.cells ++ [quote])) :: patch)
          (parts.cells ++ rest) =
            (⟨'~', .code, false⟩ :: opened .string (quote :: (chars parts.cells ++ [quote]))) ++
              literalCells patch rest := by
        rw [literalCells, length_chars, List.drop_left]
        rfl
      obtain ⟨literalReads, isBehind⟩ := Mode.read_literal isQuote noQuote whole mode.depth
        afterColon (chars (literalCells patch rest)).head?
      have closes : (Mode.code mode.depth afterColon).after
          ('~' :: quote :: (chars parts.cells ++ [quote]))
          (chars (literalCells patch rest)).head? = .code mode.depth false := by
        obtain ⟨front, isCall⟩ := parts.exists_cells_eq_concat
        have notEscaped : escapesNext false (chars parts.cells) = false := by
          rw [isCall, chars_append, Cell.eq_of_isCode parts.closes]
          exact (escapesNext_append_singleton _ _ _).trans (Bool.and_false _)
        rw [isBehind, notEscaped]
        rfl
      rw [literal, chars_append, chars_cons, chars_opened, Mode.cells_append, isMode,
        literalReads, closes, written]

/-- Putting calls into strings makes no line comment. -/
theorem kind_ne_lineComment
    (rewrites : Rewrites before cells patch)
    (noComment : ∀ cell ∈ cells, cell.kind ≠ .lineComment) :
    ∀ cell ∈ literalCells patch cells, cell.kind ≠ .lineComment := by
  induction rewrites with
  | nil => exact noComment
  | @keep before cell rest patch noLiteral further inductionHypothesis =>
      obtain ⟨here, others⟩ := List.forall_mem_cons.1 noComment
      exact List.forall_mem_cons.2 ⟨here, inductionHypothesis others⟩
  | wrap mayStart isColor isQuote noQuote further inductionHypothesis =>
      rw [literalCells, length_chars, List.drop_left, List.forall_mem_cons, List.forall_mem_append]
      refine ⟨by decide, fun cell inString => ?_, inductionHypothesis ?_⟩
      · simp [kind_of_mem_opened inString]
      · exact (List.forall_mem_append.1 noComment).2

end Rewrites

/-! ## What is left -/

/-- Some cells, given the cell before them, and the same cells with calls put into literal strings. -/
inductive Wrapped : Option Cell → List Cell → List Cell → Prop
  | nil (before : Option Cell) : Wrapped before [] []
  | keep {before : Option Cell} {cell : Cell} {rest written : List Cell}
      (further : Wrapped (some cell) rest written) :
      Wrapped before (cell :: rest) (cell :: written)
  | wrap {before : Option Cell} {parts : CallParts} {quote : Char} {rest written : List Cell}
      (mayStart : mayStartCall before = true)
      (isQuote : quote = '"' ∨ quote = '\'')
      (further : Wrapped (some ⟨')', .code, false⟩) rest written) :
      Wrapped before (parts.cells ++ rest)
        (⟨'~', .code, false⟩ :: (opened .string (quote :: (chars parts.cells ++ [quote])) ++ written))

theorem Rewrites.wrapped
    {before : Option Cell}
    {cells : List Cell}
    {patch : Patch}
    (rewrites : Rewrites before cells patch) :
    Wrapped before cells (literalCells patch cells) := by
  induction rewrites with
  | nil before => exact .nil before
  | keep _ _ inductionHypothesis => exact .keep inductionHypothesis
  | wrap mayStart _ isQuote _ _ inductionHypothesis =>
      rw [literalCells, length_chars, List.drop_left]
      exact .wrap mayStart isQuote inductionHypothesis

namespace Wrapped

variable {before : Option Cell} {cells written : List Cell}

/-- Behind a character of a name no call is put into a string, so the name goes on alike. -/
theorem takeWhile_and_dropWhile
    (wrapped : Wrapped before cells written)
    (goesOn : mayStartCall before = false) :
    written.takeWhile Cell.isCodeName = cells.takeWhile Cell.isCodeName ∧
      ∃ last, mayStartCall last = false ∧
        Wrapped last (cells.dropWhile Cell.isCodeName) (written.dropWhile Cell.isCodeName) := by
  induction wrapped with
  | nil before => exact ⟨rfl, before, goesOn, .nil before⟩
  | @keep before cell rest written further inductionHypothesis =>
      cases named : cell.isCodeName with
      | true =>
          obtain ⟨sameName, last, stillName, behind⟩ :=
            inductionHypothesis (by simp [mayStartCall, named])
          simp only [List.takeWhile_cons, List.dropWhile_cons, named, if_true, sameName]
          exact ⟨trivial, last, stillName, behind⟩
      | false =>
          simp only [List.takeWhile_cons, List.dropWhile_cons, named, Bool.false_eq_true, if_false]
          exact ⟨trivial, before, goesOn, .keep further⟩
  | wrap mayStart => exact absurd mayStart (by simp [goesOn])

/-- What is enclosed among the cells with literal strings is enclosed without them. -/
theorem exists_enclosed?_eq_some
    (wrapped : Wrapped before cells written)
    {depth : Nat}
    {inner : List Cell}
    (enclosed : enclosed? '(' ')' depth written = some inner) :
    ∃ original, enclosed? '(' ')' depth cells = some original ∧ Wrapped before original inner := by
  induction wrapped generalizing depth inner with
  | nil => contradiction
  | @keep before cell rest written further inductionHypothesis =>
      have later : ∀ {depth}, (enclosed? '(' ')' depth written).map (cell :: ·) = some inner →
          ∃ original, (enclosed? '(' ')' depth rest).map (cell :: ·) = some original ∧
            Wrapped before original inner := by
        intro depth found
        obtain ⟨tail, tailEnclosed, rfl⟩ := Option.map_eq_some_iff.1 found
        obtain ⟨original, isEnclosed, restWrapped⟩ := inductionHypothesis tailEnclosed
        exact ⟨cell :: original, by rw [isEnclosed, Option.map_some], .keep restWrapped⟩
      cases opens : cell.isCode '(' with
      | true =>
          rw [enclosed?_cons_of_opens opens] at enclosed ⊢
          exact later enclosed
      | false =>
          cases closes : cell.isCode ')' with
          | true =>
              cases depth with
              | zero =>
                  simp only [enclosed?, opens, closes, if_true, Bool.false_eq_true, if_false]
                    at enclosed ⊢
                  obtain rfl := Option.some.inj enclosed
                  exact ⟨[], rfl, .nil before⟩
              | succ outer =>
                  rw [enclosed?_cons_of_closes closes] at enclosed ⊢
                  exact later enclosed
          | false =>
              rw [Nesting.enclosed?_cons_of_isCode_eq_false opens closes] at enclosed ⊢
              exact later enclosed
  | @wrap before parts quote rest written mayStart isQuote further inductionHypothesis =>
      have string : Closes 0
          (⟨'~', .code, false⟩ :: opened .string (quote :: (chars parts.cells ++ [quote]))) := by
        refine .pass rfl rfl (closes_of_no_parenthesis fun cell member => ?_)
        simp [Cell.isCode, kind_of_mem_opened member]
      have behind := string.enclosed?_append depth written
      rw [Nat.zero_add, List.cons_append, enclosed] at behind
      obtain ⟨tail, tailEnclosed, rfl⟩ := Option.map_eq_some_iff.1 behind.symm
      obtain ⟨original, isEnclosed, restWrapped⟩ := inductionHypothesis tailEnclosed
      refine ⟨parts.cells ++ original, ?_, .wrap mayStart isQuote restWrapped⟩
      rw [parts.enclosed?_append, isEnclosed, Option.map_some]

theorem chars_subset (wrapped : Wrapped before cells written) : chars cells ⊆ chars written := by
  induction wrapped with
  | nil => exact List.Subset.refl _
  | keep _ inductionHypothesis => exact List.cons_subset_cons _ inductionHypothesis
  | @wrap before parts quote rest written mayStart isQuote further inductionHypothesis =>
      rw [chars_append, chars_cons, chars_append, chars_opened]
      intro char member
      simp only [List.mem_cons, List.mem_append] at member ⊢
      obtain inCall | inRest := member
      · exact .inr (.inl (.inr (.inl inCall)))
      · exact .inr (.inr (inductionHypothesis inRest))

section Pattern

variable {pattern : Text}

theorem isPrefix
    (wrapped : Wrapped before cells written)
    (noTilde : '~' ∉ pattern)
    (begins : pattern <+: chars written) :
    pattern <+: chars cells := by
  induction wrapped generalizing pattern with
  | nil => exact begins
  | keep _ inductionHypothesis =>
      cases pattern with
      | nil => exact List.nil_prefix
      | cons char others =>
          rw [chars_cons, List.cons_prefix_cons] at begins ⊢
          rw [List.mem_cons, not_or] at noTilde
          exact ⟨begins.1, inductionHypothesis noTilde.2 begins.2⟩
  | wrap =>
      cases pattern with
      | nil => exact List.nil_prefix
      | cons char others =>
          rw [chars_cons, List.cons_prefix_cons] at begins
          exact absurd (begins.1 ▸ List.mem_cons_self) noTilde

/-- A pattern without tildes and quotes stood there before. -/
theorem isInfix
    (wrapped : Wrapped before cells written)
    (noMark : ∀ mark, mark = '~' ∨ mark = '"' ∨ mark = '\'' → mark ∉ pattern)
    (isInfix : pattern <:+: chars written) :
    pattern <:+: chars cells := by
  induction wrapped with
  | nil => exact isInfix
  | @keep before cell rest written further inductionHypothesis =>
      have kept : Wrapped before (cell :: rest) (cell :: written) := .keep further
      obtain begins | later := List.infix_cons_iff.1 isInfix
      · exact (kept.isPrefix (noMark '~' (.inl rfl)) begins).isInfix
      · exact (inductionHypothesis later).trans (List.suffix_cons _ _).isInfix
  | @wrap before parts quote rest written mayStart isQuote further inductionHypothesis =>
      have noQuote : quote ∉ pattern := noMark quote (.inr isQuote)
      rw [chars_cons, chars_append, chars_opened] at isInfix
      have split : '~' :: (quote :: (chars parts.cells ++ [quote]) ++ chars written) =
          ['~'] ++ quote :: (chars parts.cells ++ quote :: chars written) := by simp
      rw [split] at isInfix
      rw [chars_append]
      obtain inTilde | behind := Text.isInfix_or_of_isInfix_append_cons noQuote isInfix
      · have onlyTilde : pattern <:+: [] ++ '~' :: [] := inTilde
        obtain none | none :=
          Text.isInfix_or_of_isInfix_append_cons (noMark '~' (.inl rfl)) onlyTilde
        all_goals
          rw [List.infix_nil.1 none]
          exact List.nil_infix
      · obtain inCall | inRest := Text.isInfix_or_of_isInfix_append_cons noQuote behind
        · exact inCall.trans (List.prefix_append _ _).isInfix
        · exact (inductionHypothesis inRest).trans (List.suffix_append _ _).isInfix

end Pattern

/-- A call among the cells with literal strings is one without them. -/
theorem exists_callAt?_eq_some
    {cell : Cell}
    (wrapped : Wrapped (some cell) cells written)
    {previous : Option Cell}
    (mayStart : mayStartCall previous = mayStartCall before)
    {start : Nat}
    {call : Call}
    (found : callAt? start previous (cell :: written) = some call) :
    ∃ last original inner,
      callAt? 0 before (cell :: cells) = some ⟨0, call.name, chars original⟩ ∧
        Wrapped last original inner ∧ call.arguments = chars inner := by
  obtain ⟨begins, named, -⟩ := begins_of_callAt?_eq_some found
  obtain ⟨sameName, last, goesOn, behind⟩ :=
    wrapped.takeWhile_and_dropWhile (by simp [mayStartCall, named])
  unfold callAt? at found ⊢
  simp only [List.takeWhile_cons, List.dropWhile_cons, named, if_true, sameName, begins,
    ← mayStart, List.isEmpty_cons, Bool.not_false, Bool.and_self] at found ⊢
  obtain ⟨inner, delimited, rfl⟩ := Option.map_eq_some_iff.1 found
  generalize cells.dropWhile Cell.isCodeName = originalBehind at behind ⊢
  generalize written.dropWhile Cell.isCodeName = writtenBehind at behind delimited
  cases behind with
  | nil => contradiction
  | @keep _ opening rest written further =>
      rw [delimited?, Option.ite_none_right_eq_some] at delimited
      obtain ⟨original, isEnclosed, innerWrapped⟩ := further.exists_enclosed?_eq_some delimited.2
      refine ⟨some opening, original, inner, ?_, innerWrapped, rfl⟩
      rw [delimited?, if_pos delimited.1, isEnclosed, Option.map_some]
  | wrap starts => exact absurd starts (by simp [goesOn])

/-- A call that is not made literal is not made literal among literal strings either. -/
theorem literal?_eq_none
    {cell : Cell}
    (wrapped : Wrapped (some cell) cells written)
    (noLiteral : literalColor? before (cell :: cells) = none)
    {previous : Option Cell}
    (mayStart : mayStartCall previous = mayStartCall before)
    {start : Nat}
    {call : Call}
    (found : callAt? start previous (cell :: written) = some call)
    (isColor : isCustomColor call = true) :
    call.text.literal? = none := by
  obtain ⟨last, original, inner, foundBefore, innerWrapped, arguments⟩ :=
    wrapped.exists_callAt?_eq_some mayStart found
  rw [isCustomColor, Bool.and_eq_true, Text.includes_iff_isInfix, arguments] at isColor
  have noMark : ∀ mark, mark = '~' ∨ mark = '"' ∨ mark = '\'' → mark ∉ ("var(--" : Text) := by
    rintro mark (rfl | rfl | rfl) <;> decide
  have wasColor : isCustomColor ⟨0, call.name, chars original⟩ = true := by
    rw [isCustomColor, Bool.and_eq_true, Text.includes_iff_isInfix]
    exact ⟨isColor.1, innerWrapped.isInfix noMark isColor.2⟩
  have none := literalColor?_eq_none_iff.1 noLiteral _ foundBefore wasColor
  have subset : Call.text ⟨0, call.name, chars original⟩ ⊆ call.text := by
    intro char
    simp only [Call.text, arguments, List.mem_append, List.mem_cons]
    exact Or.imp_right (Or.imp_right (Or.imp_left (innerWrapped.chars_subset ·)))
  rw [Text.literal?_eq_none_iff] at none ⊢
  exact ⟨subset none.1, subset none.2⟩

end Wrapped

/-- Among the cells behind the patch no call can be made literal. -/
theorem Rewrites.literal?_eq_none
    {before : Option Cell}
    {cells : List Cell}
    {patch : Patch}
    (rewrites : Rewrites before cells patch)
    {previous : Option Cell}
    (mayStart : mayStartCall previous = mayStartCall before)
    {start : Nat}
    {call : Call}
    (member : call ∈ callsFrom start previous (literalCells patch cells))
    (isColor : isCustomColor call = true) :
    call.text.literal? = none := by
  induction rewrites generalizing start previous with
  | nil => contradiction
  | @keep before cell rest patch noLiteral further inductionHypothesis =>
      change call ∈ callsFrom start previous (cell :: literalCells patch rest) at member
      rw [callsFrom, List.mem_append, Option.mem_toList] at member
      obtain here | later := member
      · exact further.wrapped.literal?_eq_none noLiteral mayStart here isColor
      · exact inductionHypothesis rfl later
  | @wrap before parts quote rest patch starts _ isQuote noQuote further inductionHypothesis =>
      have noNames : ∀ cell ∈
          (⟨'~', .code, false⟩ : Cell) ::
            opened .string (quote :: (chars parts.cells ++ [quote])),
          cell.isCodeName = false := by
        intro cell inLiteral
        obtain rfl | inString := List.mem_cons.1 inLiteral
        · rfl
        · simp [Cell.isCodeName, kind_of_mem_opened inString]
      rw [literalCells, length_chars, List.drop_left, List.tail_cons, ← List.cons_append,
        callsFrom_append, callsWithin_of_no_name noNames, List.nil_append] at member
      refine inductionHypothesis ?_ member
      have isLast : ((⟨'~', .code, false⟩ : Cell) ::
          opened .string (quote :: (chars parts.cells ++ [quote]))).getLast?.or previous =
            some ⟨quote, .string, false⟩ := by
        simp [opened, inside, List.getLast?_cons]
      rw [isLast]
      obtain rfl | rfl := isQuote <;> rfl

/-! ## The pass -/

theorem rewrites_customColorPatch (source : Text) :
    Rewrites none (cells source) (customColorPatch source) :=
  rewrites_patchFrom none (cells source)

/-- Where the literal strings keep the reading, calls become strings and all else is kept. -/
theorem cells_literalCustomColors_eq_literalCells
    {source : Text}
    (keeps : keepsReading 0 (customColorPatch source) (cells source) = true) :
    cells (literalCustomColors source) = literalCells (customColorPatch source) (cells source) := by
  have rewrites := rewrites_customColorPatch source
  have result : chars (literalCells (customColorPatch source) (cells source)) =
      literalCustomColors source :=
    rewrites.chars_literalCells
  have reads : Mode.initial.cells (chars (cells source)) = cells source :=
    congrArg Mode.initial.cells (chars_cells source)
  rw [← result]
  exact rewrites.cells_literalCells reads keeps

theorem hasNoCustomColor_literalCustomColors
    {source : Text}
    (keeps : keepsReading 0 (customColorPatch source) (cells source) = true) :
    HasNoCustomColor (literalCustomColors source) := by
  intro call member isColor
  rw [calls, cells_literalCustomColors_eq_literalCells keeps] at member
  exact (rewrites_customColorPatch source).literal?_eq_none rfl member isColor

/-- Every piece that the pass replaces is a call that is a colour over a custom property. -/
theorem exists_call_of_customColorPatch_eq
    {source : Text}
    {front back : Patch}
    {old new : Text}
    (split : customColorPatch source = front ++ .replace old new :: back) :
    ∃ call ∈ calls source,
      call.start = (Patch.before front).length ∧ call.text = old ∧
        isCustomColor call = true ∧
        ∃ quote, (quote = '"' ∨ quote = '\'') ∧ quote ∉ old ∧
          new = '~' :: quote :: (old ++ [quote]) := by
  obtain ⟨call, member, isStart, facts⟩ :=
    (rewrites_customColorPatch source).exists_call split rfl 0
  exact ⟨call, member, by rw [isStart, Nat.zero_add], facts⟩

/--
Literal strings are put around disjoint calls that are colours over a custom
property.  Where the literal strings keep the reading, a call and its quotes
are a string behind a tilde of code, every other character is in the class that
it was in, and there is nothing to do a second time.
-/
theorem cells_literalCustomColors
    (source : Text) :
    (customColorPatch source).before = source ∧
      (customColorPatch source).after = literalCustomColors source ∧
      (∀ front old new back, customColorPatch source = front ++ .replace old new :: back →
        ∃ call ∈ calls source,
          call.start = (Patch.before front).length ∧ call.text = old ∧
            isCustomColor call = true ∧
            ∃ quote, (quote = '"' ∨ quote = '\'') ∧ quote ∉ old ∧
              new = '~' :: quote :: (old ++ [quote])) ∧
      (keepsReading 0 (customColorPatch source) (cells source) = true →
        cells (literalCustomColors source) =
            literalCells (customColorPatch source) (cells source) ∧
          literalCustomColors (literalCustomColors source) = literalCustomColors source) := by
  refine ⟨customColorRule.before_patch none source, rfl,
    fun front old new back => exists_call_of_customColorPatch_eq, fun keeps => ?_⟩
  exact ⟨cells_literalCustomColors_eq_literalCells keeps,
    addsInkUnless_literalCustomColors.eq_self _ (hasNoCustomColor_literalCustomColors keeps)⟩

/-- A colour in a declaration is made literal, and the line comment behind it stays one. -/
theorem cells_literalCustomColors_declaration :
    literalCustomColors "a\x7bb:rgb(var(--c))\x7d//d" = "a\x7bb:~\"rgb(var(--c))\"\x7d//d" ∧
      cells (literalCustomColors "a\x7bb:rgb(var(--c))\x7d//d") =
        literalCells (customColorPatch "a\x7bb:rgb(var(--c))\x7d//d")
          (cells "a\x7bb:rgb(var(--c))\x7d//d") ∧
      literalCustomColors (literalCustomColors "a\x7bb:rgb(var(--c))\x7d//d") =
        literalCustomColors "a\x7bb:rgb(var(--c))\x7d//d" := by
  obtain ⟨-, -, -, kept⟩ := cells_literalCustomColors "a\x7bb:rgb(var(--c))\x7d//d"
  exact ⟨by decide, kept (by decide)⟩

/-- A line feed in a colour ends its literal string, and what follows it is read as code. -/
theorem literalCustomColors_ne_self_color_over_two_lines :
    literalCustomColors "rgb(var(--c)\nrgb(var(--d)))" = "~\"rgb(var(--c)\nrgb(var(--d)))\"" ∧
      literalCustomColors "~\"rgb(var(--c)\nrgb(var(--d)))\"" =
        "~\"rgb(var(--c)\n~\"rgb(var(--d))\")\"" ∧
      (⟨'\n', .code, false⟩ : Cell) ∈ cells "~\"rgb(var(--c)\nrgb(var(--d)))\"" := by
  decide

end Lowering
end LessTheme
