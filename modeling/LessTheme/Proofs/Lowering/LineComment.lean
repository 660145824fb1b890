import LessTheme.Proofs.Lowering.Growth
import LessTheme.Proofs.Source.Ending

/-!
# Block comments in place of line comments

Each line comment becomes one block comment, and every other segment stays as
it is.  The block comment ends where the line comment ended, because no `*/`
is left in its words, and it begins with a slash as the line comment does, so
that what stands in front is read as before.  Behind it the line end is read
outside all parentheses, as it was.
-/

namespace LessTheme
namespace Lowering

open Source

/-! ## The words of a comment -/

/-- What ends a block comment. -/
def commentEnd : Text := ['*', '/']

/-- Words without a `*/` are kept. -/
theorem breakCommentEnds_eq_self
    {text : Text}
    (noEnd : ¬commentEnd <:+: text) :
    breakCommentEnds text = text := by
  fun_induction breakCommentEnds text with
  | case1 => rfl
  | case2 rest => exact absurd (List.prefix_append commentEnd rest).isInfix noEnd
  | case3 char rest _ inductionHypothesis =>
      rw [inductionHypothesis fun later => noEnd (later.trans (List.suffix_cons char rest).isInfix)]

/-- A blank is put into the first `*/`, and the words behind it are broken up likewise. -/
theorem breakCommentEnds_append_commentEnd
    {front : Text}
    (noEnd : ¬commentEnd <:+: front)
    (back : Text) :
    breakCommentEnds (front ++ '*' :: '/' :: back) =
      front ++ '*' :: ' ' :: '/' :: breakCommentEnds back := by
  induction front with
  | nil => rfl
  | cons char rest inductionHypothesis =>
      have further := inductionHypothesis fun later =>
        noEnd (later.trans (List.suffix_cons char rest).isInfix)
      rw [List.cons_append, breakCommentEnds, further, List.cons_append]
      rintro others rfl isRest
      cases rest with
      | nil => exact absurd (List.cons.inj isRest).1 (by decide)
      | cons next more =>
          obtain ⟨rfl, -⟩ := List.cons.inj isRest
          exact noEnd (List.prefix_append commentEnd more).isInfix

theorem head?_breakCommentEnds (text : Text) : (breakCommentEnds text).head? = text.head? := by
  fun_cases breakCommentEnds text <;> rfl

/-- No `*/` is left in the words. -/
theorem not_isInfix_breakCommentEnds (text : Text) : ¬commentEnd <:+: breakCommentEnds text := by
  fun_induction breakCommentEnds text with
  | case1 => exact fun isInfix => absurd (List.infix_nil.1 isInfix) (by decide)
  | case2 rest inductionHypothesis =>
      intro isInfix
      obtain begins | isInfix := List.infix_cons_iff.1 isInfix
      · exact absurd (List.cons_prefix_cons.1 (List.cons_prefix_cons.1 begins).2).1 (by decide)
      obtain begins | isInfix := List.infix_cons_iff.1 isInfix
      · exact absurd (List.cons_prefix_cons.1 begins).1 (by decide)
      obtain begins | later := List.infix_cons_iff.1 isInfix
      · exact absurd (List.cons_prefix_cons.1 begins).1 (by decide)
      · exact inductionHypothesis later
  | case3 char rest noEnd inductionHypothesis =>
      intro isInfix
      obtain begins | later := List.infix_cons_iff.1 isInfix
      · obtain ⟨rfl, slash⟩ := List.cons_prefix_cons.1 begins
        have isSlash : rest.head? = some '/' := by
          obtain ⟨behind, split⟩ := slash
          rw [← head?_breakCommentEnds, ← split]
          rfl
        obtain ⟨others, rfl⟩ := List.head?_eq_some_iff.1 isSlash
        exact noEnd others rfl rfl
      · exact inductionHypothesis later

/-- Nothing but blanks is put between the words. -/
theorem filter_breakCommentEnds (text : Text) :
    (breakCommentEnds text).filter (· != ' ') = text.filter (· != ' ') := by
  fun_induction breakCommentEnds text with
  | case1 => rfl
  | case2 rest inductionHypothesis => simp [inductionHypothesis]
  | case3 char rest noEnd inductionHypothesis =>
      rw [List.filter_cons, List.filter_cons, inductionHypothesis]

/-! ## Segments and cells -/

/-- What a segment of a stylesheet becomes. -/
def blockSegment (segment : Segment) : Segment :=
  if segment.kind = .lineComment then ⟨.blockComment, blockForm segment.text⟩ else segment

theorem text_blockSegment (segment : Segment) :
    (blockSegment segment).text = withoutLineComment segment := by
  unfold blockSegment withoutLineComment
  split <;> rfl

theorem blockSegment_of_kind_ne
    {segment : Segment}
    (noComment : segment.kind ≠ .lineComment) :
    blockSegment segment = segment :=
  if_neg noComment

theorem kind_blockSegment_ne (segment : Segment) :
    (blockSegment segment).kind ≠ .lineComment := by
  unfold blockSegment
  split
  case isTrue => nofun
  case isFalse noComment => exact noComment

/-! ## Cells of the result -/

/-- Some cells, and the same cells with every line comment written as a block comment. -/
inductive WithBlocks : List Cell → List Cell → Prop
  | nil : WithBlocks [] []
  | keep {cell : Cell} {cells written : List Cell}
      (noComment : cell.kind ≠ .lineComment)
      (rest : WithBlocks cells written) :
      WithBlocks (cell :: cells) (cell :: written)
  | comment {cells written : List Cell}
      (body : Text)
      (ends : ∀ cell, cells.head? = some cell → cell.kind = .code)
      (rest : WithBlocks cells written) :
      WithBlocks (opened .lineComment ('/' :: '/' :: body) ++ cells)
        (opened .blockComment (blockForm ('/' :: '/' :: body)) ++ written)

namespace WithBlocks

variable {cells written : List Cell}

/-- What stands in front goes on in both or in neither. -/
theorem any_continues_head?
    (withBlocks : WithBlocks cells written)
    (previous : Cell) :
    written.head?.any (·.continues previous) = cells.head?.any (·.continues previous) := by
  cases withBlocks with
  | nil | keep => rfl
  | comment => simp [opened, blockForm, Cell.continues]

theorem kind_of_head?
    (withBlocks : WithBlocks cells written)
    (ends : ∀ cell, cells.head? = some cell → cell.kind = .code) :
    ∀ cell, written.head? = some cell → cell.kind = .code := by
  cases withBlocks with
  | nil | keep => exact ends
  | comment => exact absurd (ends _ rfl) nofun

/-- Each line comment becomes one segment, and no other segment changes. -/
theorem segmentsOfCells_eq
    (withBlocks : WithBlocks cells written) :
    segmentsOfCells written = (segmentsOfCells cells).map blockSegment := by
  induction withBlocks with
  | nil => rfl
  | @keep cell cells written noComment rest inductionHypothesis =>
      have kept (text : Text) : blockSegment ⟨cell.kind, text⟩ = ⟨cell.kind, text⟩ :=
        blockSegment_of_kind_ne noComment
      rw [segmentsOfCells_cons, segmentsOfCells_cons, rest.any_continues_head?,
        inductionHypothesis]
      split
      case isTrue continues =>
        obtain ⟨next, isNext, goesOn⟩ := (Option.any_eq_true _ _).1 continues
        obtain ⟨others, rfl⟩ := List.head?_eq_some_iff.1 isNext
        obtain ⟨text, segments, segmentsEq⟩ := exists_segmentsOfCells_cons next others
        simp only [Cell.continues, Bool.and_eq_true, beq_iff_eq] at goesOn
        rw [segmentsEq, goesOn.1, List.map_cons, kept, List.modifyHead_cons, List.modifyHead_cons,
          List.map_cons, kept]
      case isFalse => rw [List.map_cons, kept]
  | @comment cells written body ends rest inductionHypothesis =>
      have cellsEnd : ∀ cell, cells.head? = some cell → cell.kind ≠ .lineComment :=
        fun cell isNext => by simp [ends cell isNext]
      have writtenEnd : ∀ cell, written.head? = some cell → cell.kind ≠ .blockComment :=
        fun cell isNext => by simp [rest.kind_of_head? ends cell isNext]
      have nonempty : blockForm ('/' :: '/' :: body) ≠ [] := List.cons_ne_nil _ _
      rw [segmentsOfCells_opened_append (List.cons_ne_nil _ _) cellsEnd,
        segmentsOfCells_opened_append nonempty writtenEnd, inductionHypothesis]
      rfl

/-- A line comment is two slashes and its words. -/
theorem exists_text_eq_of_mem
    (withBlocks : WithBlocks cells written)
    {segment : Segment}
    (member : segment ∈ segmentsOfCells cells)
    (isComment : segment.kind = .lineComment) :
    ∃ body, segment.text = '/' :: '/' :: body := by
  induction withBlocks generalizing segment with
  | nil => contradiction
  | @keep cell cells written noComment rest inductionHypothesis =>
      rw [segmentsOfCells_cons] at member
      have later : segment ∈ segmentsOfCells cells → ∃ body, segment.text = '/' :: '/' :: body :=
        fun member => inductionHypothesis member isComment
      split at member
      case isTrue =>
        cases segments : segmentsOfCells cells with
        | nil =>
            rw [segments] at member
            contradiction
        | cons first others =>
            rw [segments] at member later
            obtain rfl | inOthers := List.mem_cons.1 member
            · exact absurd isComment noComment
            · exact later (List.mem_cons_of_mem _ inOthers)
      case isFalse =>
        obtain rfl | inRest := List.mem_cons.1 member
        · exact absurd isComment noComment
        · exact later inRest
  | comment body ends rest inductionHypothesis =>
      rw [segmentsOfCells_opened_append (by simp) fun cell isNext => by simp [ends cell isNext]]
        at member
      obtain rfl | inRest := List.mem_cons.1 member
      · exact ⟨body, rfl⟩
      · exact inductionHypothesis inRest isComment

end WithBlocks

/-! ## Reading comments -/

/-- The words of a line comment without `*/` do not end a block comment. -/
theorem cellsBefore_breakCommentEnds
    (body : Text)
    (depth : Nat)
    (afterStar : Bool)
    (next : Option Char)
    (starts : afterStar = true → body.head? ≠ some '/') :
    (Mode.comment depth afterStar).cellsBefore (breakCommentEnds body) next =
        inside .blockComment (breakCommentEnds body) ∧
      ∃ starLast, (Mode.comment depth afterStar).after (breakCommentEnds body) next =
        .comment depth starLast := by
  fun_induction breakCommentEnds body generalizing afterStar with
  | case1 => exact ⟨rfl, afterStar, rfl⟩
  | case2 rest inductionHypothesis =>
      obtain ⟨cells, starLast, behind⟩ := inductionHypothesis false
        fun impossible => absurd impossible Bool.false_ne_true
      refine ⟨?_, starLast, ?_⟩
      · simpa [Mode.cellsBefore, Mode.read, inside] using cells
      · simpa [Mode.after, Mode.read] using behind
  | case3 char rest noEnd inductionHypothesis =>
      have noStop : ¬(char = '/' ∧ afterStar = true) := by
        rintro ⟨rfl, isStar⟩
        exact starts isStar rfl
      have goesOn : (char == '*') = true → rest.head? ≠ some '/' := by
        intro isStar isSlash
        obtain ⟨others, rfl⟩ := List.head?_eq_some_iff.1 isSlash
        exact noEnd others (eq_of_beq isStar) rfl
      obtain ⟨cells, starLast, behind⟩ := inductionHypothesis (char == '*') goesOn
      refine ⟨?_, starLast, ?_⟩
      · rw [Mode.cellsBefore, Mode.read, if_neg noStop, cells]
        rfl
      · rw [Mode.after, Mode.read, if_neg noStop, behind]

/-- The block form of a comment is read as one block comment. -/
theorem cellsBefore_blockForm
    (comment : Text)
    (depth : Nat)
    (afterColon : Bool)
    (next : Option Char) :
    (Mode.code depth afterColon).cellsBefore (blockForm comment) next =
        opened .blockComment (blockForm comment) ∧
      (Mode.code depth afterColon).after (blockForm comment) next = .code depth false := by
  obtain ⟨cells, starLast, behind⟩ := cellsBefore_breakCommentEnds (comment.drop 2) depth false
    (some ' ') nofun
  constructor
  · simp [blockForm, Mode.cellsBefore, Mode.read, Mode.cellsBefore_append, cells, behind, opened,
      inside]
  · simp [blockForm, Mode.after, Mode.read, Mode.after_append, behind]

/-- A line comment begins with two slashes outside all parentheses, and not in any other way. -/
theorem read_lineComment_or
    {mode : Mode}
    (notInside : mode ≠ .lineComment)
    (char : Char)
    (next : Option Char) :
    (mode = .code 0 false ∧ char = '/' ∧ next = some '/') ∨
      (mode.read char next).1.kind ≠ .lineComment ∧ (mode.read char next).2 ≠ .lineComment := by
  cases mode with
  | lineComment => contradiction
  | code depth afterColon =>
      by_cases begins : char = '/' ∧ next = some '/' ∧ depth = 0 ∧ afterColon = false
      · obtain ⟨isSlash, nextSlash, rfl, rfl⟩ := begins
        exact Or.inl ⟨rfl, isSlash, nextSlash⟩
      · right
        rw [Mode.read, if_neg begins]
        split_ifs <;> exact ⟨by rintro ⟨⟩, by rintro ⟨⟩⟩
  | string | comment =>
      right
      rw [Mode.read]
      split_ifs <;> exact ⟨by rintro ⟨⟩, by rintro ⟨⟩⟩
  | escape | commentOpening => exact Or.inr ⟨by rintro ⟨⟩, by rintro ⟨⟩⟩

/-- The cells with block comments are those of their own text. -/
theorem exists_withBlocks_cells
    {mode : Mode}
    (notInside : mode ≠ .lineComment)
    (text : Text) :
    ∃ written, WithBlocks (mode.cells text) written ∧ mode.cells (chars written) = written ∧
      (chars written).head? = text.head? := by
  induction length : text.length using Nat.strong_induction_on generalizing mode text with
  | _ count inductionHypothesis =>
  subst length
  cases text with
  | nil => exact ⟨[], .nil, rfl, rfl⟩
  | cons char rest =>
      obtain ⟨rfl, rfl, isSlash⟩ | ⟨noComment, notLater⟩ :=
        read_lineComment_or notInside char rest.head?
      case inl =>
        obtain ⟨tail, rfl⟩ := List.head?_eq_some_iff.1 isSlash
        obtain ⟨body, behind, rfl, endsLine⟩ := exists_endsLine tail
        obtain ⟨written, withBlocks, same, -⟩ :=
          @inductionHypothesis behind.length (by simp; omega) (.code 0 false) nofun behind rfl
        have closes : ∀ cell, ((Mode.code 0 false).cells behind).head? = some cell →
            cell.kind = .code := by
          intro cell isFirst
          cases behind with
          | nil => exact nomatch (show none = some cell from isFirst)
          | cons char others =>
              obtain rfl := endsLine.ends char rfl
              obtain rfl := Option.some.inj isFirst
              rfl
        have commentCells : (Mode.code 0 false).cells ('/' :: '/' :: (body ++ behind)) =
            opened .lineComment ('/' :: '/' :: body) ++ (Mode.code 0 false).cells behind :=
          congrArg
            (fun cells => (⟨'/', .lineComment, true⟩ : Cell) :: ⟨'/', .lineComment, false⟩ :: cells)
            endsLine.cells_lineComment
        obtain ⟨formCells, behindForm⟩ := cellsBefore_blockForm ('/' :: '/' :: body) 0 false
          (chars written).head?
        refine ⟨opened .blockComment (blockForm ('/' :: '/' :: body)) ++ written, ?_, ?_, rfl⟩
        · rw [commentCells]
          exact .comment body closes withBlocks
        · rw [chars_append, chars_opened, Mode.cells_append, formCells, behindForm, same]
      case inr =>
        obtain ⟨written, withBlocks, same, sameHead⟩ :=
          inductionHypothesis rest.length (Nat.lt_succ_self _) notLater rest rfl
        refine ⟨(mode.read char rest.head?).1 :: written, .keep noComment withBlocks, ?_, ?_⟩
        · rw [chars_cons, Mode.read_char, Mode.cells, sameHead, same]
        · rw [chars_cons, Mode.read_char, List.head?_cons, List.head?_cons]

/-- The cells behind the pass are those of the source with block comments for line comments. -/
theorem exists_withBlocks_blockComments
    (source : Text) :
    ∃ written, WithBlocks (cells source) written ∧ cells (chars written) = written ∧
      chars written = blockComments source := by
  have notInside : Mode.initial ≠ .lineComment := nofun
  obtain ⟨written, withBlocks, same, -⟩ := exists_withBlocks_cells notInside source
  refine ⟨written, withBlocks, same, ?_⟩
  rw [← flatMap_text_segmentsOfCells, withBlocks.segmentsOfCells_eq, List.flatMap_map,
    blockComments, segments, cells]
  exact congrArg (List.flatMap · _) (funext text_blockSegment)

theorem segments_blockComments_eq_map
    (source : Text) :
    segments (blockComments source) = (segments source).map blockSegment := by
  obtain ⟨written, withBlocks, same, result⟩ := exists_withBlocks_blockComments source
  rw [← result, segments, same, withBlocks.segmentsOfCells_eq, segments]

/-- No line comment is left. -/
theorem hasNoLineComment_blockComments
    (source : Text) :
    HasNoLineComment (blockComments source) := by
  rw [hasNoLineComment_iff, segments_blockComments_eq_map, List.forall_mem_map]
  exact fun segment _ => kind_blockSegment_ne segment

/--
The segments of the result are those of the source, but every line comment
`//b` is one block comment with its words.  So no line comment is left, and
there is nothing to do a second time.
-/
theorem segments_blockComments
    (source : Text) :
    segments (blockComments source) = (segments source).map blockSegment ∧
      (∀ segment ∈ segments source, segment.kind = .lineComment →
        ∃ body : Text, segment.text = "//" ++ body ∧
          blockSegment segment =
            ⟨.blockComment, "/*" ++ breakCommentEnds body ++ " */"⟩) ∧
      HasNoLineComment (blockComments source) ∧
      blockComments (blockComments source) = blockComments source := by
  obtain ⟨written, withBlocks, -, -⟩ := exists_withBlocks_blockComments source
  refine ⟨segments_blockComments_eq_map source, fun segment member isComment => ?_,
    hasNoLineComment_blockComments source,
    addsInkUnless_blockComments.eq_self _ (hasNoLineComment_blockComments source)⟩
  obtain ⟨body, isText⟩ := withBlocks.exists_text_eq_of_mem member isComment
  refine ⟨body, isText, ?_⟩
  rw [blockSegment, if_pos isComment, isText]
  rfl

example : blockComments "a;//b*/c**/\nd" = ("a;/*b* /c** / */\nd" : Text) := by
  decide

end Lowering
end LessTheme
