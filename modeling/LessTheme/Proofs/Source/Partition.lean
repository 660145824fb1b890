import LessTheme.Proofs.Source.Call
import LessTheme.Proofs.Source.Ending
import LessTheme.Proofs.Text.Pieces
import Mathlib.Data.List.Chain

/-!
# The partition of a text

Code goes on up to the first string or comment, and each of these up to its
own end.  What begins with a character of code depends on the parentheses that
are open and on the character in front, and both are the same whether the text
is read from its start or from the start of a segment.
-/

namespace LessTheme
namespace Source

/-! ## Where code ends -/

/--
Whether a string or a comment begins at the front of a text, given how many
parentheses are open there and the character before it.
-/
def LeavesCode (depth : Nat) (previous : Option Char) : Text → Prop
  | [] => False
  | char :: rest =>
      (char = '"' ∨ char = '\'') ∨ char = '/' ∧
        (rest.head? = some '*' ∨
          rest.head? = some '/' ∧ depth = 0 ∧ previous ≠ some ':')

/-- How a run of code ends, given the text behind it. -/
structure EndsCode (depth : Nat) (previous : Option Char) (run behind : Text) : Prop where
  /-- No string and no comment begins in the run. -/
  stays : ∀ front back, run = front ++ back → back ≠ [] →
    ¬LeavesCode (front.foldl parenthesisDepth depth) (front.getLast?.or previous) (back ++ behind)
  /-- A string or a comment follows, or nothing. -/
  ends : behind = [] ∨
    LeavesCode (run.foldl parenthesisDepth depth) (run.getLast?.or previous) behind

/-- Whether the mode knows of a colon in front of a text; only a slash asks for it. -/
def KnowsColon (afterColon : Bool) (previous : Option Char) (text : Text) : Prop :=
  text.head? = some '/' → (afterColon = true ↔ previous = some ':')

section Reading

variable {depth : Nat} {afterColon : Bool} {previous : Option Char}

theorem EndsCode.nil
    {behind : Text}
    (ends : behind = [] ∨ LeavesCode depth previous behind) :
    EndsCode depth previous [] behind :=
  ⟨fun _ _ split nonempty => absurd (List.append_eq_nil_iff.1 split.symm).2 nonempty, ends⟩

theorem EndsCode.cons
    {char : Char}
    {run behind : Text}
    (here : ¬LeavesCode depth previous (char :: (run ++ behind)))
    (endsCode : EndsCode (parenthesisDepth depth char) (some char) run behind) :
    EndsCode depth previous (char :: run) behind := by
  refine ⟨fun front back split nonempty => ?_, ?_⟩
  · cases front with
    | nil =>
        obtain rfl : char :: run = back := split
        exact here
    | cons first rest =>
        obtain ⟨rfl, restSplit⟩ := List.cons.inj split
        rw [getLast?_cons_or]
        exact endsCode.stays rest back restSplit nonempty
  · rw [getLast?_cons_or]
    exact endsCode.ends

theorem Mode.read_of_not_leavesCode
    {char : Char}
    {rest : Text}
    (knows : KnowsColon afterColon previous (char :: rest))
    (stays : ¬LeavesCode depth previous (char :: rest)) :
    (code depth afterColon).read char rest.head? =
      (⟨char, .code, false⟩, code (parenthesisDepth depth char) (char == ':')) := by
  obtain ⟨noString, noComment⟩ := not_or.1 stays
  simp only [not_and, not_or] at noComment
  have noBlock : ¬(char = '/' ∧ rest.head? = some '*') := fun ⟨isSlash, isStar⟩ =>
    (noComment isSlash).1 isStar
  have noLine : ¬(char = '/' ∧ rest.head? = some '/' ∧ depth = 0 ∧ afterColon = false) := by
    rintro ⟨rfl, isSlash, outside, noColon⟩
    have isColon := (knows rfl).2 (not_not.1 ((noComment rfl).2 isSlash outside))
    rw [isColon] at noColon
    contradiction
  rw [Mode.read, if_neg noString, if_neg noBlock, if_neg noLine]

/-- Code is read up to the first string or comment. -/
theorem Mode.exists_cells_code
    (depth : Nat)
    {text : Text}
    (knows : KnowsColon afterColon previous text) :
    ∃ run behind colon, text = run ++ behind ∧
      (code depth afterColon).cells text =
        inside .code run ++ (code (run.foldl parenthesisDepth depth) colon).cells behind ∧
      EndsCode depth previous run behind ∧ KnowsColon colon (run.getLast?.or previous) behind := by
  induction text generalizing depth afterColon previous with
  | nil => exact ⟨[], [], afterColon, rfl, rfl, .nil (.inl rfl), knows⟩
  | cons char rest inductionHypothesis =>
      by_cases leaves : LeavesCode depth previous (char :: rest)
      · exact ⟨[], char :: rest, afterColon, rfl, rfl, .nil (.inr leaves), knows⟩
      · have knowsBehind : KnowsColon (char == ':') (some char) rest := by
          intro _
          simp
        obtain ⟨run, behind, colon, rfl, cells, ends, knowsEnd⟩ :=
          inductionHypothesis (parenthesisDepth depth char) knowsBehind
        refine ⟨char :: run, behind, colon, rfl, ?_, ends.cons leaves, ?_⟩
        · rw [Mode.cells, Mode.read_of_not_leavesCode knows leaves, cells]
          rfl
        · rwa [getLast?_cons_or]

/-! ## One segment -/

/-- How many parentheses are open behind a segment. -/
def Segment.depthBehind (depth : Nat) (segment : Segment) : Nat :=
  if segment.kind = .code then segment.text.foldl parenthesisDepth depth else depth

/--
How a segment is cut from a text, given how many parentheses are open in front
of it, the character before it and the text behind it.
-/
inductive IsCut (depth : Nat) (previous : Option Char) (behind : Text) : Segment → Prop
  | code {run : Text}
      (nonempty : run ≠ [])
      (ends : EndsCode depth previous run behind) :
      IsCut depth previous behind ⟨.code, run⟩
  | string {quote : Char} {words : Text}
      (isQuote : quote = '"' ∨ quote = '\'')
      (ends : EndsString quote endsEscaped words behind) :
      IsCut depth previous behind ⟨.string, quote :: words⟩
  | blockComment {words : Text}
      (ends : EndsComment words behind) :
      IsCut depth previous behind ⟨.blockComment, '/' :: '*' :: words⟩
  | lineComment {words : Text}
      (outside : depth = 0)
      (noColon : previous ≠ some ':')
      (ends : EndsLine words behind) :
      IsCut depth previous behind ⟨.lineComment, '/' :: '/' :: words⟩

theorem IsCut.text_ne_nil
    {behind : Text}
    {segment : Segment}
    (isCut : IsCut depth previous behind segment) :
    segment.text ≠ [] := by
  cases isCut with
  | code nonempty => exact nonempty
  | string | blockComment | lineComment => exact List.cons_ne_nil _ _

/-- No slash stands right behind a string or a comment that ends with a colon. -/
theorem IsCut.head?_ne_slash
    {behind : Text}
    {segment : Segment}
    (isCut : IsCut depth previous behind segment)
    (noCode : segment.kind ≠ .code)
    (isColon : segment.text.getLast? = some ':') :
    behind.head? ≠ some '/' := by
  cases isCut with
  | code => contradiction
  | @string quote _ isQuote ends =>
      cases ends with
      | @closed content =>
          rw [← List.cons_append, List.getLast?_concat] at isColon
          obtain rfl := Option.some.inj isColon
          exact absurd isQuote (by decide)
      | line => nofun
      | unclosed => nofun
  | blockComment ends =>
      cases ends with
      | @closed words =>
          have isSlash : ('/' :: '*' :: (words ++ ['*', '/'])).getLast? = some '/' :=
            List.getLast?_append_of_ne_nil ('/' :: '*' :: words) (List.cons_ne_nil '*' ['/'])
          rw [isSlash] at isColon
          contradiction
      | unclosed => nofun
  | lineComment _ _ ends =>
      intro isSlash
      exact absurd (ends.ends '/' isSlash) (by decide)

/-- A string or a comment that begins at the front of a text is read to its end. -/
theorem exists_isCut_of_leavesCode
    {text : Text}
    (knows : KnowsColon afterColon previous text)
    (leaves : LeavesCode depth previous text) :
    ∃ segment behind, text = segment.text ++ behind ∧
      (Mode.code depth afterColon).cells text =
        opened segment.kind segment.text ++ (Mode.code depth false).cells behind ∧
      segment.kind ≠ .code ∧ IsCut depth previous behind segment := by
  cases text with
  | nil => contradiction
  | cons char rest =>
      obtain isQuote | ⟨rfl, isStar | ⟨isSlash, rfl, noColon⟩⟩ := leaves
      · obtain ⟨words, behind, rfl, cells, ends⟩ :=
          Mode.exists_cells_withinString isQuote depth false rest
        have isEscaped : escapesNext false = endsEscaped := funext escapesNext_false_eq
        rw [isEscaped] at ends
        refine ⟨⟨.string, char :: words⟩, behind, rfl, ?_, by rintro ⟨⟩, .string isQuote ends⟩
        rw [Mode.cells, Mode.read_quote isQuote, cells]
        rfl
      · obtain ⟨inner, rfl⟩ := List.head?_eq_some_iff.1 isStar
        obtain ⟨words, behind, rfl, cells, ends⟩ := Mode.exists_cells_comment depth false inner
        refine ⟨⟨.blockComment, '/' :: '*' :: words⟩, behind, rfl, ?_, by rintro ⟨⟩,
          .blockComment ends⟩
        have reads : (Mode.code depth afterColon).cells ('/' :: '*' :: (words ++ behind)) =
            ⟨'/', .blockComment, true⟩ :: ⟨'*', .blockComment, false⟩ ::
              (Mode.comment depth false).cells (words ++ behind) := rfl
        rw [reads, cells]
        rfl
      · obtain ⟨inner, rfl⟩ := List.head?_eq_some_iff.1 isSlash
        obtain ⟨words, behind, rfl, ends⟩ := exists_endsLine inner
        refine ⟨⟨.lineComment, '/' :: '/' :: words⟩, behind, rfl, ?_, by rintro ⟨⟩,
          .lineComment rfl noColon ends⟩
        have notBehindColon : afterColon = false :=
          eq_false_of_ne_true fun isColon => noColon ((knows rfl).1 isColon)
        have reads : (Mode.code 0 afterColon).cells ('/' :: '/' :: (words ++ behind)) =
            ⟨'/', .lineComment, true⟩ :: ⟨'/', .lineComment, false⟩ ::
              Mode.lineComment.cells (words ++ behind) := by
          subst notBehindColon
          rfl
        rw [reads, ends.cells_lineComment]
        rfl

/-- A string or a comment begins with what is read as code or not at all. -/
theorem Mode.continues_eq_false_of_code
    {last first : Cell}
    {text : Text}
    (noCode : last.kind ≠ .code)
    (isFirst : ((code depth afterColon).cells text).head? = some first) :
    first.continues last = false := by
  cases text with
  | nil => contradiction
  | cons char rest =>
      obtain rfl := Option.some.inj isFirst
      simp only [Mode.read]
      split_ifs
      all_goals simp [Cell.continues, noCode.symm]

/-- What is read as a string or a comment is a segment of its own. -/
theorem segmentsOfCells_opened_append_cells
    {kind : LexicalClass}
    {text behind : Text}
    (noCode : kind ≠ .code)
    (nonempty : text ≠ []) :
    segmentsOfCells (opened kind text ++ (Mode.code depth afterColon).cells behind) =
      ⟨kind, text⟩ :: segmentsOfCells ((Mode.code depth afterColon).cells behind) := by
  have alone : segmentsOfCells (opened kind text ++ []) = [⟨kind, text⟩] :=
    segmentsOfCells_opened_append nonempty nofun
  rw [List.append_nil] at alone
  rw [segmentsOfCells_append, alone, List.singleton_append]
  intro last isLast first isFirst
  have sameKind : last.kind = kind := kind_of_mem_opened (List.mem_of_getLast? isLast)
  exact Mode.continues_eq_false_of_code (sameKind ▸ noCode) isFirst

/-- A text is cut into its first segment and the segments of the text behind that. -/
theorem exists_firstSegment
    (depth : Nat)
    {text : Text}
    (nonempty : text ≠ [])
    (knows : KnowsColon afterColon previous text) :
    ∃ segment behind colon, text = segment.text ++ behind ∧
      segmentsOfCells ((Mode.code depth afterColon).cells text) =
        segment ::
          segmentsOfCells ((Mode.code (segment.depthBehind depth) colon).cells behind) ∧
      IsCut depth previous behind segment ∧
      KnowsColon colon (segment.text.getLast?.or previous) behind := by
  by_cases leaves : LeavesCode depth previous text
  · obtain ⟨segment, behind, rfl, cells, noCode, isCut⟩ := exists_isCut_of_leavesCode knows leaves
    have sameDepth : segment.depthBehind depth = depth := if_neg noCode
    refine ⟨segment, behind, false, rfl, ?_, isCut, fun isSlash => ?_⟩
    · rw [cells, segmentsOfCells_opened_append_cells noCode isCut.text_ne_nil, sameDepth]
    · have hasLast := List.getLast?_eq_some_getLast isCut.text_ne_nil
      rw [hasLast, Option.some_or, ← hasLast]
      exact iff_of_false nofun fun isColon => isCut.head?_ne_slash noCode isColon isSlash
  · obtain ⟨run, behind, colon, rfl, cells, endsCode, knowsEnd⟩ :=
      Mode.exists_cells_code depth knows
    have runNonempty : run ≠ [] := by
      rintro rfl
      obtain rfl | leavesEnd := endsCode.ends
      · exact nonempty rfl
      · exact leaves leavesEnd
    refine ⟨⟨.code, run⟩, behind, colon, rfl, ?_, .code runNonempty endsCode, knowsEnd⟩
    obtain ⟨char, rest, rfl⟩ := List.exists_cons_of_ne_nil runNonempty
    rw [cells]
    refine segmentsOfCells_cons_inside_append rfl (fun cell isNext => ?_) rest
    obtain rfl | leavesEnd := endsCode.ends
    · contradiction
    · obtain ⟨next, _, _, nextCells, noCode, isCut⟩ :=
        exists_isCut_of_leavesCode knowsEnd leavesEnd
      obtain ⟨nextChar, nextRest, nextText⟩ := List.exists_cons_of_ne_nil isCut.text_ne_nil
      rw [nextCells, nextText] at isNext
      obtain rfl := Option.some.inj isNext
      exact noCode

/-! ## All segments -/

/-- Every segment of a text is cut from it, whatever segments stand in front. -/
theorem isCut_of_segmentsOfCells_eq
    {text : Text}
    {before behind : List Segment}
    {segment : Segment}
    (knows : KnowsColon afterColon previous text)
    (split : segmentsOfCells ((Mode.code depth afterColon).cells text) =
      before ++ segment :: behind) :
    IsCut (before.foldl Segment.depthBehind depth)
      ((before.flatMap Segment.text).getLast?.or previous)
      (behind.flatMap Segment.text) segment := by
  induction before generalizing depth afterColon previous text with
  | nil =>
      have nonempty : text ≠ [] := by
        rintro rfl
        contradiction
      obtain ⟨first, rest, colon, -, segments, isCut, -⟩ :=
        exists_firstSegment depth nonempty knows
      obtain ⟨rfl, rfl⟩ := List.cons.inj (segments.symm.trans split)
      rwa [flatMap_text_segmentsOfCells, Mode.chars_cells]
  | cons first others inductionHypothesis =>
      have nonempty : text ≠ [] := by
        rintro rfl
        contradiction
      obtain ⟨firstCut, rest, colon, -, segments, -, knowsBehind⟩ :=
        exists_firstSegment depth nonempty knows
      obtain ⟨rfl, further⟩ := List.cons.inj (segments.symm.trans split)
      rw [List.flatMap_cons, List.getLast?_append, Option.or_assoc]
      exact inductionHypothesis knowsBehind further

end Reading

theorem isCut_of_segments_eq
    {text : Text}
    {before behind : List Segment}
    {segment : Segment}
    (split : segments text = before ++ segment :: behind) :
    IsCut (before.foldl Segment.depthBehind 0) (before.flatMap Segment.text).getLast?
      (behind.flatMap Segment.text) segment := by
  have knows : KnowsColon false none text := fun _ => iff_of_false nofun nofun
  have isCut := isCut_of_segmentsOfCells_eq knows split
  rwa [Option.or_none] at isCut

/-- Code goes on up to a string or a comment, so no code is cut right behind code. -/
theorem kind_ne_code_of_segments_eq
    {text : Text}
    {before behind : List Segment}
    {segment next : Segment}
    (split : segments text = before ++ segment :: next :: behind)
    (isCode : segment.kind = .code) :
    next.kind ≠ .code := by
  intro nextIsCode
  have nextSplit : segments text = (before ++ [segment]) ++ next :: behind := by
    rw [split, List.append_assoc]
    rfl
  have isCut := isCut_of_segments_eq split
  have nextCut := isCut_of_segments_eq nextSplit
  obtain ⟨kind, run⟩ := segment
  obtain ⟨nextKind, nextRun⟩ := next
  obtain rfl : kind = .code := isCode
  obtain rfl : nextKind = .code := nextIsCode
  rw [List.foldl_append, List.flatMap_append, List.flatMap_singleton, List.getLast?_append]
    at nextCut
  cases isCut with
  | code _ ends =>
    cases nextCut with
    | code nonempty nextEnds =>
        obtain isEnd | leaves := ends.ends
        · exact nonempty (List.append_eq_nil_iff.1 isEnd).1
        · exact nextEnds.stays [] nextRun rfl nonempty leaves

/-! ## Spans -/

/-- Whether some spans follow each other without a gap from a byte on up to another one. -/
def Tiles : Nat → List Span → Nat → Prop
  | start, [], stop => start = stop
  | start, span :: rest, stop => span.start = start ∧ start < span.stop ∧ Tiles span.stop rest stop

theorem tiles_spansFrom
    {segments : List Segment}
    (nonempty : ∀ segment ∈ segments, segment.text ≠ [])
    (start : Nat) :
    Tiles start (spansFrom start segments)
      (start + Text.byteLength (segments.flatMap Segment.text)) := by
  induction segments generalizing start with
  | nil => rfl
  | cons segment rest inductionHypothesis =>
      obtain ⟨here, further⟩ := List.forall_mem_cons.1 nonempty
      rw [List.flatMap_cons, Text.byteLength_append, ← Nat.add_assoc]
      exact ⟨rfl, Nat.lt_add_of_pos_right (Text.byteLength_pos here), inductionHypothesis further _⟩

theorem map_kind_spansFrom
    (start : Nat)
    (segments : List Segment) :
    (spansFrom start segments).map Span.kind = segments.map Segment.kind := by
  induction segments generalizing start with
  | nil => rfl
  | cons segment rest inductionHypothesis =>
      exact congrArg (segment.kind :: ·) (inductionHypothesis _)

/-- Every span is the place of a segment, behind the segments in front of it. -/
theorem exists_segment_of_mem_spansFrom
    {start : Nat}
    {segments : List Segment}
    {span : Span}
    (member : span ∈ spansFrom start segments) :
    ∃ before segment behind, segments = before ++ segment :: behind ∧
      span = ⟨segment.kind, start + Text.byteLength (before.flatMap Segment.text),
        start + Text.byteLength (before.flatMap Segment.text ++ segment.text)⟩ := by
  induction segments generalizing start with
  | nil => contradiction
  | cons first rest inductionHypothesis =>
      obtain rfl | inRest := List.mem_cons.1 member
      · exact ⟨[], first, rest, rfl, rfl⟩
      · obtain ⟨before, segment, behind, rfl, rfl⟩ := inductionHypothesis inRest
        refine ⟨first :: before, segment, behind, rfl, ?_⟩
        simp only [List.flatMap_cons, Text.byteLength_append, Nat.add_assoc]

/--
Whether a span of a text lies between characters, as the place of a segment
that is cut from the text behind the segments in front of it.
-/
def Span.IsCutFrom (text : Text) (span : Span) : Prop :=
  ∃ before segment behind, segments text = before ++ segment :: behind ∧
    text = before.flatMap Segment.text ++ (segment.text ++ behind.flatMap Segment.text) ∧
    span = ⟨segment.kind, Text.byteLength (before.flatMap Segment.text),
      Text.byteLength (before.flatMap Segment.text ++ segment.text)⟩ ∧
    IsCut (before.foldl Segment.depthBehind 0) (before.flatMap Segment.text).getLast?
      (behind.flatMap Segment.text) segment

/--
The spans of a text are nonempty and follow each other without a gap from its
start to its end, no two of code follow each other, and each of them ends where
the string, the comment or the code that begins there ends.
-/
theorem spans_tile_and_are_cut (text : Text) :
    Tiles 0 (spans text) text.byteLength ∧
      ((spans text).map Span.kind).IsChain (fun kind next => kind = .code → next ≠ .code) ∧
      ∀ span ∈ spans text, span.IsCutFrom text := by
  refine ⟨?_, ?_, fun span member => ?_⟩
  · have nonempty : ∀ segment ∈ segments text, segment.text ≠ [] := by
      intro segment member
      obtain ⟨before, behind, split⟩ := List.append_of_mem member
      exact (isCut_of_segments_eq split).text_ne_nil
    have tiles := tiles_spansFrom nonempty 0
    rwa [flatMap_text_segments, Nat.zero_add] at tiles
  · rw [spans, map_kind_spansFrom, List.isChain_map,
      List.isChain_iff_forall_rel_of_append_cons_cons]
    intro segment next before behind split
    exact kind_ne_code_of_segments_eq split
  · obtain ⟨before, segment, behind, split, rfl⟩ := exists_segment_of_mem_spansFrom member
    refine ⟨before, segment, behind, split, ?_, ?_, isCut_of_segments_eq split⟩
    · rw [← List.flatMap_cons, ← List.flatMap_append, ← split, flatMap_text_segments]
    · rw [Nat.zero_add, Nat.zero_add]

theorem spans_tile_and_are_cut_sample :
    (⟨.string, 3, 9⟩ : Span) ∈ spans "a: \"\\\"ä\"// b" ∧
      (⟨.string, 3, 9⟩ : Span).IsCutFrom "a: \"\\\"ä\"// b" :=
  have member : (⟨.string, 3, 9⟩ : Span) ∈ spans "a: \"\\\"ä\"// b" := by decide
  ⟨member, (spans_tile_and_are_cut _).2.2 _ member⟩

end Source
end LessTheme
