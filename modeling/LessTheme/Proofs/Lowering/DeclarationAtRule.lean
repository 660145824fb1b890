import LessTheme.Proofs.Lowering.ForeignKeyword
import LessTheme.Proofs.Lowering.Growth
import LessTheme.Proofs.Program.OverrideLayer
import LessTheme.Proofs.Text.Lines
import Mathlib.Data.List.Infix

/-!
# Declarations and at-rules

At-rules are looked for at every at sign of code outside all blocks, also in
the values of declarations.  The at sign of a declaration is never mistaken for
that of an at-rule if only ASCII white space stands before the colon.  An at
sign in a value is mistaken exactly if it stands as code and a keyword follows.
-/

namespace LessTheme
namespace Lowering

open Source

/-! ## At signs in front of their declarations -/

/-- Every line of a source declares a variable, and no brace stands in its value. -/
def AreDeclarations (source : Text) : Prop :=
  ∀ line ∈ source.lines, ∃ declaration ∈ declaration? line,
    '{' ∉ declaration.value ∧ '}' ∉ declaration.value

instance (source : Text) : Decidable (AreDeclarations source) :=
  inferInstanceAs (Decidable (∀ line ∈ source.lines, ∃ declaration ∈ declaration? line, _ ∧ _))

theorem cutAtRules_eq_self_iff {source : Text} :
    cutAtRules source = ⟨source, []⟩ ↔ HasNoForeignAtRule source := by
  rw [← atRules_cutAtRules_eq_nil_iff]
  constructor
  · intro same
    rw [same]
  · intro idle
    have parts : cutAtRules source =
        ⟨(cutAtRules source).source, (cutAtRules source).atRules⟩ := rfl
    rw [parts, source_cutAtRules_eq_self idle, idle]

/-- An at sign that no colon precedes on the line of a declaration is the one of the declaration. -/
theorem further_eq_of_not_mem
    {line : Text}
    {declaration : Declaration}
    {lead gap written behind : Text}
    (divided : IsDividedInto line declaration lead gap written behind)
    {before further : Text}
    (split : line = before ++ '@' :: further)
    (noColon : ':' ∉ before) :
    further = declaration.name ++ (gap ++ ':' :: (written ++ ';' :: behind)) := by
  rw [divided.line_eq, List.append_eq_append_iff] at split
  obtain ⟨others, rfl, split⟩ | ⟨others, leadEq, split⟩ := split
  case inr =>
    cases others with
    | nil => exact (List.cons.inj split).2
    | cons char others =>
        obtain ⟨rfl, -⟩ := List.cons.inj split
        exact absurd (leadEq ▸ List.mem_append_cons_self)
          (not_mem_of_forall_isWhiteSpace divided.leadBlank rfl)
  case inl =>
    cases others with
    | nil => exact (List.cons.inj split).2.symm
    | cons char others =>
        -- The at sign would stand in the name or in the white space behind it.
        rw [List.cons_append] at split
        have inside := (List.cons.inj split).2
        rw [← List.append_assoc, List.append_eq_append_iff] at inside
        obtain ⟨more, rfl, behindName⟩ | ⟨more, nameEq, behindSign⟩ := inside
        · cases more with
          | nil => exact absurd (List.cons.inj behindName).1 (by decide)
          | cons mark more =>
              obtain ⟨rfl, -⟩ := List.cons.inj behindName
              simp at noColon
        · cases more with
          | nil => exact absurd (List.cons.inj behindSign).1 (by decide)
          | cons mark more =>
              obtain ⟨rfl, -⟩ := List.cons.inj behindSign
              have member : '@' ∈ declaration.name ++ gap := nameEq ▸ List.mem_append_cons_self
              obtain inName | inGap := List.mem_append.1 member
              · exact absurd (divided.named _ inName) (by decide)
              · exact absurd inGap (not_mem_of_forall_isWhiteSpace divided.gapBlank rfl)

/-- A source of declarations stays as it is, if no foreign at-rule begins behind a colon. -/
theorem hasNoForeignAtRule_of_areDeclarations
    {source : Text}
    (declares : AreDeclarations source)
    (plainGaps : ∀ line ∈ source.lines, ∀ declaration ∈ declaration? line,
      hasForeignGap line declaration = false)
    (inFront : ∀ place < source.length, startsForeignAtRule ((cells source).drop place) = true →
      ':' ∉ (source.take place).rtakeWhile (· != '\n')) :
    HasNoForeignAtRule source := by
  intro front rule split _ starts
  exfalso
  cases rule with
  | nil => contradiction
  | cons cell others =>
      have sourceEq : source = chars front ++ chars (cell :: others) := by
        rw [← chars_append, ← split, chars_cells]
      have noColon : ':' ∉ (chars front).rtakeWhile (· != '\n') := by
        have noColon := inFront front.length
        rw [split, List.drop_left, sourceEq, ← length_chars front, List.take_left] at noColon
        exact noColon (by simp [chars]) starts
      rw [startsForeignAtRule, Bool.and_eq_true] at starts
      obtain ⟨isAt, starts⟩ := starts
      have whole : source = (chars front).rdropWhile (· != '\n') ++
          ((chars front).rtakeWhile (· != '\n') ++ '@' :: chars others) := by
        rw [← List.append_assoc, List.rdropWhile_append_rtakeWhile, ← Cell.char_of_isCode isAt]
        exact sourceEq
      have isStart : (chars front).rdropWhile (· != '\n') = [] ∨
          ((chars front).rdropWhile (· != '\n')).getLast? = some '\n' := by
        by_cases isEmpty : (chars front).rdropWhile (· != '\n') = []
        · exact Or.inl isEmpty
        · have stops := List.rdropWhile_last_not (· != '\n') (chars front) isEmpty
          rw [List.getLast?_eq_some_getLast isEmpty]
          exact Or.inr (congrArg some (by simpa using stops))
      have noFeed : '\n' ∉ (chars front).rtakeWhile (· != '\n') := fun member =>
        absurd (List.mem_rtakeWhile_imp member) (by decide)
      have noEnd : '@' ≠ '\n' ∧ '@' ≠ '\r' := by decide
      obtain ⟨further, rest, othersEq, isLine⟩ :=
        Text.exists_mem_lines_append isStart noFeed noEnd (chars others)
      rw [← whole] at isLine
      obtain ⟨declaration, declared, -⟩ := declares _ isLine
      obtain ⟨lead, gap, written, behind, divided⟩ := exists_isDividedInto declared
      rw [othersEq, further_eq_of_not_mem divided rfl noColon, List.append_assoc, List.append_assoc,
        List.cons_append, any_startsWithKeyword_of_isDividedInto divided,
        plainGaps _ isLine declaration declared] at starts
      contradiction

/-! ## At signs in values -/

/-- No foreign at-rule begins in the code of a text. -/
def StartsNoForeignAtRule (text : Text) : Prop :=
  ∀ rule ∈ (cells text).tails, startsForeignAtRule rule = false

instance (text : Text) : Decidable (StartsNoForeignAtRule text) :=
  inferInstanceAs (Decidable (∀ rule ∈ (cells text).tails, startsForeignAtRule rule = false))

/--
All that begins in the value of a declaration ends there, and behind its
semicolon stand only white space and comments that end with the line.
-/
structure IsClosedDeclaration (line : Text) (declaration : Declaration) : Prop where
  closed : IsClosed declaration.value
  quiet : ∀ cell ∈ cells (behindSemicolon line),
    isWhiteSpace cell.char = true ∨ cell.isComment = true
  ends : Mode.initial.after (behindSemicolon line) none = .initial ∨
    Mode.initial.after (behindSemicolon line) none = .lineComment

instance (line : Text) (declaration : Declaration) :
    Decidable (IsClosedDeclaration line declaration) :=
  decidable_of_iff
    (IsClosed declaration.value ∧
      (∀ cell ∈ cells (behindSemicolon line),
        isWhiteSpace cell.char = true ∨ cell.isComment = true) ∧
      (Mode.initial.after (behindSemicolon line) none = .initial ∨
        Mode.initial.after (behindSemicolon line) none = .lineComment))
    ⟨fun ⟨closed, quiet, ends⟩ => ⟨closed, quiet, ends⟩,
      fun closed => ⟨closed.closed, closed.quiet, closed.ends⟩⟩

/-- No foreign at-rule that has an end begins in some cells, outside all blocks. -/
def CutsNothing (cells : List Cell) : Prop :=
  ∀ front rule, cells = front ++ rule → front.foldl blockDepth 0 = 0 →
    startsForeignAtRule rule = true → atRule? rule = none

theorem cutsNothing_nil : CutsNothing [] := by
  intro front rule split _ starts
  rw [(List.append_eq_nil_iff.1 split.symm).2] at starts
  contradiction

theorem cutsNothing_cons_iff
    {cell : Cell}
    {rest : List Cell}
    (noBrace : cell.isCode '{' = false) :
    CutsNothing (cell :: rest) ↔
      (startsForeignAtRule (cell :: rest) = true → atRule? (cell :: rest) = none) ∧
        CutsNothing rest := by
  have outside : blockDepth 0 cell = 0 := by simp [blockDepth, noBrace]
  constructor
  · intro cuts
    refine ⟨cuts [] _ rfl rfl, fun front rule split depth => cuts (cell :: front) rule ?_ ?_⟩
    · rw [split, List.cons_append]
    · rwa [List.foldl_cons, outside]
  · rintro ⟨here, further⟩ front rule split depth
    cases front with
    | nil =>
        rw [List.nil_append] at split
        exact split ▸ here
    | cons first front =>
        obtain ⟨rfl, restSplit⟩ := List.cons.inj split
        rw [List.foldl_cons, outside] at depth
        exact further front rule restSplit depth

/-- A cell is no at sign and no opening brace of code. -/
def IsQuiet (cell : Cell) : Prop := cell.isCode '@' = false ∧ cell.isCode '{' = false

theorem isQuiet_of_char_ne
    {cell : Cell}
    (noMark : cell.char ≠ '@' ∧ cell.char ≠ '{') :
    IsQuiet cell := by
  simp [IsQuiet, Cell.isCode, noMark]

theorem isQuiet_of_isWhiteSpace
    {cell : Cell}
    (blank : isWhiteSpace cell.char = true) :
    IsQuiet cell :=
  isQuiet_of_char_ne ⟨ne_of_isWhiteSpace blank rfl, ne_of_isWhiteSpace blank rfl⟩

theorem isQuiet_of_mem_spaces
    {text : Text}
    (blank : ∀ char ∈ text, isWhiteSpace char = true) :
    ∀ cell ∈ text.map Cell.ofCode, IsQuiet cell := by
  intro cell member
  obtain ⟨char, inText, rfl⟩ := List.mem_map.1 member
  exact isQuiet_of_isWhiteSpace (blank char inText)

theorem isQuiet_of_mem_name
    {name : Text}
    (named : ∀ char ∈ name, isNameChar char = true) :
    ∀ cell ∈ name.map Cell.ofCode, IsQuiet cell := by
  intro cell member
  obtain ⟨char, inName, rfl⟩ := List.mem_map.1 member
  have isName := named char inName
  refine isQuiet_of_char_ne ⟨?_, ?_⟩
  all_goals
    rintro (rfl : char = _)
    contradiction

theorem cutsNothing_append_iff_of_isQuiet
    {front : List Cell}
    (quiet : ∀ cell ∈ front, IsQuiet cell)
    (rest : List Cell) :
    CutsNothing (front ++ rest) ↔ CutsNothing rest := by
  induction front with
  | nil => rfl
  | cons cell front inductionHypothesis =>
      obtain ⟨here, further⟩ := List.forall_mem_cons.1 quiet
      rw [List.cons_append, cutsNothing_cons_iff here.2, inductionHypothesis further]
      simp [startsForeignAtRule, here.1]

/-- In front of a semicolon every at-rule has an end. -/
theorem atRule?_append_ne_none
    {front : List Cell}
    (noBrace : ∀ cell ∈ front, cell.isCode '{' = false)
    (rest : List Cell) :
    atRule? (front ++ .ofCode ';' :: rest) ≠ none := by
  have stops : ∃ stop behind, ((front ++ .ofCode ';' :: rest).dropWhile fun cell =>
      !endsAtRuleHead cell) = stop :: behind ∧ stop.char = ';' := by
    induction front with
    | nil => exact ⟨.ofCode ';', rest, rfl, rfl⟩
    | cons cell front inductionHypothesis =>
        obtain ⟨here, further⟩ := List.forall_mem_cons.1 noBrace
        rw [List.cons_append]
        cases ends : endsAtRuleHead cell with
        | true =>
            rw [endsAtRuleHead, here, Bool.false_or] at ends
            refine ⟨cell, _, List.dropWhile_cons_of_neg ?_, Cell.char_of_isCode ends⟩
            simp [endsAtRuleHead, ends]
        | false =>
            rw [List.dropWhile_cons_of_pos (by simp [ends])]
            exact inductionHypothesis further
  obtain ⟨stop, behind, dropped, isSemicolon⟩ := stops
  simp [atRule?, dropped, isSemicolon]

/-- In a value in front of a semicolon an at-rule is cut out wherever one begins. -/
theorem cutsNothing_append_iff
    {value : List Cell}
    {spaces : Text}
    (noBrace : ∀ cell ∈ value, cell.isCode '{' = false)
    (blank : ∀ char ∈ spaces, isWhiteSpace char = true)
    (rest : List Cell) :
    CutsNothing (value ++ (spaces.map .ofCode ++ .ofCode ';' :: rest)) ↔
      (∀ rule ∈ value.tails, startsForeignAtRule rule = false) ∧ CutsNothing rest := by
  have quiet := isQuiet_of_mem_spaces blank
  induction value with
  | nil =>
      rw [List.nil_append, cutsNothing_append_iff_of_isQuiet quiet, cutsNothing_cons_iff rfl]
      simp [startsForeignAtRule, Cell.isCode, Cell.ofCode]
  | cons cell value inductionHypothesis =>
      have hasEnd :
          atRule? (cell :: value ++ (spaces.map .ofCode ++ .ofCode ';' :: rest)) ≠ none := by
        rw [← List.append_assoc]
        exact atRule?_append_ne_none
          (List.forall_mem_append.2 ⟨noBrace, fun cell member => (quiet cell member).2⟩) rest
      have blankChars : ∀ char ∈ chars (spaces.map .ofCode), isWhiteSpace char = true := by
        rwa [chars_map_ofCode]
      have sameStart := startsForeignAtRule_append (List.cons_ne_nil cell value) blankChars rest
      obtain ⟨here, further⟩ := List.forall_mem_cons.1 noBrace
      rw [List.cons_append] at hasEnd sameStart ⊢
      rw [cutsNothing_cons_iff here, sameStart, List.tails_cons, List.forall_mem_cons, and_assoc,
        ← Bool.not_eq_true]
      exact and_congr (imp_congr_right fun _ => iff_false_intro hasEnd)
        (inductionHypothesis further)

/-! ## Reading a declaration -/

/-- A line end is read as code, and code follows. -/
theorem read_lineEnd
    {mode : Mode}
    (isOutside : mode = .initial ∨ mode = .lineComment)
    {ending : Text}
    (isEnding : ending = ['\n'] ∨ ending = ['\r', '\n'])
    (rest : Text) :
    ∃ ends : List Cell, (∀ cell ∈ ends, isWhiteSpace cell.char = true) ∧
      mode.cells (ending ++ rest) = ends ++ cells rest := by
  obtain rfl | rfl := isOutside <;> obtain rfl | rfl := isEnding
  · exact ⟨[.ofCode '\n'], by decide, rfl⟩
  · exact ⟨[.ofCode '\r', .ofCode '\n'], by decide, rfl⟩
  · exact ⟨[.ofCode '\n'], by decide, rfl⟩
  · exact ⟨[⟨'\r', .lineComment, false⟩, .ofCode '\n'], by decide, rfl⟩

/-- White space and comments behind a declaration are read as such. -/
theorem exists_cells_behind
    {line : Text}
    {declaration : Declaration}
    (closed : IsClosedDeclaration line declaration)
    {ending rest : Text}
    (isEnding : ending = [] ∧ rest = [] ∨ ending = ['\n'] ∨ ending = ['\r', '\n']) :
    ∃ tail : List Cell, (∀ cell ∈ tail, IsQuiet cell) ∧
      cells (behindSemicolon line ++ (ending ++ rest)) = tail ++ cells rest := by
  have quiet : ∀ cell ∈ cells (behindSemicolon line), IsQuiet cell := by
    intro cell member
    obtain blank | isComment := closed.quiet cell member
    · exact isQuiet_of_isWhiteSpace blank
    · have noCode : cell.kind ≠ .code := by
        intro isCode
        simp [Cell.isComment, isCode] at isComment
      simp [IsQuiet, Cell.isCode, noCode]
  obtain ⟨rfl, rfl⟩ | isEnding := isEnding
  · exact ⟨_, quiet, by simp [cells, Mode.cells]⟩
  · have joins : Mode.Joins (behindSemicolon line) (ending ++ rest).head? := by
      intro _
      obtain rfl | rfl := isEnding
      all_goals exact ⟨by simp, by simp⟩
    obtain ⟨sameCells, sameMode, -⟩ := Mode.initial.reads_of_joins joins
    obtain ⟨ends, blank, readsEnd⟩ := read_lineEnd closed.ends isEnding rest
    refine ⟨cells (behindSemicolon line) ++ ends, ?_, ?_⟩
    · exact List.forall_mem_append.2 ⟨quiet, fun cell member =>
        isQuiet_of_isWhiteSpace (blank cell member)⟩
    · rw [cells, Mode.cells_append, sameCells, sameMode, readsEnd, List.append_assoc]
      rfl

/-- A declaration is read in its parts, and code follows its semicolon. -/
theorem cells_declaration
    {line : Text}
    {declaration : Declaration}
    {lead gap written behind : Text}
    (divided : IsDividedInto line declaration lead gap written behind)
    (closed : IsClosed declaration.value)
    (rest : Text) :
    ∃ before after : Text, (∀ char ∈ before, isWhiteSpace char = true) ∧
      (∀ char ∈ after, isWhiteSpace char = true) ∧
      cells (line ++ rest) = lead.map .ofCode ++ .ofCode '@' ::
        ((declaration.name ++ (gap ++ ':' :: before)).map .ofCode ++
          (cells declaration.value ++ (after.map .ofCode ++
            .ofCode ';' :: cells (behind ++ rest)))) := by
  have reads : ReadsAs written.trim (cells declaration.value) := by
    rw [divided.trimmed]
    exact ⟨closed, rfl⟩
  obtain ⟨before, after, beforeBlank, afterBlank, writtenReads⟩ := reads.of_trim
  have inert : IsInert (lead ++ '@' :: (declaration.name ++ gap)) := by
    intro char member
    rw [List.mem_append, List.mem_cons, List.mem_append] at member
    obtain inLead | rfl | inName | inGap := member
    · exact isInert_of_forall_isWhiteSpace divided.leadBlank char inLead
    · decide
    · exact isInert_of_forall_isNameChar divided.named char inName
    · exact isInert_of_forall_isWhiteSpace divided.gapBlank char inGap
  have split : line ++ rest = (lead ++ '@' :: (declaration.name ++ gap)) ++
      ':' :: (written ++ ';' :: (behind ++ rest)) := by
    rw [divided.line_eq]
    simp
  have colon (next : Option Char) :
      (Mode.code 0 false).read ':' next = (.ofCode ':', .code 0 true) := by
    simp [Mode.read, parenthesisDepth, Cell.ofCode]
  obtain ⟨-, nameCells, behindName⟩ := inert.read 0 false (some ':')
  have joins : Mode.Joins written (some ';') := fun _ => ⟨by decide, by decide⟩
  obtain ⟨-, valueCells, colonLast, behindValue⟩ := writtenReads.1.read joins 0 true
  have semicolon (next : Option Char) :
      (Mode.code 0 colonLast).read ';' next = (.ofCode ';', .initial) :=
    Mode.read_of_not_mem_specialChars (by decide) 0 colonLast next
  refine ⟨before, after, beforeBlank, afterBlank, ?_⟩
  rw [split, cells, Mode.initial, Mode.cells_append, List.head?_cons, nameCells, behindName,
    Bool.false_and, Mode.cells, colon, Mode.cells_append, List.head?_cons, valueCells, behindValue,
    writtenReads.2, Mode.cells, semicolon]
  simp [cells, List.append_assoc]

/-- A line is cut exactly if its own at sign or one in its value begins a foreign at-rule. -/
theorem hasNoForeignAtRule_append_iff
    {line : Text}
    {declaration : Declaration}
    (declared : declaration? line = some declaration)
    (noBrace : '{' ∉ declaration.value)
    (closed : IsClosedDeclaration line declaration)
    {ending rest : Text}
    (isEnding : ending = [] ∧ rest = [] ∨ ending = ['\n'] ∨ ending = ['\r', '\n']) :
    HasNoForeignAtRule (line ++ (ending ++ rest)) ↔
      (hasForeignGap line declaration = false ∧ StartsNoForeignAtRule declaration.value) ∧
        HasNoForeignAtRule rest := by
  obtain ⟨lead, gap, written, behind, divided⟩ := exists_isDividedInto declared
  obtain ⟨tail, quiet, behindCells⟩ := exists_cells_behind closed isEnding
  obtain ⟨before, after, beforeBlank, afterBlank, lineCells⟩ :=
    cells_declaration divided closed.closed (ending ++ rest)
  rw [divided.behindSemicolon_eq] at behindCells
  rw [behindCells] at lineCells
  have nameQuiet : ∀ cell ∈ (declaration.name ++ (gap ++ ':' :: before)).map Cell.ofCode,
      IsQuiet cell := by
    rw [List.map_append, List.map_append, List.map_cons]
    refine List.forall_mem_append.2 ⟨isQuiet_of_mem_name divided.named, List.forall_mem_append.2
      ⟨isQuiet_of_mem_spaces divided.gapBlank, List.forall_mem_cons.2 ⟨⟨rfl, rfl⟩, ?_⟩⟩⟩
    exact isQuiet_of_mem_spaces beforeBlank
  have valueNoBrace : ∀ cell ∈ cells declaration.value, cell.isCode '{' = false := by
    intro cell member
    rw [Bool.eq_false_iff]
    intro isBrace
    apply noBrace
    rw [← chars_cells declaration.value, ← Cell.char_of_isCode isBrace]
    exact List.mem_map_of_mem member
  -- The semicolon of the declaration ends the at-rule that its at sign begins.
  have noBraces : ∀ cell ∈ .ofCode '@' ::
      ((declaration.name ++ (gap ++ ':' :: before)).map .ofCode ++
        (cells declaration.value ++ after.map .ofCode)), cell.isCode '{' = false := by
    refine List.forall_mem_cons.2 ⟨rfl, List.forall_mem_append.2
      ⟨fun cell member => (nameQuiet cell member).2, List.forall_mem_append.2 ⟨valueNoBrace, ?_⟩⟩⟩
    exact fun cell member => (isQuiet_of_mem_spaces afterBlank cell member).2
  have hasEnd := atRule?_append_ne_none noBraces (tail ++ cells rest)
  rw [List.cons_append, List.append_assoc, List.append_assoc] at hasEnd
  have sameStart : startsForeignAtRule (.ofCode '@' ::
      ((declaration.name ++ (gap ++ ':' :: before)).map .ofCode ++
        (cells declaration.value ++ (after.map .ofCode ++ .ofCode ';' :: (tail ++ cells rest))))) =
      hasForeignGap line declaration := by
    rw [startsForeignAtRule, chars_append, chars_map_ofCode, List.append_assoc, List.append_assoc,
      List.cons_append, any_startsWithKeyword_of_isDividedInto divided]
    rfl
  change CutsNothing (cells _) ↔
    (_ ∧ ∀ rule ∈ (cells declaration.value).tails, _) ∧ CutsNothing (cells rest)
  rw [lineCells, cutsNothing_append_iff_of_isQuiet (isQuiet_of_mem_spaces divided.leadBlank),
    cutsNothing_cons_iff rfl, sameStart, cutsNothing_append_iff_of_isQuiet nameQuiet,
    cutsNothing_append_iff valueNoBrace afterBlank, cutsNothing_append_iff_of_isQuiet quiet,
    and_assoc, ← Bool.not_eq_true]
  exact and_congr_left' (imp_congr_right fun _ => iff_false_intro hasEnd)

/-! ## Sources of declarations -/

/-- Of closed declarations those are cut of which an at sign begins a foreign at-rule. -/
theorem hasNoForeignAtRule_iff_of_areDeclarations
    {source : Text}
    (declares : AreDeclarations source)
    (closed : ∀ line ∈ source.lines, ∀ declaration ∈ declaration? line,
      IsClosedDeclaration line declaration) :
    HasNoForeignAtRule source ↔
      ∀ line ∈ source.lines, ∀ declaration ∈ declaration? line,
        hasForeignGap line declaration = false ∧ StartsNoForeignAtRule declaration.value := by
  induction length : source.length using Nat.strong_induction_on generalizing source with
  | _ count inductionHypothesis =>
  subst length
  by_cases isEmpty : source = []
  · subst isEmpty
    exact iff_of_true cutsNothing_nil (by simp)
  · obtain ⟨line, ending, rest, split, linesEq, -, isEnding⟩ := Text.exists_first_line isEmpty
    rw [AreDeclarations, linesEq, List.forall_mem_cons] at declares
    rw [linesEq, List.forall_mem_cons] at closed
    obtain ⟨⟨declaration, declared, noBrace, -⟩, restDeclares⟩ := declares
    have shorter : rest.length < source.length := by
      have lengths := congrArg List.length split
      have positive := List.length_pos_of_ne_nil isEmpty
      rw [List.length_append, List.length_append] at lengths
      obtain ⟨rfl, rfl⟩ | rfl | rfl := isEnding
      · exact positive
      · simp only [List.length_cons, List.length_nil] at lengths
        omega
      · simp only [List.length_cons, List.length_nil] at lengths
        omega
    rw [split, hasNoForeignAtRule_append_iff declared noBrace (closed.1 _ declared) isEnding,
      inductionHypothesis _ shorter restDeclares closed.2 rfl, ← split, linesEq,
      List.forall_mem_cons]
    apply and_congr_left'
    constructor
    · intro here other isOther
      obtain rfl := Option.some.inj (declared.symm.trans isOther)
      exact here
    · exact fun here => here declaration declared

section Layer

variable {overrides : Overrides}

/-- The layer of overrides on one line each has one line for every declaration. -/
theorem lines_layer
    (oneLine : ∀ entry ∈ overrides.entries, '\n' ∉ entry.2) :
    overrides.layer.lines = (SortedMap.ofList overrides.assigned).entries.map
      fun entry => Overrides.declarationLine entry.1 entry.2 := by
  rw [Overrides.layer_eq_intercalate]
  apply Text.lines_intercalate
  all_goals
    intro line isLine
    obtain ⟨entry, member, rfl⟩ := List.mem_map.1 isLine
  · exact List.cons_ne_nil _ _
  · exact Overrides.lineFeed_not_mem_declarationLine
      (Overrides.isWritable_of_mem_written oneLine member)
  · rw [Overrides.getLast?_declarationLine]
    decide

theorem isNameStart_of_mem_written
    (oneLine : ∀ entry ∈ overrides.entries, '\n' ∉ entry.2)
    (noDigit : ∀ entry ∈ overrides.entries, (cleanName entry.1).head?.any Char.isDigit = false)
    {entry : Text × Text}
    (member : entry ∈ (SortedMap.ofList overrides.assigned).entries) :
    entry.1.head?.any isNameStart = true := by
  have writable := Overrides.isWritable_of_mem_written oneLine member
  obtain ⟨source, isSource, kept⟩ :=
    List.mem_filterMap.1 (SortedMap.mem_of_mem_entries_ofList member)
  obtain ⟨rfl, nonempty, -⟩ := Overrides.kept?_eq_some_iff.1 kept
  have noDigit := noDigit source isSource
  obtain ⟨first, others, isName⟩ := List.exists_cons_of_ne_nil nonempty
  have isNameChar := writable.clean first (isName ▸ List.mem_cons_self)
  rw [isName, List.head?_cons, Option.any_some] at noDigit ⊢
  simpa [isNameStart, LessTheme.isNameChar, Char.isAlphanum, noDigit] using isNameChar

/-- The line of an override is read back as its name and its value. -/
theorem declaration?_declarationLine_of_mem_written
    (oneLine : ∀ entry ∈ overrides.entries, '\n' ∉ entry.2)
    (noDigit : ∀ entry ∈ overrides.entries, (cleanName entry.1).head?.any Char.isDigit = false)
    {entry : Text × Text}
    (member : entry ∈ (SortedMap.ofList overrides.assigned).entries) :
    declaration? (Overrides.declarationLine entry.1 entry.2) = some ⟨entry.1, entry.2⟩ := by
  have writable := Overrides.isWritable_of_mem_written oneLine member
  rw [declaration?_declarationLine writable.clean writable.trimmed (writable.not_mem rfl),
    if_pos (isNameStart_of_mem_written oneLine noDigit member)]

/-- The overrides on one line each are written as declarations that keep their at signs. -/
theorem areDeclarations_layer
    (oneLine : ∀ entry ∈ overrides.entries, '\n' ∉ entry.2)
    (noDigit : ∀ entry ∈ overrides.entries, (cleanName entry.1).head?.any Char.isDigit = false) :
    AreDeclarations overrides.layer ∧
      ∀ line ∈ overrides.layer.lines, ∀ declaration ∈ declaration? line,
        hasForeignGap line declaration = false := by
  rw [AreDeclarations, lines_layer oneLine, List.forall_mem_map, List.forall_mem_map]
  constructor
  · intro entry member
    have writable := Overrides.isWritable_of_mem_written oneLine member
    exact ⟨_, declaration?_declarationLine_of_mem_written oneLine noDigit member,
      writable.not_mem rfl, writable.not_mem rfl⟩
  · intro entry member declaration _
    have writable := Overrides.isWritable_of_mem_written oneLine member
    rw [hasForeignGap, nameGap_declarationLine writable.clean, List.any_nil, Bool.and_false]

/-- Nothing stands behind the semicolon of an override. -/
theorem isClosedDeclaration_of_mem_written
    {entry : Text × Text}
    (member : entry ∈ (SortedMap.ofList overrides.assigned).entries)
    (closed : IsClosed entry.2) :
    IsClosedDeclaration (Overrides.declarationLine entry.1 entry.2) ⟨entry.1, entry.2⟩ := by
  have kept := Overrides.isKept_of_mem_written member
  have noName : ';' ∉ entry.1 := fun inside => absurd (kept.clean _ inside) (by decide)
  have noValue : ';' ∉ entry.2 := kept.not_mem rfl
  have behind : behindSemicolon (Overrides.declarationLine entry.1 entry.2) = [] := by
    have inFront : ∀ char ∈ '@' :: (entry.1 ++ ": " ++ entry.2), (char != ';') = true := by
      intro char member
      rw [bne_iff_ne]
      rintro rfl
      simp [noName, noValue] at member
    have line : Overrides.declarationLine entry.1 entry.2 =
        '@' :: (entry.1 ++ ": " ++ entry.2) ++ [';'] := rfl
    rw [behindSemicolon, line, List.dropWhile_append_of_pos inFront]
    rfl
  exact ⟨closed, by simp [behind, cells, Mode.cells], by rw [behind]; exact .inl rfl⟩

/--
The layer of overrides whose values close what they open is left as it is
exactly if no foreign at-rule begins in the code of a value.
-/
theorem cutAtRules_layer_iff
    (oneLine : ∀ entry ∈ overrides.entries, '\n' ∉ entry.2)
    (noDigit : ∀ entry ∈ overrides.entries, (cleanName entry.1).head?.any Char.isDigit = false)
    (closed : ∀ entry ∈ (SortedMap.ofList overrides.assigned).entries, IsClosed entry.2) :
    cutAtRules overrides.layer = ⟨overrides.layer, []⟩ ↔
      ∀ entry ∈ (SortedMap.ofList overrides.assigned).entries,
        StartsNoForeignAtRule entry.2 := by
  obtain ⟨declares, plainGaps⟩ := areDeclarations_layer oneLine noDigit
  have readBack : ∀ entry ∈ (SortedMap.ofList overrides.assigned).entries,
      declaration? (Overrides.declarationLine entry.1 entry.2) = some ⟨entry.1, entry.2⟩ :=
    fun _ => declaration?_declarationLine_of_mem_written oneLine noDigit
  have closedLines : ∀ line ∈ overrides.layer.lines, ∀ declaration ∈ declaration? line,
      IsClosedDeclaration line declaration := by
    rw [lines_layer oneLine, List.forall_mem_map]
    intro entry member declaration declared
    obtain rfl := Option.some.inj ((readBack entry member).symm.trans declared)
    exact isClosedDeclaration_of_mem_written member (closed entry member)
  rw [cutAtRules_eq_self_iff, hasNoForeignAtRule_iff_of_areDeclarations declares closedLines]
  constructor
  · intro none entry member
    have isLine : Overrides.declarationLine entry.1 entry.2 ∈ overrides.layer.lines := by
      rw [lines_layer oneLine]
      exact List.mem_map_of_mem member
    exact (none _ isLine _ (readBack entry member)).2
  · intro none line isLine declaration declared
    refine ⟨plainGaps line isLine declaration declared, ?_⟩
    rw [lines_layer oneLine] at isLine
    obtain ⟨entry, member, rfl⟩ := List.mem_map.1 isLine
    obtain rfl := Option.some.inj ((readBack entry member).symm.trans declared)
    exact none entry member

end Layer

/--
In a source of declarations without braces in their values nothing is cut out,
if a keyword as a name has only ASCII white space behind it and no foreign
at-rule begins as code behind the colon of its line.  If all that begins in
the values ends there and no comment goes beyond its line, nothing is cut out
exactly if no name is such a keyword with other white space behind it and no
foreign at-rule begins in the code of a value.
-/
theorem cutAtRules_declarations
    {source : Text}
    (declares : AreDeclarations source) :
    ((∀ line ∈ source.lines, ∀ declaration ∈ declaration? line,
          hasForeignGap line declaration = false) →
        (∀ place < source.length, startsForeignAtRule ((cells source).drop place) = true →
          ':' ∉ (source.take place).rtakeWhile (· != '\n')) →
        cutAtRules source = ⟨source, []⟩) ∧
      ((∀ line ∈ source.lines, ∀ declaration ∈ declaration? line,
          IsClosedDeclaration line declaration) →
        (cutAtRules source = ⟨source, []⟩ ↔
          ∀ line ∈ source.lines, ∀ declaration ∈ declaration? line,
            hasForeignGap line declaration = false ∧
              StartsNoForeignAtRule declaration.value)) := by
  constructor
  · intro plainGaps inFront
    rw [cutAtRules_eq_self_iff]
    exact hasNoForeignAtRule_of_areDeclarations declares plainGaps inFront
  · intro closed
    rw [cutAtRules_eq_self_iff]
    exact hasNoForeignAtRule_iff_of_areDeclarations declares closed

/-- Keywords as names, in longer names, in strings and in comments are left where they are. -/
theorem cutAtRules_declarations_keywords :
    cutAtRules "@layer: @scope-a;\n@b : \"@layer\" (@c); // @property\n@Scope:@d;/*@layer*/" =
        ⟨"@layer: @scope-a;\n@b : \"@layer\" (@c); // @property\n@Scope:@d;/*@layer*/", []⟩ ∧
      ∀ line ∈ Text.lines
          "@layer: @scope-a;\n@b : \"@layer\" (@c); // @property\n@Scope:@d;/*@layer*/",
        ∀ declaration ∈ declaration? line,
          hasForeignGap line declaration = false ∧ StartsNoForeignAtRule declaration.value := by
  have declares : AreDeclarations
      "@layer: @scope-a;\n@b : \"@layer\" (@c); // @property\n@Scope:@d;/*@layer*/" := by
    decide +kernel
  obtain ⟨kept, keptIff⟩ := cutAtRules_declarations declares
  have same := kept (by decide +kernel) (by decide +kernel)
  exact ⟨same, (keptIff (by decide +kernel)).1 same⟩

/-- A reference to a variable that is named as a keyword is cut out of its declaration. -/
theorem cutAtRules_declarations_reference :
    AreDeclarations "@a: @layer;" ∧
      cutAtRules "@a: @layer;" = ⟨"@a: /* themeweave:reinject 0 */", ["@layer;"]⟩ := by
  decide +kernel

end Lowering
end LessTheme
