import LessTheme.Proofs.Source.Nesting
import LessTheme.Proofs.Source.Part
import LessTheme.Proofs.Text.Trim

/-!
# Closed texts

A text is closed if everything that begins in it ends in it: parentheses,
brackets, strings and block comments.  Such a text is read the same inside
every code, and code goes on behind it in the same parentheses.  A call with
closed arguments is closed, and so are the trimmed pieces of a closed text
that a comma at top level divides in two.
-/

namespace LessTheme
namespace Source

/--
Everything that begins in a text ends in it.  No line comment begins in the
text, and no string in it ends with a line.
-/
structure IsClosed (text : Text) : Prop where
  isPlain : Mode.initial.isPlain text none = true
  endsInCode : (Mode.initial.after text none).isCode = true
  isBalanced : IsBalanced (cells text)

instance (text : Text) : Decidable (IsClosed text) :=
  decidable_of_iff
    (Mode.initial.isPlain text none = true ∧ (Mode.initial.after text none).isCode = true ∧
      Nesting.flat.behind? (cells text) = some .flat)
    ⟨fun ⟨isPlain, endsInCode, isBalanced⟩ => ⟨isPlain, endsInCode, isBalanced⟩,
      fun closed => ⟨closed.isPlain, closed.endsInCode, closed.isBalanced⟩⟩

/-! ## The parentheses that a mode remembers -/

namespace Nesting.Step

theorem eq_of_kind_ne_code
    {nesting next : Nesting}
    {cell : Cell}
    (step : Step cell nesting next)
    (noCode : cell.kind ≠ .code) :
    next = nesting := by
  cases step with
  | pass => rfl
  | openParenthesis | closeParenthesis | openBracket | closeBracket => contradiction

theorem parenthesisDepth_eq
    {nesting next : Nesting}
    {char : Char}
    {opens : Bool}
    (step : Step ⟨char, .code, opens⟩ nesting next)
    (outer : Nat) :
    parenthesisDepth (nesting.parentheses + outer) char = next.parentheses + outer := by
  cases step with
  | openParenthesis _ parentheses brackets => exact Nat.add_right_comm parentheses outer 1
  | closeParenthesis _ parentheses brackets =>
      rw [Nat.add_right_comm]
      rfl
  | openBracket | closeBracket => rfl
  | pass _ unmarked =>
      have isNoMark : ∀ mark ∈ marks, char ≠ mark := by
        rintro mark isMark rfl
        simpa [Cell.isCode] using unmarked _ isMark
      simp [parenthesisDepth, isNoMark _ (show '(' ∈ marks by decide),
        isNoMark _ (show ')' ∈ marks by decide), isNoMark _ (show '{' ∈ marks by decide),
        isNoMark _ (show '}' ∈ marks by decide)]

end Nesting.Step

namespace Mode

/-- Only code opens and closes parentheses; all else keeps what a mode remembers. -/
theorem depth_read
    {mode : Mode}
    {char : Char}
    {next : Option Char}
    (isPlain : mode.isPlainStep char next = true) :
    (mode.read char next).1 = ⟨char, .code, false⟩ ∧
        (mode.read char next).2.depth = parenthesisDepth mode.depth char ∨
      (mode.read char next).1.kind ≠ .code ∧ (mode.read char next).2.depth = mode.depth := by
  cases mode with
  | code depth afterColon =>
      have noLineComment :
          ¬(char = '/' ∧ next = some '/' ∧ depth = 0 ∧ afterColon = false) :=
        of_decide_eq_true isPlain
      rw [read, if_neg noLineComment]
      split_ifs
      · exact Or.inr ⟨by rintro ⟨⟩, rfl⟩
      · exact Or.inr ⟨by rintro ⟨⟩, rfl⟩
      · exact Or.inl ⟨rfl, rfl⟩
  | string quote depth =>
      right
      rw [read, if_neg (bne_iff_ne.1 isPlain)]
      split_ifs
      all_goals exact ⟨by rintro ⟨⟩, rfl⟩
  | comment depth afterStar =>
      right
      rw [read]
      split_ifs
      all_goals exact ⟨by rintro ⟨⟩, rfl⟩
  | escape | commentOpening => exact Or.inr ⟨by rintro ⟨⟩, rfl⟩
  | lineComment => contradiction

/-- A mode remembers the parentheses that are open around and inside. -/
theorem depth_after
    {mode : Mode}
    {text : Text}
    {next : Option Char}
    {nesting behind : Nesting}
    {outer : Nat}
    (isPlain : mode.isPlain text next = true)
    (run : nesting.behind? (mode.cellsBefore text next) = some behind)
    (depth : mode.depth = nesting.parentheses + outer) :
    (mode.after text next).depth = behind.parentheses + outer := by
  induction text generalizing mode nesting with
  | nil =>
      obtain rfl := Option.some.inj run
      exact depth
  | cons char rest inductionHypothesis =>
      rw [Mode.isPlain, Bool.and_eq_true] at isPlain
      obtain ⟨middle, step, restRun⟩ := Nesting.exists_step_of_behind?_cons run
      apply inductionHypothesis isPlain.2 restRun
      obtain ⟨isCode, counted⟩ | ⟨noCode, kept⟩ := depth_read isPlain.1
      · rw [isCode] at step
        rw [counted, depth, step.parenthesisDepth_eq]
      · rw [kept, depth, step.eq_of_kind_ne_code noCode]

end Mode

/-- No line comment begins in a plain text. -/
theorem Mode.kind_ne_lineComment_of_isPlain
    {mode : Mode}
    {text : Text}
    (isPlain : mode.isPlain text none = true) :
    ∀ cell ∈ mode.cells text, cell.kind ≠ .lineComment := by
  induction text generalizing mode with
  | nil => exact List.forall_mem_nil _
  | cons char rest inductionHypothesis =>
      rw [Mode.isPlain, Option.or_none, Bool.and_eq_true] at isPlain
      refine List.forall_mem_cons.2 ⟨?_, inductionHypothesis isPlain.2⟩
      cases mode with
      | code depth afterColon =>
          rw [Mode.read]
          split_ifs with isQuote isBlock isLine
          · simp
          · simp
          · exact absurd isLine (of_decide_eq_true isPlain.1)
          · simp
      | string quote depth | comment depth afterStar =>
          rw [Mode.read]
          split_ifs
          all_goals simp
      | escape | commentOpening => simp [Mode.read]
      | lineComment => exact absurd isPlain.1 Bool.false_ne_true

/-! ## Reading a closed text -/

namespace IsClosed

/-- A closed text is read the same inside every code. -/
theorem read
    {text : Text}
    {next : Option Char}
    (closed : IsClosed text)
    (joins : Mode.Joins text next)
    (depth : Nat)
    (afterColon : Bool) :
    (Mode.code depth afterColon).isPlain text next = true ∧
      (Mode.code depth afterColon).cellsBefore text next = cells text ∧
        ∃ colonLast, (Mode.code depth afterColon).after text next = .code depth colonLast := by
  obtain ⟨sameCells, sameMode, samePlain⟩ :=
    (Mode.code depth afterColon).reads_of_joins joins
  have deepens : Mode.Deepens .initial (.code depth afterColon) := .code (Nat.zero_le depth) nofun
  obtain ⟨isPlain, cells_eq, modesDeepen⟩ := deepens.reads closed.isPlain
  rw [Mode.cellsBefore_none, Mode.cellsBefore_none] at cells_eq
  have endsInCode : ((Mode.code depth afterColon).after text none).isCode = true := by
    rw [← modesDeepen.isCode_eq, closed.endsInCode]
  have sameDepth : ((Mode.code depth afterColon).after text none).depth = depth := by
    have balanced := closed.isBalanced
    rw [cells, cells_eq, ← Mode.cellsBefore_none] at balanced
    have outside := Mode.depth_after isPlain balanced (Nat.zero_add depth).symm
    rwa [Nesting.flat, Nat.zero_add] at outside
  refine ⟨samePlain.trans isPlain, sameCells.trans cells_eq.symm, ?_⟩
  rw [sameMode]
  obtain ⟨colonLast, isCode⟩ := Mode.exists_eq_code_of_isCode endsInCode
  rw [sameDepth] at isCode
  exact ⟨colonLast, isCode⟩

end IsClosed

/-- A closed text and its cells. -/
def ReadsAs (text : Text) (cells : List Cell) : Prop :=
  IsClosed text ∧ Source.cells text = cells

/-- A plain and balanced part up to a place of code is a closed text. -/
theorem readsAs_cellsBefore
    {text : Text}
    {next : Option Char}
    (joins : Mode.Joins text next)
    (isPlain : Mode.initial.isPlain text next = true)
    (endsInCode : (Mode.initial.after text next).isCode = true)
    (isBalanced : IsBalanced (Mode.initial.cellsBefore text next)) :
    ReadsAs text (Mode.initial.cellsBefore text next) := by
  obtain ⟨sameCells, sameMode, samePlain⟩ := Mode.initial.reads_of_joins joins
  rw [samePlain] at isPlain
  rw [sameMode] at endsInCode
  rw [sameCells] at isBalanced ⊢
  exact ⟨⟨isPlain, endsInCode, isBalanced⟩, rfl⟩

/-- Closed arguments of a call are read by themselves as they are read in the text. -/
theorem ReadsAs.of_enclosed
    {text : Text}
    {front inner back : List Cell}
    {opening closing : Cell}
    (place : cells text = front ++ opening :: (inner ++ closing :: back))
    (opens : opening.isCode '(' = true)
    (closes : closing.isCode ')' = true)
    (closed : IsClosed (chars inner)) :
    ReadsAs (chars inner) inner := by
  have whole : Mode.initial.cells (chars front ++ chars (opening :: (inner ++ closing :: back))) =
      front ++ opening :: (inner ++ closing :: back) := by
    rw [← chars_append, ← place, chars_cells]
    rfl
  obtain ⟨-, restCells⟩ := Mode.parts_of_cells_eq_append whole
  rw [chars_cons, List.head?_cons] at restCells
  obtain ⟨openingCell, innerCells⟩ := List.cons.inj restCells
  obtain ⟨-, depth, behind⟩ := Mode.read_of_kind_eq_code
    ((congrArg Cell.kind openingCell).trans (by rw [Cell.eq_of_isCode opens]))
  rw [behind, chars_append] at innerCells
  have joins : Mode.Joins (chars inner) (chars (closing :: back)).head? := by
    rw [chars_cons, List.head?_cons, Cell.char_of_isCode closes]
    exact fun _ => ⟨by decide, by decide⟩
  obtain ⟨-, sameCells, -⟩ := closed.read joins depth (opening.char == ':')
  exact ⟨closed, sameCells.symm.trans (Mode.parts_of_cells_eq_append innerCells).1⟩

/-! ## Texts of which nothing begins or ends anything -/

/-- The characters that begin or end something, and the colon. -/
def specialChars : List Char := ['"', '\'', '/', '(', ')', '[', ']', '{', '}', ':']

/-- No character of a text is special. -/
def IsInert (text : Text) : Prop :=
  ∀ char ∈ text, char ∉ specialChars

/-- A character that stands as code. -/
def Cell.ofCode (char : Char) : Cell := ⟨char, .code, false⟩

theorem isCodeName_of_mem_map_ofCode
    {name : Text}
    (named : ∀ char ∈ name, isNameChar char = true) :
    ∀ cell ∈ name.map Cell.ofCode, cell.isCodeName = true := by
  intro cell member
  obtain ⟨char, inName, rfl⟩ := List.mem_map.1 member
  exact named char inName

@[simp] theorem chars_map_ofCode (text : Text) : chars (text.map .ofCode) = text := by
  simp [chars, Cell.ofCode, Function.comp_def]

theorem isInert_of_forall_isNameChar
    {text : Text}
    (named : ∀ char ∈ text, isNameChar char = true) :
    IsInert text := by
  intro char member special
  have noName : ∀ char ∈ specialChars, isNameChar char = false :=
    List.all_iff_forall_prop.1 rfl
  exact Bool.false_ne_true ((noName char special).symm.trans (named char member))

theorem isInert_of_forall_isWhiteSpace
    {text : Text}
    (blank : ∀ char ∈ text, isWhiteSpace char = true) :
    IsInert text := by
  intro char member special
  have noSpace : ∀ char ∈ specialChars, isWhiteSpace char = false :=
    List.all_iff_forall_prop.1 rfl
  exact Bool.false_ne_true ((noSpace char special).symm.trans (blank char member))

theorem Mode.read_of_not_mem_specialChars
    {char : Char}
    (inert : char ∉ specialChars)
    (depth : Nat)
    (afterColon : Bool)
    (next : Option Char) :
    (code depth afterColon).read char next = (.ofCode char, .code depth false) := by
  simp only [specialChars, List.mem_cons, List.not_mem_nil, or_false, not_or] at inert
  simp [read, parenthesisDepth, Cell.ofCode, inert]

/-- A character that begins and ends nothing stands as code exactly if it is read in code. -/
theorem Mode.isCode_read_of_not_mem_specialChars
    {char : Char}
    (inert : char ∉ specialChars)
    (noFeed : char ≠ '\n')
    (mode : Mode)
    (next : Option Char) :
    (mode.read char next).1.isCode char = mode.isCode := by
  cases mode with
  | code depth afterColon =>
      rw [read_of_not_mem_specialChars inert]
      simp [Cell.ofCode, Cell.isCode, isCode]
  | string | comment =>
      simp only [read, isCode, Cell.isCode, if_neg noFeed]
      split_ifs <;> rfl
  | lineComment =>
      rw [read, if_neg noFeed]
      rfl
  | escape | commentOpening => rfl

theorem IsInert.read
    {text : Text}
    (inert : IsInert text)
    (depth : Nat)
    (afterColon : Bool)
    (next : Option Char) :
    (Mode.code depth afterColon).isPlain text next = true ∧
      (Mode.code depth afterColon).cellsBefore text next = text.map .ofCode ∧
        (Mode.code depth afterColon).after text next =
          .code depth (afterColon && text.isEmpty) := by
  induction text generalizing afterColon with
  | nil => exact ⟨rfl, rfl, congrArg _ (Bool.and_true afterColon).symm⟩
  | cons char rest inductionHypothesis =>
      obtain ⟨here, others⟩ := List.forall_mem_cons.1 inert
      obtain ⟨isPlain, restCells, restMode⟩ := inductionHypothesis others false
      have step := Mode.read_of_not_mem_specialChars here depth afterColon (rest.head?.or next)
      rw [Mode.isPlain, Mode.cellsBefore, Mode.after, step, restCells, isPlain, restMode,
        List.isEmpty_cons, Bool.false_and, Bool.and_false]
      refine ⟨?_, rfl, rfl⟩
      have noSlash : char ≠ '/' := by
        rintro rfl
        exact here (by decide)
      simp [Mode.isPlainStep, noSlash]

theorem unmarked_of_isInert
    {text : Text}
    (inert : IsInert text) :
    ∀ cell ∈ text.map Cell.ofCode, ∀ mark ∈ Nesting.marks, cell.isCode mark = false := by
  intro cell member mark isMark
  obtain ⟨char, here, rfl⟩ := List.mem_map.1 member
  have special : ∀ mark ∈ Nesting.marks, mark ∈ specialChars :=
    List.all_iff_forall_prop.1 rfl
  simp only [Cell.isCode, Cell.ofCode, Bool.and_eq_false_iff, beq_eq_false_iff_ne]
  right
  rintro rfl
  exact inert char here (special char isMark)

theorem isBalanced_of_isInert
    {text : Text}
    (inert : IsInert text) :
    IsBalanced (text.map .ofCode) :=
  IsBalanced.of_unmarked (unmarked_of_isInert inert)

/-- The text of a call. -/
def callText (name arguments : Text) : Text :=
  name ++ '(' :: (arguments ++ [')'])

/-- The cells of a call, given those of its arguments. -/
def callCells (name : Text) (arguments : List Cell) : List Cell :=
  name.map .ofCode ++ .ofCode '(' :: (arguments ++ [.ofCode ')'])

@[simp] theorem chars_callCells
    (name : Text)
    (arguments : List Cell) :
    chars (callCells name arguments) = callText name (chars arguments) := by
  simp [callCells, callText, Cell.ofCode]

namespace ReadsAs

theorem chars_eq
    {text : Text}
    {cells : List Cell}
    (reads : ReadsAs text cells) :
    chars cells = text := by
  rw [← reads.2, chars_cells]

theorem isBalanced
    {text : Text}
    {cells : List Cell}
    (reads : ReadsAs text cells) :
    IsBalanced cells := by
  rw [← reads.2]
  exact reads.1.isBalanced

theorem of_isInert
    {text : Text}
    (inert : IsInert text) :
    ReadsAs text (text.map .ofCode) := by
  obtain ⟨isPlain, sameCells, endsInCode⟩ := inert.read 0 false none
  rw [Mode.cellsBefore_none] at sameCells
  refine ⟨⟨isPlain, ?_, ?_⟩, sameCells⟩
  · rw [Mode.initial, endsInCode]
    rfl
  · rw [cells, Mode.initial, sameCells]
    exact isBalanced_of_isInert inert

/-- Closed texts that join are closed together. -/
theorem append
    {front back : Text}
    {frontCells backCells : List Cell}
    (frontReads : ReadsAs front frontCells)
    (backReads : ReadsAs back backCells)
    (joins : Mode.Joins front back.head?) :
    ReadsAs (front ++ back) (frontCells ++ backCells) := by
  obtain ⟨frontClosed, rfl⟩ := frontReads
  obtain ⟨backClosed, rfl⟩ := backReads
  obtain ⟨frontPlain, sameFront, colonBetween, between⟩ := frontClosed.read joins 0 false
  obtain ⟨backPlain, sameBack, colonLast, last⟩ :=
    backClosed.read (Mode.joins_none back) 0 colonBetween
  have sameCells : cells (front ++ back) = cells front ++ cells back := by
    rw [Mode.cellsBefore_none] at sameBack
    rw [cells, Mode.initial, Mode.cells_append, between, sameFront, sameBack]
  refine ⟨⟨?_, ?_, ?_⟩, sameCells⟩
  · rw [Mode.initial, Mode.isPlain_append, Option.or_none, between, frontPlain, backPlain]
    rfl
  · rw [Mode.initial, Mode.after_append, Option.or_none, between, last]
    rfl
  · rw [sameCells]
    exact frontClosed.isBalanced.append backClosed.isBalanced

/-- Parentheses around a closed text are closed. -/
theorem group
    {text : Text}
    {cells : List Cell}
    (reads : ReadsAs text cells) :
    ReadsAs ('(' :: (text ++ [')'])) (.ofCode '(' :: (cells ++ [.ofCode ')'])) := by
  obtain ⟨closed, rfl⟩ := reads
  have joins : Mode.Joins text (some ')') := fun _ => ⟨by decide, by decide⟩
  obtain ⟨isPlain, sameCells, colonLast, behind⟩ := closed.read joins 1 false
  have opening : ∀ next, Mode.read .initial '(' next = (.ofCode '(', .code 1 false) := by
    simp [Mode.read, Mode.initial, parenthesisDepth, Cell.ofCode]
  have closing : Mode.read (.code 1 colonLast) ')' none = (.ofCode ')', .code 0 false) := by
    simp [Mode.read, parenthesisDepth, Cell.ofCode]
  have cells_group : cells ('(' :: (text ++ [')'])) =
      .ofCode '(' :: (cells text ++ [.ofCode ')']) := by
    rw [cells, Mode.cells, opening, Mode.cells_append, List.head?_cons, sameCells, behind,
      Mode.cells, List.head?_nil, closing]
    rfl
  refine ⟨⟨?_, ?_, ?_⟩, cells_group⟩
  · rw [Mode.isPlain, opening, Mode.isPlain_append, List.head?_cons, Option.some_or, isPlain,
      behind]
    rfl
  · rw [Mode.after, opening, Mode.after_append, List.head?_cons, Option.some_or, behind,
      Mode.after, List.head?_nil, Option.none_or, closing]
    rfl
  · rw [cells_group]
    exact closed.isBalanced.group rfl rfl

/-- A call with closed arguments is closed. -/
theorem call
    {name arguments : Text}
    {cells : List Cell}
    (named : ∀ char ∈ name, isNameChar char = true)
    (reads : ReadsAs arguments cells) :
    ReadsAs (callText name arguments) (callCells name cells) :=
  (of_isInert (isInert_of_forall_isNameChar named)).append reads.group
    fun _ => ⟨by simp, by simp⟩

end ReadsAs

/-! ## Exchanging the arguments of a call -/

namespace Mode

/-- Code goes on behind a closed call, and no colon stands before it. -/
theorem read_callText_append
    {name arguments : Text}
    {cells : List Cell}
    (named : ∀ char ∈ name, isNameChar char = true)
    (reads : ReadsAs arguments cells)
    (depth : Nat)
    (afterColon : Bool)
    (rest : Text) :
    (code depth afterColon).cells (callText name arguments ++ rest) =
        callCells name cells ++ (code depth false).cells rest ∧
      (code depth afterColon).isPlain (callText name arguments ++ rest) none =
          (code depth false).isPlain rest none ∧
        (code depth afterColon).after (callText name arguments ++ rest) none =
          (code depth false).after rest none := by
  obtain ⟨closed, sameCells⟩ := reads.call named
  have endsInParenthesis : callText name arguments = name ++ '(' :: arguments ++ [')'] := by
    simp [callText]
  have joins : Joins (callText name arguments) rest.head? := by
    intro endsInSlash
    rw [endsInParenthesis, List.getLast?_concat] at endsInSlash
    exact absurd (Option.some.inj endsInSlash) (by decide)
  obtain ⟨isPlain, cellsBefore_eq, colonLast, behind⟩ := closed.read joins depth afterColon
  have noColon : colonLast = false := by
    rw [endsInParenthesis, after_append] at behind
    exact afterColon_eq_false_of_read behind (by decide)
  rw [noColon] at behind
  rw [cells_append, cellsBefore_eq, sameCells, behind, isPlain_append, after_append,
    Option.or_none, isPlain, behind]
  exact ⟨rfl, rfl, rfl⟩

/-- What stands around a closed call is read the same for any closed arguments. -/
theorem exists_exchange
    {mode : Mode}
    {front behind : List Cell}
    {cell : Cell}
    {name arguments rest : Text}
    {cells : List Cell}
    (whole : mode.cells (chars front ++ chars (cell :: behind)) = front ++ cell :: behind)
    (startsName : cell.isCodeName = true)
    (text : chars (cell :: behind) = callText name arguments ++ rest)
    (named : ∀ char ∈ name, isNameChar char = true)
    (nonempty : name ≠ [])
    (reads : ReadsAs arguments cells) :
    ∃ back,
      cell :: behind = callCells name cells ++ back ∧ chars back = rest ∧
        ∀ {other : Text} {otherCells : List Cell}, ReadsAs other otherCells →
          mode.cells (chars front ++ (callText name other ++ rest)) =
              front ++ (callCells name otherCells ++ back) ∧
            mode.isPlain (chars front ++ (callText name other ++ rest)) none =
                mode.isPlain (chars front ++ (callText name arguments ++ rest)) none ∧
              mode.after (chars front ++ (callText name other ++ rest)) none =
                mode.after (chars front ++ (callText name arguments ++ rest)) none := by
  obtain ⟨first, others, rfl⟩ := List.exists_cons_of_ne_nil nonempty
  have sameFirst : cell.char = first := (List.cons.inj text).1
  obtain ⟨frontCells, restCells⟩ := parts_of_cells_eq_append whole
  rw [chars_cons, List.head?_cons, sameFirst] at frontCells restCells
  -- A character of a name is read as code only where code is read already.
  obtain ⟨afterColon, inCode⟩ : ∃ afterColon,
      mode.after (chars front) (some first) =
        .code (mode.after (chars front) (some first)).depth afterColon := by
    apply exists_eq_code_of_isCode
    have isCode : ((mode.after (chars front) (some first)).read first (chars behind).head?).1.kind =
        .code := by
      rw [(List.cons.inj restCells).1]
      simp only [Cell.isCodeName, Bool.and_eq_true, beq_iff_eq] at startsName
      exact startsName.1
    refine (read_of_kind_eq_code isCode).1.resolve_right ?_
    rintro rfl
    exact absurd (named _ List.mem_cons_self) (by decide)
  generalize (mode.after (chars front) (some first)).depth = depth at inCode
  obtain ⟨callRead, -, -⟩ := read_callText_append named reads depth afterColon rest
  refine ⟨(code depth false).cells rest, ?_, chars_cells _ rest, ?_⟩
  · rw [← callRead, ← text, chars_cons, sameFirst, ← inCode, restCells]
  · intro other otherCells otherReads
    obtain ⟨otherRead, otherPlain, otherAfter⟩ :=
      read_callText_append named otherReads depth afterColon rest
    obtain ⟨-, plain, after⟩ := read_callText_append named reads depth afterColon rest
    have begins : ∀ text, (callText (first :: others) text ++ rest).head? = some first :=
      fun _ => rfl
    refine ⟨?_, ?_, ?_⟩
    · rw [cells_append, begins, frontCells, inCode, otherRead]
    · rw [mode.isPlain_append (chars front), mode.isPlain_append (chars front), Option.or_none,
        Option.or_none, begins, begins, inCode, otherPlain, plain]
    · rw [mode.after_append (chars front), mode.after_append (chars front), Option.or_none,
        Option.or_none, begins, begins, inCode, otherAfter, after]

end Mode

/-- A closed text stays closed with other closed arguments of a call in it. -/
theorem ReadsAs.exchange
    {name arguments other : Text}
    {argumentCells otherCells before behind : List Cell}
    (named : ∀ char ∈ name, isNameChar char = true)
    (nonempty : name ≠ [])
    (reads : ReadsAs arguments argumentCells)
    (otherReads : ReadsAs other otherCells)
    (around : ReadsAs (chars (before ++ (callCells name argumentCells ++ behind)))
      (before ++ (callCells name argumentCells ++ behind))) :
    ReadsAs (chars (before ++ (callCells name otherCells ++ behind)))
      (before ++ (callCells name otherCells ++ behind)) := by
  obtain ⟨⟨isPlain, endsInCode, balanced⟩, cells_eq⟩ := around
  have holds : chars (callCells name argumentCells ++ behind) =
      callText name arguments ++ chars behind := by
    rw [chars_append, chars_callCells, reads.chars_eq]
  have nextHolds : chars (before ++ (callCells name otherCells ++ behind)) =
      chars before ++ (callText name other ++ chars behind) := by
    rw [chars_append, chars_append, chars_callCells, otherReads.chars_eq]
  obtain ⟨cell, rest, starts⟩ : ∃ cell rest,
      callCells name argumentCells ++ behind = cell :: rest := by
    apply List.exists_cons_of_ne_nil
    simp [callCells]
  have startsName : cell.isCodeName = true := by
    obtain ⟨first, others, rfl⟩ := List.exists_cons_of_ne_nil nonempty
    obtain rfl := (List.cons.inj starts).1
    exact named first List.mem_cons_self
  rw [chars_append] at isPlain endsInCode
  rw [cells_eq] at balanced
  rw [chars_append, starts] at cells_eq
  rw [starts] at holds
  obtain ⟨back, split, -, exchange⟩ :=
    Mode.exists_exchange cells_eq startsName holds named nonempty reads
  rw [← starts] at split
  obtain rfl := List.append_cancel_left split
  obtain ⟨nextCells, samePlain, sameAfter⟩ := exchange otherReads
  rw [starts, holds] at isPlain endsInCode
  rw [nextHolds]
  refine ⟨⟨samePlain.trans isPlain, ?_, ?_⟩, nextCells⟩
  · rw [sameAfter]
    exact endsInCode
  · rw [cells, nextCells]
    exact (reads.call named).isBalanced.exchange (otherReads.call named).isBalanced balanced

/-! ## White space at the end -/

namespace Mode

/-- The quote that a mode waits for is one of the two quotes. -/
def HasQuote : Mode → Prop
  | .string quote _ | .escape quote _ => quote = '"' ∨ quote = '\''
  | _ => True

theorem HasQuote.read
    {mode : Mode}
    (hasQuote : mode.HasQuote)
    (char : Char)
    (next : Option Char) :
    (mode.read char next).2.HasQuote := by
  cases mode with
  | code =>
      rw [Mode.read]
      split_ifs with isQuote
      · exact isQuote
      all_goals trivial
  | string =>
      rw [Mode.read]
      split_ifs
      · exact hasQuote
      · trivial
      · trivial
      · exact hasQuote
  | escape => exact hasQuote
  | comment | lineComment =>
      rw [Mode.read]
      split_ifs
      all_goals trivial
  | commentOpening => trivial

theorem HasQuote.after
    {mode : Mode}
    (hasQuote : mode.HasQuote)
    (text : Text)
    (next : Option Char) :
    (mode.after text next).HasQuote := by
  induction text generalizing mode with
  | nil => exact hasQuote
  | cons char rest inductionHypothesis => exact inductionHypothesis (hasQuote.read char _)

/-- White space ends neither a string nor a comment. -/
theorem isCode_of_isCode_after
    {mode : Mode}
    {spaces : Text}
    {next : Option Char}
    (hasQuote : mode.HasQuote)
    (blank : ∀ char ∈ spaces, isWhiteSpace char = true)
    (isPlain : mode.isPlain spaces next = true)
    (endsInCode : (mode.after spaces next).isCode = true) :
    mode.isCode = true := by
  induction spaces generalizing mode with
  | nil => exact endsInCode
  | cons char rest inductionHypothesis =>
      rw [Mode.isPlain, Bool.and_eq_true] at isPlain
      obtain ⟨space, spaces⟩ := List.forall_mem_cons.1 blank
      have behind := inductionHypothesis (hasQuote.read char _) spaces isPlain.2 endsInCode
      have noQuote : ∀ quote, quote = '"' ∨ quote = '\'' → char ≠ quote := by
        rintro quote (rfl | rfl) rfl <;> contradiction
      have noSlash : char ≠ '/' := by
        rintro rfl
        contradiction
      cases mode with
      | code => rfl
      | string quote depth =>
          rw [Mode.read, if_neg (bne_iff_ne.1 isPlain.1), if_neg (noQuote quote hasQuote)] at behind
          split_ifs at behind
          all_goals contradiction
      | comment depth afterStar =>
          rw [Mode.read, if_neg (fun ends => noSlash ends.1)] at behind
          contradiction
      | escape | commentOpening => contradiction
      | lineComment => exact absurd isPlain.1 Bool.false_ne_true

end Mode

/-! ## Pieces of a closed text -/

namespace ReadsAs

/-- The two pieces of a closed text at a comma are closed. -/
theorem pieces
    {text first second : Text}
    {cells : List Cell}
    (reads : ReadsAs text cells)
    (split : splitCells (Cell.isSeparator ',') 0 cells = [first, second]) :
    ∃ front comma back,
      cells = front ++ comma :: back ∧ comma.isCode ',' = true ∧
        ReadsAs first front ∧ ReadsAs second back := by
  obtain ⟨closed, rfl⟩ := reads
  obtain ⟨front, comma, back, whole, isComma, ⟨frontBalanced, rfl⟩, backBalanced, rfl⟩ :=
    closed.isBalanced.exists_eq_of_splitCells_eq_pair split
  have isPlain := closed.isPlain
  have endsInCode := closed.endsInCode
  have parts : Mode.initial.cells (chars front ++ chars (comma :: back)) =
      front ++ comma :: back := by
    rw [← chars_append, ← whole, chars_cells]
    rfl
  rw [← chars_cells text, whole, chars_append, chars_cons] at isPlain endsInCode
  rw [Mode.isPlain_append, List.head?_cons, Option.some_or, Mode.isPlain, Option.or_none,
    Bool.and_eq_true, Bool.and_eq_true] at isPlain
  rw [Mode.after_append, List.head?_cons, Option.some_or, Mode.after, Option.or_none]
    at endsInCode
  obtain ⟨frontCells, restCells⟩ := Mode.parts_of_cells_eq_append parts
  rw [chars_cons, List.head?_cons] at frontCells restCells
  obtain ⟨commaCell, backCells⟩ := List.cons.inj restCells
  have isCode : ((Mode.initial.after (chars front) (some comma.char)).read comma.char
      (chars back).head?).1.kind = .code := by
    rw [commaCell, Cell.eq_of_isCode isComma]
  have frontInCode : (Mode.initial.after (chars front) (some comma.char)).isCode = true := by
    refine (Mode.read_of_kind_eq_code isCode).1.resolve_right ?_
    rw [Cell.char_of_isCode isComma]
    decide
  have joins : Mode.Joins (chars front) (some comma.char) := by
    rw [Cell.char_of_isCode isComma]
    exact fun _ => ⟨by decide, by decide⟩
  rw [← frontCells] at frontBalanced
  have frontReads := readsAs_cellsBefore joins isPlain.1 frontInCode frontBalanced
  rw [frontCells] at frontReads
  refine ⟨front, comma, back, whole, isComma, frontReads, ?_⟩
  -- The first piece leaves no parenthesis open, so the second one is read as a text begins.
  obtain ⟨-, -, colonLast, behindFront⟩ := frontReads.1.read joins 0 false
  have behind : ((Mode.initial.after (chars front) (some comma.char)).read comma.char
      (chars back).head?).2 = .initial := by
    rw [Mode.initial, behindFront, Cell.char_of_isCode isComma,
      Mode.read_of_not_mem_specialChars (by decide)]
  rw [behind] at isPlain endsInCode
  rw [behind, ← Mode.cellsBefore_none] at backCells
  rw [← backCells] at backBalanced
  have backReads := readsAs_cellsBefore (Mode.joins_none _) isPlain.2.2 endsInCode backBalanced
  rwa [backCells] at backReads

theorem joins_of_isWhiteSpace
    {behind : Text}
    (blank : ∀ char ∈ behind, isWhiteSpace char = true)
    (text : Text) :
    Mode.Joins text behind.head? := by
  have noneOf : ∀ char, isWhiteSpace char = false → behind.head? ≠ some char := by
    intro char dark first
    have isBlank := blank char (List.mem_of_mem_head? first)
    exact Bool.false_ne_true (dark.symm.trans isBlank)
  exact fun _ => ⟨noneOf '/' (by decide), noneOf '*' (by decide)⟩

/-- A closed text is closed after trimming, and only white space is lost. -/
theorem trim
    {text : Text}
    {cells : List Cell}
    (reads : ReadsAs text cells) :
    ∃ (before behind : Text) (inner : List Cell),
      cells = before.map .ofCode ++ (inner ++ behind.map .ofCode) ∧
        (∀ char ∈ before ++ behind, isWhiteSpace char = true) ∧ ReadsAs text.trim inner := by
  obtain ⟨⟨isPlain, endsInCode, isBalanced⟩, rfl⟩ := reads
  obtain ⟨before, behind, split, beforeBlank, behindBlank⟩ :=
    Text.exists_eq_append_trim_append text
  have beforeInert := isInert_of_forall_isWhiteSpace beforeBlank
  have behindInert := isInert_of_forall_isWhiteSpace behindBlank
  generalize text.trim = inner at split
  subst split
  obtain ⟨-, beforeCells, starts⟩ := beforeInert.read 0 false (inner ++ behind).head?
  rw [Bool.false_and, ← Mode.initial] at starts
  rw [← Mode.initial] at beforeCells
  rw [Mode.isPlain_append, Option.or_none, starts, Mode.isPlain_append, Option.or_none,
    Bool.and_eq_true, Bool.and_eq_true] at isPlain
  rw [Mode.after_append, Option.or_none, starts, Mode.after_append, Option.or_none] at endsInCode
  have quoted : Mode.initial.HasQuote := trivial
  have middleInCode := Mode.isCode_of_isCode_after (quoted.after inner behind.head?) behindBlank
    isPlain.2.2 endsInCode
  obtain ⟨colonBehind, behindMode⟩ := Mode.exists_eq_code_of_isCode middleInCode
  obtain ⟨-, behindCells, -⟩ := behindInert.read
    (Mode.initial.after inner behind.head?).depth colonBehind none
  rw [← behindMode, Mode.cellsBefore_none] at behindCells
  have sameCells : cells (before ++ (inner ++ behind)) = before.map .ofCode ++
      (Mode.initial.cellsBefore inner behind.head? ++ behind.map .ofCode) := by
    rw [cells, Mode.cells_append, beforeCells, starts, Mode.cells_append, behindCells]
  have joins := joins_of_isWhiteSpace behindBlank inner
  rw [sameCells] at isBalanced
  have innerBalanced := (isBalanced_of_isInert behindInert).of_append_right
    ((isBalanced_of_isInert beforeInert).of_append_left isBalanced)
  refine ⟨before, behind, _, sameCells, fun char member => ?_,
    readsAs_cellsBefore joins isPlain.2.1 middleInCode innerBalanced⟩
  obtain member | member := List.mem_append.1 member
  · exact beforeBlank char member
  · exact behindBlank char member

/-- A text that is closed after trimming is closed. -/
theorem of_trim
    {text : Text}
    {cells : List Cell}
    (reads : ReadsAs text.trim cells) :
    ∃ before behind : Text, (∀ char ∈ before, isWhiteSpace char = true) ∧
      (∀ char ∈ behind, isWhiteSpace char = true) ∧
        ReadsAs text (before.map .ofCode ++ (cells ++ behind.map .ofCode)) := by
  obtain ⟨before, behind, split, beforeBlank, behindBlank⟩ :=
    Text.exists_eq_append_trim_append text
  have beforeReads := of_isInert (isInert_of_forall_isWhiteSpace beforeBlank)
  have behindReads := of_isInert (isInert_of_forall_isWhiteSpace behindBlank)
  have innerReads := reads.append behindReads (joins_of_isWhiteSpace behindBlank _)
  refine ⟨before, behind, beforeBlank, behindBlank, ?_⟩
  have whole := beforeReads.append innerReads fun endsInSlash => absurd
    (beforeBlank _ (List.mem_of_getLast? endsInSlash)) (by decide)
  rwa [← split] at whole

end ReadsAs

end Source
end LessTheme
