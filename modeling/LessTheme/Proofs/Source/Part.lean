import LessTheme.Proofs.Source.Call
import Mathlib.Tactic.SplitIfs

/-!
# Reading a text in parts

A text that is joined from parts is read part by part, where reading a part
takes the character behind it into account.  A part in which no line comment
begins and no line end closes a string is read the same inside of further
parentheses.
-/

namespace LessTheme
namespace Source
namespace Mode

/-! ## Parts -/

/-- The cells of a part of a text, given the character behind the part. -/
def cellsBefore : Mode → Text → Option Char → List Cell
  | _, [], _ => []
  | mode, char :: rest, next =>
      (mode.read char (rest.head?.or next)).1 ::
        cellsBefore (mode.read char (rest.head?.or next)).2 rest next

/-- The mode behind a part of a text, given the character there. -/
def after : Mode → Text → Option Char → Mode
  | mode, [], _ => mode
  | mode, char :: rest, next => after (mode.read char (rest.head?.or next)).2 rest next

/-- Whether the mode is that of code. -/
def isCode : Mode → Bool
  | .code _ _ => true
  | _ => false

/-- The number of open parentheses that a mode remembers. -/
def depth : Mode → Nat
  | .code depth _ | .string _ depth | .escape _ depth | .commentOpening depth
  | .comment depth _ => depth
  | .lineComment => 0

theorem exists_eq_code_of_isCode
    {mode : Mode}
    (isCode : mode.isCode = true) :
    ∃ afterColon, mode = .code mode.depth afterColon := by
  cases mode
  case code depth afterColon => exact ⟨afterColon, rfl⟩
  all_goals contradiction

theorem head?_append_or (front back : Text) (next : Option Char) :
    (front ++ back).head?.or next = front.head?.or (back.head?.or next) := by
  rw [List.head?_append, Option.or_assoc]

theorem cellsBefore_none (mode : Mode) (text : Text) :
    mode.cellsBefore text none = mode.cells text := by
  induction text generalizing mode with
  | nil => rfl
  | cons char rest inductionHypothesis =>
      rw [cellsBefore, cells, Option.or_none, inductionHypothesis]

theorem cellsBefore_append (mode : Mode) (front back : Text) (next : Option Char) :
    mode.cellsBefore (front ++ back) next =
      mode.cellsBefore front (back.head?.or next) ++
        (mode.after front (back.head?.or next)).cellsBefore back next := by
  induction front generalizing mode with
  | nil => rfl
  | cons char rest inductionHypothesis =>
      rw [List.cons_append, cellsBefore, head?_append_or, inductionHypothesis]
      rfl

theorem after_append (mode : Mode) (front back : Text) (next : Option Char) :
    mode.after (front ++ back) next =
      (mode.after front (back.head?.or next)).after back next := by
  induction front generalizing mode with
  | nil => rfl
  | cons char rest inductionHypothesis =>
      rw [List.cons_append, after, head?_append_or, inductionHypothesis]
      rfl

/-- Two parts are read one after the other. -/
theorem reads_append
    {mode between behind : Mode}
    {front back : Text}
    {next : Option Char}
    {frontCells backCells : List Cell}
    (readsFront : mode.cellsBefore front (back.head?.or next) = frontCells ∧
      mode.after front (back.head?.or next) = between)
    (readsBack : between.cellsBefore back next = backCells ∧ between.after back next = behind) :
    mode.cellsBefore (front ++ back) next = frontCells ++ backCells ∧
      mode.after (front ++ back) next = behind := by
  rw [cellsBefore_append, after_append, readsFront.1, readsFront.2]
  exact ⟨congrArg _ readsBack.1, readsBack.2⟩

/-- The cells of a joined text are those of its parts. -/
theorem cells_append (mode : Mode) (front back : Text) :
    mode.cells (front ++ back) =
      mode.cellsBefore front back.head? ++ (mode.after front back.head?).cells back := by
  rw [← cellsBefore_none, cellsBefore_append, Option.or_none, cellsBefore_none]

@[simp] theorem chars_cellsBefore (mode : Mode) (text : Text) (next : Option Char) :
    chars (mode.cellsBefore text next) = text := by
  induction text generalizing mode with
  | nil => rfl
  | cons char rest inductionHypothesis =>
      rw [cellsBefore, chars_cons, inductionHypothesis, read_char]

/-- Cells of a text in two parts are those of a part and those read behind it. -/
theorem parts_of_cells_eq_append
    {mode : Mode}
    {front back : List Cell}
    (whole : mode.cells (chars front ++ chars back) = front ++ back) :
    mode.cellsBefore (chars front) (chars back).head? = front ∧
      (mode.after (chars front) (chars back).head?).cells (chars back) = back := by
  rw [cells_append] at whole
  apply List.append_inj whole
  rw [← length_chars, chars_cellsBefore, length_chars]

/-! ## Cells of code -/

/-- A character of code is read in code or ends a line, and code follows. -/
theorem read_of_kind_eq_code
    {mode : Mode}
    {char : Char}
    {next : Option Char}
    (kind : (mode.read char next).1.kind = .code) :
    (mode.isCode = true ∨ char = '\n') ∧
      ∃ depth, (mode.read char next).2 = .code depth (char == ':') := by
  cases mode with
  | code depth afterColon =>
      refine ⟨Or.inl rfl, parenthesisDepth depth char, ?_⟩
      simp only [read] at kind ⊢
      split_ifs at kind ⊢
      rfl
  | string quote depth =>
      simp only [read] at kind ⊢
      split_ifs at kind ⊢ with escapes endsLine
      subst endsLine
      exact ⟨Or.inr rfl, depth, rfl⟩
  | comment depth afterStar =>
      simp only [read] at kind
      split_ifs at kind
  | lineComment =>
      simp only [read] at kind ⊢
      split_ifs at kind ⊢ with endsLine
      subst endsLine
      exact ⟨Or.inr rfl, 0, rfl⟩
  | escape | commentOpening => contradiction

theorem afterColon_eq_false_of_read
    {mode : Mode}
    {char : Char}
    {next : Option Char}
    {depth : Nat}
    {afterColon : Bool}
    (behind : (mode.read char next).2 = .code depth afterColon)
    (noColon : char ≠ ':') :
    afterColon = false := by
  cases mode with
  | code =>
      simp only [read] at behind
      split_ifs at behind
      rw [← (Mode.code.inj behind).2, beq_eq_false_iff_ne]
      exact noColon
  | string | comment | lineComment =>
      simp only [read] at behind
      split_ifs at behind
      all_goals exact (Mode.code.inj behind).2.symm
  | escape | commentOpening => contradiction

/-! ## What stands behind a part -/

/-- What stands behind a text does not make its last slash the start of a comment. -/
def Joins (text : Text) (next : Option Char) : Prop :=
  text.getLast? = some '/' → next ≠ some '/' ∧ next ≠ some '*'

theorem joins_none (text : Text) : Joins text none :=
  fun _ => ⟨nofun, nofun⟩

theorem joins_of_ne
    {char : Char}
    (noSlash : char ≠ '/')
    (noStar : char ≠ '*')
    (text : Text) :
    Joins text (some char) :=
  fun _ => ⟨by simpa using noSlash, by simpa using noStar⟩

theorem joins_of_getLast?_ne
    {text : Text}
    (noSlash : text.getLast? ≠ some '/')
    (next : Option Char) :
    Joins text next :=
  fun isSlash => absurd isSlash noSlash

theorem Joins.tail
    {char second : Char}
    {rest : Text}
    {next : Option Char}
    (joins : Joins (char :: second :: rest) next) :
    Joins (second :: rest) next :=
  joins

theorem read_of_joins
    (mode : Mode)
    {char : Char}
    {next : Option Char}
    (joins : Joins [char] next) :
    mode.read char next = mode.read char none := by
  cases mode with
  | code depth afterColon =>
      by_cases isSlash : char = '/'
      · obtain ⟨noSlash, noStar⟩ := joins (congrArg some isSlash)
        simp [read, noSlash, noStar]
      · simp [read, isSlash]
  | string | escape | commentOpening | comment | lineComment => rfl

/-! ## Plain parts -/

/-- No line comment begins with a character, and it is no line end in a string. -/
def isPlainStep : Mode → Char → Option Char → Bool
  | .code depth afterColon, char, next =>
      ¬(char = '/' ∧ next = some '/' ∧ depth = 0 ∧ afterColon = false)
  | .string _ _, char, _ => char != '\n'
  | .lineComment, _, _ => false
  | _, _, _ => true

/-- In a part of a text no line comment begins and no line end closes a string. -/
def isPlain : Mode → Text → Option Char → Bool
  | _, [], _ => true
  | mode, char :: rest, next =>
      mode.isPlainStep char (rest.head?.or next) &&
        (mode.read char (rest.head?.or next)).2.isPlain rest next

theorem isPlain_append (mode : Mode) (front back : Text) (next : Option Char) :
    mode.isPlain (front ++ back) next =
      (mode.isPlain front (back.head?.or next) &&
        (mode.after front (back.head?.or next)).isPlain back next) := by
  induction front generalizing mode with
  | nil => rfl
  | cons char rest inductionHypothesis =>
      rw [List.cons_append, isPlain, head?_append_or, inductionHypothesis, isPlain, after,
        Bool.and_assoc]

theorem isPlainStep_of_joins
    (mode : Mode)
    {char : Char}
    {next : Option Char}
    (joins : Joins [char] next) :
    mode.isPlainStep char next = mode.isPlainStep char none := by
  cases mode with
  | code depth afterColon =>
      by_cases isSlash : char = '/'
      · obtain ⟨noSlash, -⟩ := joins (congrArg some isSlash)
        simp [isPlainStep, noSlash]
      · simp [isPlainStep, isSlash]
  | string | escape | commentOpening | comment | lineComment => rfl

/-- A part is read as the whole text that it is if it joins what stands behind. -/
theorem reads_of_joins
    (mode : Mode)
    {text : Text}
    {next : Option Char}
    (joins : Joins text next) :
    mode.cellsBefore text next = mode.cells text ∧
      mode.after text next = mode.after text none ∧
        mode.isPlain text next = mode.isPlain text none := by
  induction text generalizing mode with
  | nil => exact ⟨rfl, rfl, rfl⟩
  | cons char rest inductionHypothesis =>
      cases rest with
      | nil =>
          have same := mode.read_of_joins joins
          have samePlain := mode.isPlainStep_of_joins joins
          simp [cellsBefore, cells, after, isPlain, same, samePlain]
      | cons second others =>
          obtain ⟨sameCells, sameMode, samePlain⟩ :=
            inductionHypothesis (mode.read char (some second)).2 joins.tail
          refine ⟨congrArg _ sameCells, sameMode, ?_⟩
          exact congrArg (mode.isPlainStep char (some second) && ·) samePlain

/-! ## Further parentheses -/

theorem parenthesisDepth_le_parenthesisDepth
    {depth deeper : Nat}
    (le : depth ≤ deeper)
    (char : Char) :
    parenthesisDepth depth char ≤ parenthesisDepth deeper char := by
  unfold parenthesisDepth
  split_ifs
  · exact Nat.succ_le_succ le
  · exact Nat.sub_le_sub_right le 1
  · exact Nat.le_refl 0
  · exact le

/--
The second mode is the first one inside of further parentheses.  A colon may
stand before the second one only, which does not let a line comment begin.
-/
inductive Deepens : Mode → Mode → Prop
  | code {depth deeper : Nat} (le : depth ≤ deeper) {afterColon otherAfterColon : Bool}
      (colon : afterColon = true → otherAfterColon = true) :
      Deepens (.code depth afterColon) (.code deeper otherAfterColon)
  | string {depth deeper : Nat} (le : depth ≤ deeper) (quote : Char) :
      Deepens (.string quote depth) (.string quote deeper)
  | escape {depth deeper : Nat} (le : depth ≤ deeper) (quote : Char) :
      Deepens (.escape quote depth) (.escape quote deeper)
  | commentOpening {depth deeper : Nat} (le : depth ≤ deeper) :
      Deepens (.commentOpening depth) (.commentOpening deeper)
  | comment {depth deeper : Nat} (le : depth ≤ deeper) (afterStar : Bool) :
      Deepens (.comment depth afterStar) (.comment deeper afterStar)

namespace Deepens

variable {mode deeper : Mode}

theorem isCode_eq (deepens : Deepens mode deeper) : mode.isCode = deeper.isCode := by
  cases deepens <;> rfl

/-- A plain character is read the same inside of further parentheses. -/
theorem read
    {char : Char}
    {next : Option Char}
    (deepens : Deepens mode deeper)
    (isPlain : mode.isPlainStep char next = true) :
    deeper.isPlainStep char next = true ∧
      (mode.read char next).1 = (deeper.read char next).1 ∧
        Deepens (mode.read char next).2 (deeper.read char next).2 := by
  cases deepens with
  | @code depth deeper le afterColon otherAfterColon colon =>
      have noLineComment :
          ¬(char = '/' ∧ next = some '/' ∧ depth = 0 ∧ afterColon = false) :=
        of_decide_eq_true isPlain
      have noneDeeper :
          ¬(char = '/' ∧ next = some '/' ∧ deeper = 0 ∧ otherAfterColon = false) := by
        rintro ⟨isSlash, followed, rfl, noColon⟩
        refine noLineComment ⟨isSlash, followed, Nat.le_zero.1 le, ?_⟩
        rw [Bool.eq_false_iff] at noColon ⊢
        exact mt colon noColon
      refine ⟨decide_eq_true noneDeeper, ?_⟩
      rw [Mode.read, Mode.read, if_neg noLineComment, if_neg noneDeeper]
      split
      · exact ⟨rfl, .string le char⟩
      · split
        · exact ⟨rfl, .commentOpening le⟩
        · exact ⟨rfl, .code (parenthesisDepth_le_parenthesisDepth le char) id⟩
  | string le quote =>
      refine ⟨isPlain, ?_⟩
      rw [Mode.read, Mode.read]
      split
      · exact ⟨rfl, .escape le quote⟩
      · split
        · exact ⟨rfl, .code le id⟩
        · split
          · exact ⟨rfl, .code le id⟩
          · exact ⟨rfl, .string le quote⟩
  | escape le quote => exact ⟨rfl, rfl, .string le quote⟩
  | commentOpening le => exact ⟨rfl, rfl, .comment le false⟩
  | comment le afterStar =>
      refine ⟨rfl, ?_⟩
      rw [Mode.read, Mode.read]
      split
      · exact ⟨rfl, .code le id⟩
      · exact ⟨rfl, .comment le (char == '*')⟩

/-- A plain part is read the same inside of further parentheses. -/
theorem reads
    {text : Text}
    {next : Option Char}
    (deepens : Deepens mode deeper)
    (isPlain : mode.isPlain text next = true) :
    deeper.isPlain text next = true ∧
      mode.cellsBefore text next = deeper.cellsBefore text next ∧
        Deepens (mode.after text next) (deeper.after text next) := by
  induction text generalizing mode deeper with
  | nil => exact ⟨rfl, rfl, deepens⟩
  | cons char rest inductionHypothesis =>
      rw [Mode.isPlain, Bool.and_eq_true] at isPlain
      obtain ⟨stepPlain, sameCell, deepensNext⟩ := deepens.read isPlain.1
      obtain ⟨restPlain, sameCells, deepensAfter⟩ := inductionHypothesis deepensNext isPlain.2
      refine ⟨?_, ?_, deepensAfter⟩
      · rw [Mode.isPlain, stepPlain, restPlain]
        rfl
      · rw [cellsBefore, cellsBefore, sameCell, sameCells]

end Deepens
end Mode
end Source
end LessTheme
