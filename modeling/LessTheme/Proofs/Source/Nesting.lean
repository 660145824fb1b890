import LessTheme.Proofs.Source.Split
import LessTheme.Source.Delimiter
import Mathlib.Data.Bool.AllAny

/-!
# Open parentheses and brackets

Going through some cells one counts the parentheses and the brackets that are
open.  Cells that close all they open can be put anywhere: they neither end
what is enclosed around them nor move a separator behind them to another
depth.
-/

namespace LessTheme
namespace Source

/-- How many parentheses and how many brackets are open. -/
structure Nesting where
  parentheses : Nat
  brackets : Nat
  deriving DecidableEq, Repr

namespace Nesting

/-- Nothing is open. -/
def flat : Nesting := ⟨0, 0⟩

/-- What is open inside and around. -/
def add (nesting outer : Nesting) : Nesting :=
  ⟨nesting.parentheses + outer.parentheses, nesting.brackets + outer.brackets⟩

/--
What is open behind a cell; nothing if it closes what is not open, or if it is
a brace.
-/
def step? (nesting : Nesting) (cell : Cell) : Option Nesting :=
  match cell.kind, cell.char, nesting with
  | .code, '(', ⟨parentheses, brackets⟩ => some ⟨parentheses + 1, brackets⟩
  | .code, ')', ⟨parentheses + 1, brackets⟩ => some ⟨parentheses, brackets⟩
  | .code, '[', ⟨parentheses, brackets⟩ => some ⟨parentheses, brackets + 1⟩
  | .code, ']', ⟨parentheses, brackets + 1⟩ => some ⟨parentheses, brackets⟩
  | .code, ')', _ | .code, ']', _ | .code, '{', _ | .code, '}', _ => none
  | _, _, nesting => some nesting

/-- What is open behind some cells. -/
def behind? (nesting : Nesting) (cells : List Cell) : Option Nesting :=
  cells.foldlM step? nesting

/-- The characters that open or close something. -/
def marks : List Char := ['(', ')', '[', ']', '{', '}']

/-- What a cell does to the nesting around it. -/
inductive Step : Cell → Nesting → Nesting → Prop
  | openParenthesis (opens : Bool) (parentheses brackets : Nat) :
      Step ⟨'(', .code, opens⟩ ⟨parentheses, brackets⟩ ⟨parentheses + 1, brackets⟩
  | closeParenthesis (opens : Bool) (parentheses brackets : Nat) :
      Step ⟨')', .code, opens⟩ ⟨parentheses + 1, brackets⟩ ⟨parentheses, brackets⟩
  | openBracket (opens : Bool) (parentheses brackets : Nat) :
      Step ⟨'[', .code, opens⟩ ⟨parentheses, brackets⟩ ⟨parentheses, brackets + 1⟩
  | closeBracket (opens : Bool) (parentheses brackets : Nat) :
      Step ⟨']', .code, opens⟩ ⟨parentheses, brackets + 1⟩ ⟨parentheses, brackets⟩
  | pass (cell : Cell) (unmarked : ∀ mark ∈ marks, cell.isCode mark = false)
      (nesting : Nesting) : Step cell nesting nesting

/-- A cell does only one of these things. -/
theorem step_of_step?_eq_some
    {nesting next : Nesting}
    {cell : Cell}
    (step : nesting.step? cell = some next) :
    Step cell nesting next := by
  obtain ⟨char, kind, opens⟩ := cell
  unfold step? at step
  split at step
  case h_1 isCode isOpening =>
    obtain ⟨rfl, rfl⟩ := And.intro isCode isOpening
    exact Option.some.inj step ▸ .openParenthesis opens _ _
  case h_2 isCode isClosing =>
    obtain ⟨rfl, rfl⟩ := And.intro isCode isClosing
    exact Option.some.inj step ▸ .closeParenthesis opens _ _
  case h_3 isCode isOpening =>
    obtain ⟨rfl, rfl⟩ := And.intro isCode isOpening
    exact Option.some.inj step ▸ .openBracket opens _ _
  case h_4 isCode isClosing =>
    obtain ⟨rfl, rfl⟩ := And.intro isCode isClosing
    exact Option.some.inj step ▸ .closeBracket opens _ _
  case h_5 | h_6 | h_7 | h_8 => contradiction
  case h_9 =>
    obtain ⟨parentheses, brackets⟩ := next
    obtain rfl := Option.some.inj step
    refine .pass _ (fun mark isMark => ?_) _
    simp only [Cell.isCode, Bool.and_eq_false_iff, beq_eq_false_iff_ne, ← not_and_or]
    rintro ⟨rfl, rfl⟩
    simp only [marks, List.mem_cons, List.not_mem_nil, or_false] at isMark
    obtain rfl | rfl | rfl | rfl | rfl | rfl := isMark <;> simp_all

/-- What is enclosed goes on behind a cell that is neither of the two delimiters. -/
theorem enclosed?_cons_of_isCode_eq_false
    {opening closing : Char}
    {cell : Cell}
    (notOpening : cell.isCode opening = false)
    (notClosing : cell.isCode closing = false)
    (depth : Nat)
    (rest : List Cell) :
    enclosed? opening closing depth (cell :: rest) =
      (enclosed? opening closing depth rest).map (cell :: ·) := by
  rw [enclosed?.eq_def]
  simp only [notOpening, notClosing, Bool.false_eq_true, if_false]

theorem bracketDepth_of_unmarked
    {cell : Cell}
    (unmarked : ∀ mark ∈ marks, cell.isCode mark = false)
    (depth : Nat) :
    bracketDepth depth cell = depth := by
  simp only [bracketDepth, unmarked _ (show '(' ∈ marks by decide),
    unmarked _ (show ')' ∈ marks by decide), unmarked _ (show '[' ∈ marks by decide),
    unmarked _ (show ']' ∈ marks by decide), Bool.or_false, Bool.false_eq_true, if_false]

namespace Step

variable {nesting next : Nesting} {cell : Cell}

theorem step?_eq (step : Step cell nesting next) : nesting.step? cell = some next := by
  cases step with
  | openParenthesis | closeParenthesis | openBracket | closeBracket => rfl
  | pass _ unmarked =>
      unfold step?
      split
      case h_9 => rfl
      all_goals simp_all [marks, Cell.isCode]

theorem parentheses_eq_of_isCode
    (step : Step cell nesting next)
    (opens : cell.isCode '(' = true) :
    next.parentheses = nesting.parentheses + 1 := by
  cases step with
  | openParenthesis => rfl
  | closeParenthesis | openBracket | closeBracket => contradiction
  | pass _ unmarked => exact absurd opens (by simp [unmarked '(' (by decide)])

/-- What is open around stays open. -/
theorem add (step : Step cell nesting next) (outer : Nesting) :
    Step cell (nesting.add outer) (next.add outer) := by
  cases step with
  | openParenthesis opens parentheses brackets =>
      rw [add, add, Nat.add_right_comm]
      exact .openParenthesis opens _ _
  | closeParenthesis opens parentheses brackets =>
      rw [Nesting.add, Nesting.add, Nat.add_right_comm]
      exact .closeParenthesis opens _ _
  | openBracket opens parentheses brackets =>
      rw [Nesting.add, Nesting.add, Nat.add_right_comm]
      exact .openBracket opens _ _
  | closeBracket opens parentheses brackets =>
      rw [Nesting.add, Nesting.add, Nat.add_right_comm]
      exact .closeBracket opens _ _
  | pass _ unmarked => exact .pass cell unmarked _

theorem enclosed?_cons
    (step : Step cell nesting next)
    (outer : Nat)
    (rest : List Cell) :
    enclosed? '(' ')' (nesting.parentheses + outer) (cell :: rest) =
      (enclosed? '(' ')' (next.parentheses + outer) rest).map (cell :: ·) := by
  cases step with
  | openParenthesis opens parentheses brackets =>
      rw [Nat.add_right_comm]
      rfl
  | closeParenthesis opens parentheses brackets =>
      rw [Nat.add_right_comm]
      rfl
  | openBracket | closeBracket =>
      exact enclosed?_cons_of_isCode_eq_false rfl rfl _ _
  | pass _ unmarked =>
      exact enclosed?_cons_of_isCode_eq_false (unmarked _ (by decide)) (unmarked _ (by decide)) _ _

theorem bracketDepth_eq
    (step : Step cell nesting next)
    (outer : Nat) :
    bracketDepth (nesting.parentheses + nesting.brackets + outer) cell =
      next.parentheses + next.brackets + outer := by
  cases step with
  | openParenthesis | closeParenthesis | openBracket | closeBracket =>
      simp [bracketDepth, Cell.isCode]
      omega
  | pass _ unmarked => exact bracketDepth_of_unmarked unmarked _

end Step

/-! ## Going through cells -/

theorem behind?_append
    (nesting : Nesting)
    (front back : List Cell) :
    nesting.behind? (front ++ back) = (nesting.behind? front).bind (behind? · back) :=
  List.foldlM_append

/-- Going through some cells begins with a step. -/
theorem exists_step_of_behind?_cons
    {nesting last : Nesting}
    {cell : Cell}
    {cells : List Cell}
    (run : nesting.behind? (cell :: cells) = some last) :
    ∃ next, Step cell nesting next ∧ next.behind? cells = some last := by
  rw [behind?, List.foldlM_cons] at run
  obtain ⟨next, step, restRun⟩ := Option.bind_eq_some_iff.1 run
  exact ⟨next, step_of_step?_eq_some step, restRun⟩

theorem behind?_cons_of_step
    {nesting next : Nesting}
    {cell : Cell}
    (step : Step cell nesting next)
    (cells : List Cell) :
    nesting.behind? (cell :: cells) = next.behind? cells := by
  rw [behind?, List.foldlM_cons, step.step?_eq]
  rfl

section Run

variable {nesting last : Nesting} {cells : List Cell}

/-- What is open around some cells stays open around them. -/
theorem behind?_add
    (run : nesting.behind? cells = some last)
    (outer : Nesting) :
    (nesting.add outer).behind? cells = some (last.add outer) := by
  induction cells generalizing nesting with
  | nil =>
      obtain rfl := Option.some.inj run
      rfl
  | cons cell rest inductionHypothesis =>
      obtain ⟨next, step, restRun⟩ := exists_step_of_behind?_cons run
      rw [behind?_cons_of_step (step.add outer), inductionHypothesis restRun]

theorem enclosed?_append_of_behind?
    (run : nesting.behind? cells = some last)
    (outer : Nat)
    (rest : List Cell) :
    enclosed? '(' ')' (nesting.parentheses + outer) (cells ++ rest) =
      (enclosed? '(' ')' (last.parentheses + outer) rest).map (cells ++ ·) := by
  induction cells generalizing nesting with
  | nil =>
      obtain rfl := Option.some.inj run
      simp
  | cons cell others inductionHypothesis =>
      obtain ⟨next, step, restRun⟩ := exists_step_of_behind?_cons run
      rw [List.cons_append, step.enclosed?_cons, inductionHypothesis restRun, Option.map_map]
      rfl

theorem foldl_bracketDepth_of_behind?
    (run : nesting.behind? cells = some last)
    (outer : Nat) :
    cells.foldl bracketDepth (nesting.parentheses + nesting.brackets + outer) =
      last.parentheses + last.brackets + outer := by
  induction cells generalizing nesting with
  | nil =>
      obtain rfl := Option.some.inj run
      rfl
  | cons cell others inductionHypothesis =>
      obtain ⟨next, step, restRun⟩ := exists_step_of_behind?_cons run
      rw [List.foldl_cons, step.bracketDepth_eq, inductionHypothesis restRun]

/-- No separator that some opened parenthesis or bracket encloses splits. -/
theorem splitCells_append_of_behind?
    (run : nesting.behind? cells = some last)
    (isSplit : Cell → Bool)
    (outer : Nat)
    (rest : List Cell) :
    splitCells isSplit (nesting.parentheses + nesting.brackets + (outer + 1)) (cells ++ rest) =
      (splitCells isSplit (last.parentheses + last.brackets + (outer + 1)) rest).modifyHead
        (chars cells ++ ·) := by
  induction cells generalizing nesting with
  | nil =>
      obtain rfl := Option.some.inj run
      exact (congrFun List.modifyHead_id _).symm
  | cons cell others inductionHypothesis =>
      obtain ⟨next, step, restRun⟩ := exists_step_of_behind?_cons run
      rw [List.cons_append, splitCells, if_neg (by omega), step.bracketDepth_eq,
        inductionHypothesis restRun, List.modifyHead_modifyHead]
      rfl

/-- Where a parenthesis of before is closed, what it encloses ends whatever follows. -/
theorem exists_enclosed?_append_eq_some
    {outer : Nat}
    (run : nesting.behind? cells = some last)
    (falls : last.parentheses + outer < nesting.parentheses) :
    ∃ inner, ∀ rest, enclosed? '(' ')' outer (cells ++ rest) = some inner := by
  induction cells generalizing nesting outer with
  | nil =>
      obtain rfl := Option.some.inj run
      omega
  | cons cell others inductionHypothesis =>
      obtain ⟨next, step, restRun⟩ := exists_step_of_behind?_cons run
      have further : ∀ depth, last.parentheses + depth < next.parentheses →
          (∀ rest, enclosed? '(' ')' outer (cell :: others ++ rest) =
            (enclosed? '(' ')' depth (others ++ rest)).map (cell :: ·)) →
          ∃ inner, ∀ rest, enclosed? '(' ')' outer (cell :: others ++ rest) = some inner := by
        intro depth restFalls passes
        obtain ⟨inner, enclosed⟩ := inductionHypothesis restRun restFalls
        exact ⟨cell :: inner, fun rest => by rw [passes, enclosed, Option.map_some]⟩
      cases step with
      | openParenthesis opens parentheses brackets =>
          exact further (outer + 1) (Nat.succ_lt_succ falls) fun _ => rfl
      | closeParenthesis opens parentheses brackets =>
          cases outer with
          | zero => exact ⟨[], fun _ => rfl⟩
          | succ outer => exact further outer (Nat.lt_of_succ_lt_succ falls) fun _ => rfl
      | openBracket | closeBracket => exact further outer falls fun _ => rfl
      | pass _ unmarked =>
          exact further outer falls fun rest => enclosed?_cons_of_isCode_eq_false
            (unmarked _ (by decide)) (unmarked _ (by decide)) outer (others ++ rest)

end Run

end Nesting

/-! ## Balanced cells -/

/-- Some cells close all the parentheses and brackets that they open, and no others. -/
def IsBalanced (cells : List Cell) : Prop :=
  Nesting.flat.behind? cells = some .flat

theorem Cell.eq_of_isCode
    {cell : Cell}
    {char : Char}
    (isCode : cell.isCode char = true) :
    cell = ⟨char, .code, cell.opens⟩ := by
  obtain ⟨char', kind, opens⟩ := cell
  simp only [Cell.isCode, Bool.and_eq_true, beq_iff_eq] at isCode
  rw [isCode.1, isCode.2]

theorem Cell.isCode_eq_false_of_isCode
    {cell : Cell}
    {char other : Char}
    (isCode : cell.isCode char = true)
    (differs : char ≠ other) :
    cell.isCode other = false := by
  rw [Cell.eq_of_isCode isCode, Cell.isCode, Bool.and_eq_false_iff]
  exact Or.inr (beq_eq_false_iff_ne.2 differs)

theorem Cell.unmarked_of_isCode
    {cell : Cell}
    {char : Char}
    (isCode : cell.isCode char = true)
    (isNoMark : char ∉ Nesting.marks) :
    ∀ mark ∈ Nesting.marks, cell.isCode mark = false := by
  intro mark isMark
  apply Cell.isCode_eq_false_of_isCode isCode
  rintro rfl
  contradiction

theorem Cell.isCode_eq_false_of_isCodeName
    {cell : Cell}
    {char : Char}
    (named : cell.isCodeName = true)
    (isNoNameChar : isNameChar char = false) :
    cell.isCode char = false := by
  simp only [Cell.isCodeName, Bool.and_eq_true] at named
  rw [Cell.isCode, Bool.and_eq_false_iff]
  right
  rw [beq_eq_false_iff_ne]
  rintro rfl
  simp [isNoNameChar] at named

theorem Cell.unmarked_of_isCodeName
    {cell : Cell}
    (named : cell.isCodeName = true) :
    ∀ mark ∈ Nesting.marks, cell.isCode mark = false := by
  have isNoNameChar : ∀ mark ∈ Nesting.marks, isNameChar mark = false :=
    List.all_iff_forall_prop.1 rfl
  exact fun mark isMark => Cell.isCode_eq_false_of_isCodeName named (isNoNameChar mark isMark)

namespace IsBalanced

variable {front back cells : List Cell}

theorem behind?_eq
    (balanced : IsBalanced cells)
    (nesting : Nesting) :
    nesting.behind? cells = some nesting := by
  have around := Nesting.behind?_add balanced nesting
  have flat_add : Nesting.flat.add nesting = nesting := by
    simp [Nesting.flat, Nesting.add]
  rwa [flat_add] at around

theorem append
    (frontBalanced : IsBalanced front)
    (backBalanced : IsBalanced back) :
    IsBalanced (front ++ back) := by
  rw [IsBalanced, Nesting.behind?_append, frontBalanced]
  exact backBalanced

theorem of_append_left
    (frontBalanced : IsBalanced front)
    (balanced : IsBalanced (front ++ back)) :
    IsBalanced back := by
  rwa [IsBalanced, Nesting.behind?_append, frontBalanced] at balanced

theorem of_append_right
    (backBalanced : IsBalanced back)
    (balanced : IsBalanced (front ++ back)) :
    IsBalanced front := by
  rw [IsBalanced, Nesting.behind?_append] at balanced
  obtain ⟨nesting, frontRun, backRun⟩ := Option.bind_eq_some_iff.1 balanced
  rw [backBalanced.behind?_eq] at backRun
  rwa [IsBalanced, ← backRun]

/-- Balanced cells can be put in the place of others. -/
theorem exchange
    {middle other : List Cell}
    (middleBalanced : IsBalanced middle)
    (otherBalanced : IsBalanced other)
    (balanced : IsBalanced (front ++ (middle ++ back))) :
    IsBalanced (front ++ (other ++ back)) := by
  rw [IsBalanced, Nesting.behind?_append] at balanced ⊢
  obtain ⟨nesting, frontRun, rest⟩ := Option.bind_eq_some_iff.1 balanced
  rw [Nesting.behind?_append, middleBalanced.behind?_eq] at rest
  rw [frontRun, Option.bind_some, Nesting.behind?_append, otherBalanced.behind?_eq]
  exact rest

theorem cons_of_unmarked
    {cell : Cell}
    (unmarked : ∀ mark ∈ Nesting.marks, cell.isCode mark = false)
    (balanced : IsBalanced cells) :
    IsBalanced (cell :: cells) := by
  rwa [IsBalanced, Nesting.behind?_cons_of_step (.pass cell unmarked .flat)]

theorem of_unmarked
    (unmarked : ∀ cell ∈ cells, ∀ mark ∈ Nesting.marks, cell.isCode mark = false) :
    IsBalanced cells := by
  induction cells with
  | nil => rfl
  | cons cell rest inductionHypothesis =>
      obtain ⟨here, others⟩ := List.forall_mem_cons.1 unmarked
      exact cons_of_unmarked here (inductionHypothesis others)

theorem group
    {opening closing : Cell}
    (opens : opening.isCode '(' = true)
    (balanced : IsBalanced cells)
    (closes : closing.isCode ')' = true) :
    IsBalanced (opening :: (cells ++ [closing])) := by
  rw [Cell.eq_of_isCode opens, Cell.eq_of_isCode closes, IsBalanced, Nesting.flat,
    Nesting.behind?_cons_of_step (.openParenthesis _ 0 0), Nesting.behind?_append,
    balanced.behind?_eq]
  rfl

theorem enclosed?_append
    (balanced : IsBalanced cells)
    (depth : Nat)
    (rest : List Cell) :
    enclosed? '(' ')' depth (cells ++ rest) =
      (enclosed? '(' ')' depth rest).map (cells ++ ·) := by
  have enclosed := Nesting.enclosed?_append_of_behind? balanced depth rest
  rwa [Nesting.flat, Nat.zero_add] at enclosed

end IsBalanced

/-! ## Splitting -/

section Split

variable {isSplit : Cell → Bool}

theorem splitCells_cons_of_eq_false
    {cell : Cell}
    (noSplit : isSplit cell = false)
    (depth : Nat)
    (rest : List Cell) :
    splitCells isSplit depth (cell :: rest) =
      (splitCells isSplit (bracketDepth depth cell) rest).modifyHead (cell.char :: ·) := by
  rw [splitCells, if_neg (by simp [noSplit])]

/-- Cells at the front decide the pieces before the last one that they reach. -/
theorem exists_splitCells_append
    (isSplit : Cell → Bool)
    (depth : Nat)
    (front : List Cell) :
    ∃ (pieces : List Text) (left : Text) (further : Nat), ∀ rest,
      splitCells isSplit depth (front ++ rest) =
        pieces ++ (splitCells isSplit further rest).modifyHead (left ++ ·) := by
  induction front generalizing depth with
  | nil => exact ⟨[], [], depth, fun _ => (congrFun List.modifyHead_id _).symm⟩
  | cons cell others inductionHypothesis =>
      by_cases splits : depth = 0 ∧ isSplit cell = true
      · obtain ⟨pieces, left, further, same⟩ := inductionHypothesis depth
        refine ⟨[] :: pieces, left, further, fun rest => ?_⟩
        rw [List.cons_append, splitCells, if_pos splits, same]
        rfl
      · obtain ⟨pieces, left, further, same⟩ := inductionHypothesis (bracketDepth depth cell)
        cases pieces with
        | nil =>
            refine ⟨[], cell.char :: left, further, fun rest => ?_⟩
            rw [List.cons_append, splitCells, if_neg splits, same, List.nil_append,
              List.modifyHead_modifyHead]
            rfl
        | cons first pieces =>
            refine ⟨(cell.char :: first) :: pieces, left, further, fun rest => ?_⟩
            rw [List.cons_append, splitCells, if_neg splits, same]
            rfl

theorem chars_eq_of_splitCells_eq_singleton
    {depth : Nat}
    {cells : List Cell}
    {piece : Text}
    (whole : splitCells isSplit depth cells = [piece]) :
    chars cells = piece := by
  induction cells generalizing depth piece with
  | nil => exact List.head_eq_of_cons_eq whole
  | cons cell rest inductionHypothesis =>
      unfold splitCells at whole
      split at whole
      · exact absurd (List.cons.inj whole).2 (splitCells_ne_nil _ _ _)
      · obtain ⟨first, others, pieces⟩ := List.exists_cons_of_ne_nil
          (splitCells_ne_nil isSplit (bracketDepth depth cell) rest)
        rw [pieces, List.modifyHead_cons] at whole
        obtain ⟨rfl, rfl⟩ := List.cons.inj whole
        rw [chars_cons, inductionHypothesis pieces]

/-- Cells that have several pieces are split outside all parentheses and brackets. -/
theorem exists_eq_of_splitCells_eq_cons_cons
    {depth : Nat}
    {cells : List Cell}
    {first second : Text}
    {others : List Text}
    (pieces : splitCells isSplit depth cells = first :: second :: others) :
    ∃ front cell back,
      cells = front ++ cell :: back ∧ isSplit cell = true ∧ chars front = first ∧
        front.foldl bracketDepth depth = 0 ∧ splitCells isSplit 0 back = second :: others := by
  induction cells generalizing depth first with
  | nil => simp [splitCells] at pieces
  | cons cell rest inductionHypothesis =>
      unfold splitCells at pieces
      split at pieces
      case isTrue splits =>
        obtain ⟨rfl, restPieces⟩ := List.cons.inj pieces
        obtain ⟨rfl, isSplit⟩ := splits
        exact ⟨[], cell, rest, rfl, isSplit, rfl, rfl, restPieces⟩
      case isFalse =>
        obtain ⟨firstOfRest, othersOfRest, restPieces⟩ := List.exists_cons_of_ne_nil
          (splitCells_ne_nil isSplit (bracketDepth depth cell) rest)
        rw [restPieces, List.modifyHead_cons] at pieces
        obtain ⟨rfl, rfl⟩ := List.cons.inj pieces
        obtain ⟨front, split, back, rfl, isSplit, rfl, flat, backPieces⟩ :=
          inductionHypothesis restPieces
        exact ⟨cell :: front, split, back, rfl, isSplit, rfl, flat, backPieces⟩

theorem Cell.isCode_of_isSeparator
    {separator : Char}
    {cell : Cell}
    (separates : cell.isSeparator separator = true) :
    cell.isCode separator = true := by
  rw [Cell.isSeparator, Bool.and_eq_true] at separates
  exact separates.1

theorem Cell.isSeparator_eq_false_of_isBracket
    {cell : Cell}
    {char : Char}
    (isCode : cell.isCode char = true)
    (bracket : isBracket char = true)
    (separator : Char) :
    cell.isSeparator separator = false := by
  rw [Cell.isSeparator, Bool.and_eq_false_iff, Bool.not_eq_false']
  by_cases same : char = separator
  · exact Or.inr (same ▸ bracket)
  · exact Or.inl (Cell.isCode_eq_false_of_isCode isCode same)

/-- The two pieces of balanced cells are balanced. -/
theorem IsBalanced.exists_eq_of_splitCells_eq_pair
    {cells : List Cell}
    {first second : Text}
    (balanced : IsBalanced cells)
    (pieces : splitCells (Cell.isSeparator ',') 0 cells = [first, second]) :
    ∃ front comma back,
      cells = front ++ comma :: back ∧ comma.isCode ',' = true ∧
        (IsBalanced front ∧ chars front = first) ∧ IsBalanced back ∧ chars back = second := by
  obtain ⟨front, comma, back, rfl, separates, rfl, flat, backPieces⟩ :=
    exists_eq_of_splitCells_eq_cons_cons pieces
  rw [IsBalanced, Nesting.behind?_append] at balanced
  obtain ⟨nesting, frontRun, rest⟩ := Option.bind_eq_some_iff.1 balanced
  have frontFlat : nesting = .flat := by
    have depth := Nesting.foldl_bracketDepth_of_behind? frontRun 0
    obtain ⟨parentheses, brackets⟩ := nesting
    simp only [Nesting.flat, flat] at depth
    simp only [Nesting.flat, Nesting.mk.injEq]
    omega
  subst frontFlat
  have isComma := Cell.isCode_of_isSeparator separates
  have unmarked := Cell.unmarked_of_isCode isComma (by decide)
  rw [Nesting.behind?_cons_of_step (.pass comma unmarked .flat)] at rest
  exact ⟨front, comma, back, rfl, isComma, ⟨frontRun, rfl⟩, rest,
    chars_eq_of_splitCells_eq_singleton backPieces⟩

/-! ## Cells that are never split -/

/-- Wherever some cells stand, they belong to one piece. -/
def IsUnsplit (isSplit : Cell → Bool) (cells : List Cell) : Prop :=
  ∀ depth rest, splitCells isSplit depth (cells ++ rest) =
    (splitCells isSplit depth rest).modifyHead (chars cells ++ ·)

namespace IsUnsplit

theorem append
    {front back : List Cell}
    (frontUnsplit : IsUnsplit isSplit front)
    (backUnsplit : IsUnsplit isSplit back) :
    IsUnsplit isSplit (front ++ back) := by
  intro depth rest
  rw [List.append_assoc, frontUnsplit, backUnsplit, List.modifyHead_modifyHead, chars_append]
  simp [Function.comp_def]

/-- A stretch in parentheses is never split at separators. -/
theorem group
    {separator : Char}
    {opening closing : Cell}
    {cells : List Cell}
    (opens : opening.isCode '(' = true)
    (balanced : IsBalanced cells)
    (closes : closing.isCode ')' = true) :
    IsUnsplit (Cell.isSeparator separator) (opening :: (cells ++ [closing])) := by
  intro depth rest
  have openingBracket := Cell.isSeparator_eq_false_of_isBracket opens rfl separator
  have closingBracket := Cell.isSeparator_eq_false_of_isBracket closes rfl separator
  have deeper : bracketDepth depth opening =
      Nesting.flat.parentheses + Nesting.flat.brackets + (depth + 1) := by
    simp [bracketDepth, opens, Nesting.flat]
  have back : bracketDepth (Nesting.flat.parentheses + Nesting.flat.brackets + (depth + 1))
      closing = depth := by
    simp [bracketDepth, closes, Cell.isCode_eq_false_of_isCode closes, Nesting.flat]
  rw [List.cons_append, splitCells_cons_of_eq_false openingBracket, deeper, List.append_assoc,
    Nesting.splitCells_append_of_behind? balanced, List.singleton_append,
    splitCells_cons_of_eq_false closingBracket, back, List.modifyHead_modifyHead,
    List.modifyHead_modifyHead]
  simp [Function.comp_def]

/-- Cells that neither separate nor open or close anything are never split. -/
theorem of_unmarked
    {cells : List Cell}
    (unmarked : ∀ cell ∈ cells,
      isSplit cell = false ∧ ∀ mark ∈ Nesting.marks, cell.isCode mark = false) :
    IsUnsplit isSplit cells := by
  induction cells with
  | nil => exact fun _ _ => (congrFun List.modifyHead_id _).symm
  | cons cell rest inductionHypothesis =>
      obtain ⟨⟨noSplit, here⟩, others⟩ := List.forall_mem_cons.1 unmarked
      intro depth behind
      rw [List.cons_append, splitCells_cons_of_eq_false noSplit,
        Nesting.bracketDepth_of_unmarked here, inductionHypothesis others,
        List.modifyHead_modifyHead]
      rfl

/-- A name is never split at what is no character of names. -/
theorem of_isCodeName
    {separator : Char}
    {cells : List Cell}
    (isNoNameChar : isNameChar separator = false)
    (named : ∀ cell ∈ cells, cell.isCodeName = true) :
    IsUnsplit (Cell.isSeparator separator) cells := by
  apply of_unmarked
  intro cell member
  refine ⟨?_, Cell.unmarked_of_isCodeName (named cell member)⟩
  rw [Cell.isSeparator, Cell.isCode_eq_false_of_isCodeName (named cell member) isNoNameChar,
    Bool.false_and]

end IsUnsplit

end Split

end Source
end LessTheme
