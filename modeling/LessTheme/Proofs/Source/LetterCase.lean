import LessTheme.Proofs.Source.Closed
import LessTheme.Proofs.Text.LetterCase

/-!
# Letter case and cells

No mark that begins or ends a string or a comment, opens a bracket or divides a
text is a letter.  A text in lower case is therefore read into the same cells
with their characters in lower case, and it is split at the same places.
-/

namespace LessTheme
namespace Source

/-- A cell with its character in lower case. -/
def Cell.lower (cell : Cell) : Cell := { cell with char := cell.char.toLower }

theorem Cell.isCode_lower
    {mark : Char}
    (noLetter : mark.isAlpha = false)
    (cell : Cell) :
    cell.lower.isCode mark = cell.isCode mark :=
  congrArg (cell.kind == .code && ·) (toLower_beq noLetter cell.char)

/-! ## Reading -/

theorem parenthesisDepth_toLower
    (depth : Nat)
    (char : Char) :
    parenthesisDepth depth char.toLower = parenthesisDepth depth char := by
  simp (disch := decide) only [parenthesisDepth, toLower_eq_iff]

namespace Mode

/-- A character in lower case is read like the character. -/
theorem HasQuote.read_toLower
    {mode : Mode}
    (hasQuote : mode.HasQuote)
    (char : Char)
    (next : Option Char) :
    mode.read char.toLower (next.map Char.toLower) =
      ((mode.read char next).1.lower, (mode.read char next).2) := by
  cases mode with
  | code depth afterColon =>
      rw [Mode.read, Mode.read]
      simp (disch := decide) only [toLower_eq_iff, map_toLower_eq_some_iff, toLower_beq,
        parenthesisDepth_toLower]
      split_ifs with isQuote
      · obtain rfl | rfl := isQuote <;> rfl
      all_goals rfl
  | string quote depth =>
      have sameQuote : char.toLower = quote ↔ char = quote := by
        obtain rfl | rfl := hasQuote <;> exact toLower_eq_iff rfl char
      rw [Mode.read, Mode.read]
      simp (disch := decide) only [toLower_eq_iff, sameQuote]
      split_ifs <;> rfl
  | escape quote depth => rfl
  | commentOpening depth => rfl
  | comment depth afterStar =>
      rw [Mode.read, Mode.read]
      simp (disch := decide) only [toLower_eq_iff, toLower_beq]
      split_ifs <;> rfl
  | lineComment =>
      rw [Mode.read, Mode.read]
      simp (disch := decide) only [toLower_eq_iff]
      split_ifs <;> rfl

theorem HasQuote.cells_lower
    {mode : Mode}
    (hasQuote : mode.HasQuote)
    (text : Text) :
    mode.cells text.lower = (mode.cells text).map Cell.lower := by
  induction text generalizing mode with
  | nil => rfl
  | cons char rest inductionHypothesis =>
      have sameNext : (Text.lower rest).head? = rest.head?.map Char.toLower := List.head?_map
      rw [Text.lower_cons, Mode.cells, Mode.cells, sameNext, hasQuote.read_toLower,
        inductionHypothesis (hasQuote.read char rest.head?), List.map_cons]

end Mode

/-- A text in lower case has the cells of the text in lower case. -/
theorem cells_lower (text : Text) : cells text.lower = (cells text).map Cell.lower := by
  have hasQuote : Mode.initial.HasQuote := trivial
  exact hasQuote.cells_lower text

/-! ## Splitting -/

theorem bracketDepth_lower
    (depth : Nat)
    (cell : Cell) :
    bracketDepth depth cell.lower = bracketDepth depth cell := by
  simp (disch := decide) only [bracketDepth, Cell.isCode_lower]

theorem splitCells_lower
    {isSplit : Cell → Bool}
    (same : ∀ cell : Cell, isSplit cell.lower = isSplit cell)
    (depth : Nat)
    (cells : List Cell) :
    splitCells isSplit depth (cells.map Cell.lower) =
      (splitCells isSplit depth cells).map Text.lower := by
  induction cells generalizing depth with
  | nil => rfl
  | cons cell rest inductionHypothesis =>
      rw [List.map_cons, splitCells, splitCells, same, bracketDepth_lower, inductionHypothesis,
        inductionHypothesis]
      split
      · rfl
      · cases splitCells isSplit (bracketDepth depth cell) rest <;> rfl

/-- The pieces of a text in lower case are its pieces in lower case. -/
theorem splitTopLevel_lower
    {separator : Char}
    (noLetter : separator.isAlpha = false)
    (text : Text) :
    splitTopLevel separator text.lower = (splitTopLevel separator text).map Text.lower := by
  have same : ∀ cell : Cell, cell.lower.isSeparator separator = cell.isSeparator separator :=
    fun cell => congrArg (· && !isBracket separator) (Cell.isCode_lower noLetter cell)
  rw [splitTopLevel, splitTopLevel, cells_lower, splitCells_lower same, List.map_map, List.map_map]
  exact List.map_congr_left fun piece _ => Text.trim_lower piece

/-- The parts of a value in lower case are its parts in lower case. -/
theorem parts_lower (text : Text) : parts text.lower = (parts text).map Text.lower := by
  have same : ∀ cell : Cell, cell.lower.isGap = cell.isGap :=
    fun cell => congrArg (cell.kind == .code && ·) (isAsciiWhiteSpace_toLower cell.char)
  rw [parts, parts, cells_lower, splitCells_lower same, List.filter_map]
  congr 2
  funext part
  cases part <;> rfl

end Source
end LessTheme
