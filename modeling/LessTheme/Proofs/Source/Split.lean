import LessTheme.Proofs.Source.Call
import LessTheme.Proofs.Text.Ink
import LessTheme.Proofs.Text.Pieces
import LessTheme.Source.Split

/-!
# The ink of split texts

Splitting at top level takes the separators away and trims the pieces, so the
ink of a text is that of its pieces and of the separators between them.
-/

namespace LessTheme
namespace Source

theorem splitCells_ne_nil
    (isSplit : Cell → Bool)
    (depth : Nat)
    (cells : List Cell) :
    splitCells isSplit depth cells ≠ [] := by
  induction cells generalizing depth with
  | nil => simp [splitCells]
  | cons cell rest inductionHypothesis =>
      unfold splitCells
      split
      · simp
      · simpa using inductionHypothesis (bracketDepth depth cell)

theorem mem_of_mem_splitCells
    {isSplit : Cell → Bool}
    {depth : Nat}
    {cells : List Cell}
    {piece : Text}
    {char : Char}
    (isPiece : piece ∈ splitCells isSplit depth cells)
    (member : char ∈ piece) :
    char ∈ chars cells := by
  induction cells generalizing depth piece with
  | nil =>
      rw [splitCells, List.mem_singleton] at isPiece
      rwa [isPiece] at member
  | cons cell rest inductionHypothesis =>
      unfold splitCells at isPiece
      split at isPiece
      · obtain rfl | isPiece := List.mem_cons.1 isPiece
        · contradiction
        · exact List.mem_cons_of_mem _ (inductionHypothesis isPiece member)
      · obtain ⟨first, others, pieces⟩ := List.exists_cons_of_ne_nil
          (splitCells_ne_nil isSplit (bracketDepth depth cell) rest)
        rw [pieces, List.modifyHead_cons] at isPiece
        have known := @inductionHypothesis (bracketDepth depth cell)
        rw [pieces] at known
        obtain rfl | isPiece := List.mem_cons.1 isPiece
        · obtain rfl | member := List.mem_cons.1 member
          · exact List.mem_cons_self
          · exact List.mem_cons_of_mem _ (known List.mem_cons_self member)
        · exact List.mem_cons_of_mem _ (known (List.mem_cons_of_mem _ isPiece) member)

/-- The pieces of a text hold characters of the text only. -/
theorem subset_of_mem_splitTopLevel
    {separator : Char}
    {text piece : Text}
    (isPiece : piece ∈ splitTopLevel separator text) :
    piece ⊆ text := by
  intro char member
  obtain ⟨untrimmed, isUntrimmed, rfl⟩ := List.mem_map.1 isPiece
  have inside := mem_of_mem_splitCells isUntrimmed (Text.trim_subset untrimmed member)
  rwa [chars_cells] at inside

/-- The pieces between separators have all the ink but that of the separators. -/
theorem sum_ink_splitCells
    {separator : Char}
    (inked : isWhiteSpace separator = false)
    (depth : Nat)
    (cells : List Cell) :
    ((splitCells (Cell.isSeparator separator) depth cells).map Text.ink).sum +
        (splitCells (Cell.isSeparator separator) depth cells).length =
      Text.ink (chars cells) + 1 := by
  induction cells generalizing depth with
  | nil => rfl
  | cons cell rest inductionHypothesis =>
      unfold splitCells
      split
      case isTrue splits =>
        have sameChar : cell.char = separator := by
          have separates := splits.2
          simp only [Cell.isSeparator, Bool.and_eq_true] at separates
          exact Cell.char_of_isCode separates.1
        have restInk := inductionHypothesis depth
        simp [sameChar, inked] at restInk ⊢
        omega
      case isFalse =>
        have restInk := inductionHypothesis (bracketDepth depth cell)
        obtain ⟨first, others, pieces⟩ := List.exists_cons_of_ne_nil
          (splitCells_ne_nil (Cell.isSeparator separator) (bracketDepth depth cell) rest)
        rw [pieces] at restInk ⊢
        simp at restInk ⊢
        omega

/-- The pieces of a text have all its ink but that of the separators. -/
theorem sum_ink_splitTopLevel
    (separator : Char)
    (inked : isWhiteSpace separator = false)
    (text : Text) :
    ((splitTopLevel separator text).map Text.ink).sum +
        (splitTopLevel separator text).length =
      Text.ink text + 1 := by
  have pieces := sum_ink_splitCells inked 0 (cells text)
  rw [chars_cells] at pieces
  rw [← pieces, splitTopLevel, List.map_map, List.length_map]
  congr 3
  funext piece
  exact Text.ink_trim piece

end Source
end LessTheme
