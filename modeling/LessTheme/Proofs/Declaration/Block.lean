import LessTheme.Program.Assembly
import LessTheme.Proofs.Declaration.Line
import LessTheme.Proofs.Text.Lines
import LessTheme.Proofs.Text.Pieces

/-!
# Blocks of declaration lines

The layers that are made of declaration lines hold one trimmed line for each
declaration, so reading such a layer back gives the declarations of its lines.
-/

namespace LessTheme

/-- A trimmed line that declares a variable. -/
structure IsDeclarationLine (line : Text) : Prop where
  declares : (declaration? line).isSome = true
  trimmed : line.trim = line
  oneLine : '\n' ∉ line

namespace IsDeclarationLine

/-- Trimming a line that declares a variable gives a declaration line. -/
theorem of_trim
    {line : Text}
    (declares : (declaration? line).isSome = true)
    (oneLine : '\n' ∉ line) :
    IsDeclarationLine line.trim where
  declares := by rwa [declaration?_trim oneLine]
  trimmed := Text.trim_trim line
  oneLine := fun inside => oneLine (Text.trim_subset line inside)

theorem exists_sign
    {line : Text}
    (isLine : IsDeclarationLine line) :
    ∃ rest, line = '@' :: rest := by
  obtain ⟨rest, front⟩ := exists_trimStart_eq_sign_cons isLine.declares
  rw [← isLine.trimmed, Text.trimStart_trim, isLine.trimmed] at front
  exact ⟨rest, front⟩

theorem getLast?_ne_return
    {line : Text}
    (isLine : IsDeclarationLine line) :
    line.getLast? ≠ some '\r' := by
  intro last
  rw [← isLine.trimmed] at last
  have dark := Text.isWhiteSpace_of_getLast?_trim last
  contradiction

end IsDeclarationLine

/-- A block of declaration lines declares what its lines declare. -/
theorem declarations_intercalate
    {lines : List Text}
    (areLines : ∀ line ∈ lines, IsDeclarationLine line) :
    declarations (List.intercalate ['\n'] lines) = declarationsOf lines := by
  have noMark : (List.intercalate ['\n'] lines).head? ≠ some '\ufeff' := by
    cases lines with
    | nil => simp
    | cons line rest =>
        obtain ⟨front, rfl⟩ := (areLines line List.mem_cons_self).exists_sign
        rw [Text.head?_intercalate (List.cons_ne_nil _ _)]
        simp
  rw [declarations, Text.withoutByteOrderMark_eq_self noMark, Text.lines_intercalate]
  · intro line member
    obtain ⟨rest, rfl⟩ := (areLines line member).exists_sign
    exact List.cons_ne_nil _ _
  · exact fun line member => (areLines line member).oneLine
  · exact fun line member => (areLines line member).getLast?_ne_return

theorem isDeclarationLine_of_mem_splitUnit
    {source line : Text}
    (member : line ∈ (splitUnit source).declarations) :
    IsDeclarationLine line := by
  obtain ⟨untrimmed, isUntrimmed, rfl⟩ := List.mem_map.1 member
  obtain ⟨inSection, declares⟩ := List.mem_filter.1 isUntrimmed
  have inLines := List.drop_subset _ _ (List.takeWhile_subset _ inSection)
  exact IsDeclarationLine.of_trim declares (Text.lineFeed_not_mem_of_mem_lines inLines)

theorem declarationsOf_map_trim
    {lines : List Text}
    (oneLine : ∀ line ∈ lines, '\n' ∉ line) :
    declarationsOf (lines.map Text.trim) = declarationsOf lines := by
  unfold declarationsOf
  rw [List.filterMap_map]
  apply List.filterMap_congr
  intro line member
  exact declaration?_trim (oneLine line member)

/-! ## Global defaults -/

theorem isDeclarationLine_of_mem_newDeclarationLines
    {known : List Text}
    {source line : Text}
    (member : line ∈ newDeclarationLines known source) :
    IsDeclarationLine line := by
  obtain ⟨untrimmed, isUntrimmed, rfl⟩ := List.mem_map.1 member
  obtain ⟨inLines, declaresNew⟩ := List.mem_filter.1 isUntrimmed
  obtain ⟨declaration, declared, -⟩ := (Option.any_eq_true _ _).1 declaresNew
  apply IsDeclarationLine.of_trim
  · rw [declared]
    rfl
  · exact Text.lineFeed_not_mem_of_mem_lines inLines

/-- The new lines of a source declare what the source declares beyond the known names. -/
theorem declarationsOf_newDeclarationLines
    (known : List Text)
    (source : Text) :
    declarationsOf (newDeclarationLines known source) =
      (declarationsOf source.lines).filter fun declaration =>
        !known.contains declaration.name := by
  have oneLine : ∀ line ∈ source.lines, '\n' ∉ line :=
    fun _ => Text.lineFeed_not_mem_of_mem_lines
  unfold newDeclarationLines
  rw [declarationsOf_map_trim fun line member => oneLine line (List.mem_filter.1 member).1]
  unfold declarationsOf
  rw [List.filterMap_filter, List.filter_filterMap]
  apply List.filterMap_congr
  intro line _
  cases declaration? line with
  | none => rfl
  | some declaration => rfl

theorem declarations_intercalate_newDeclarationLines
    (known : List Text)
    {source : Text}
    (noMark : source.head? ≠ some '\ufeff') :
    declarations (List.intercalate ['\n'] (newDeclarationLines known source)) =
      (declarations source).filter fun declaration => !known.contains declaration.name := by
  have allRead : declarations source = declarationsOf source.lines := by
    rw [declarations, Text.withoutByteOrderMark_eq_self noMark]
  rw [declarations_intercalate fun line => isDeclarationLine_of_mem_newDeclarationLines,
    declarationsOf_newDeclarationLines, allRead]

end LessTheme
