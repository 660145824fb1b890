import LessTheme.Proofs.Text.Pieces
import Mathlib.Data.List.TakeWhile

/-!
# Words

The words of a text are its runs of characters that are not white space.  White
space divides words and does nothing else: texts that differ in their runs of
white space only have the same words, and so has the collapsed text.
-/

namespace LessTheme
namespace Text

/-- A text has no white space, or some white space is the first. -/
theorem spaces_induction
    {motive : Text → Prop}
    (dark : ∀ text : Text, (∀ char ∈ text, isWhiteSpace char = false) → motive text)
    (divided : ∀ (front : Text) (space : Char) (back : Text),
      (∀ char ∈ front, isWhiteSpace char = false) → isWhiteSpace space = true →
        motive back → motive (front ++ space :: back))
    (text : Text) :
    motive text := by
  have frontDark : ∀ char ∈ text.takeWhile (!isWhiteSpace ·), isWhiteSpace char = false :=
    fun char member => by simpa using List.mem_takeWhile_imp member
  have whole := List.takeWhile_append_dropWhile (p := (!isWhiteSpace ·)) (l := text)
  cases behind : text.dropWhile (!isWhiteSpace ·) with
  | nil =>
      rw [behind, List.append_nil] at whole
      exact dark text (whole ▸ frontDark)
  | cons space back =>
      have blank : isWhiteSpace space = true := by
        have stops := List.head?_dropWhile_not (!isWhiteSpace ·) text
        rw [behind] at stops
        simpa using stops
      have shorter : back.length < text.length := by
        rw [← whole, behind, List.length_append, List.length_cons]
        omega
      rw [← whole, behind]
      exact divided _ space back frontDark blank (spaces_induction dark divided back)
termination_by text.length

/-- A word is not empty, and white space is no part of it. -/
theorem ne_nil_and_dark_of_mem_words
    {text word : Text}
    (member : word ∈ words text) :
    word ≠ [] ∧ ∀ char ∈ word, isWhiteSpace char = false := by
  obtain ⟨isPiece, nonempty⟩ := List.mem_filter.1 member
  exact ⟨by simpa using nonempty, fun _ inside => (mem_of_mem_splitWhere isPiece inside).2⟩

theorem words_eq_singleton
    {text : Text}
    (nonempty : text ≠ [])
    (dark : ∀ char ∈ text, isWhiteSpace char = false) :
    words text = [text] := by
  rw [words, splitWhere_eq_singleton dark]
  simp [nonempty]

/-- White space divides the words of a text. -/
theorem words_append_cons
    {space : Char}
    (blank : isWhiteSpace space = true)
    (front back : Text) :
    words (front ++ space :: back) = words front ++ words back := by
  rw [words, splitWhere_append_cons blank, List.filter_append, words, words]

section Spaces

variable {spaces : Text}

theorem words_spaces_append
    (blank : ∀ char ∈ spaces, isWhiteSpace char = true)
    (text : Text) :
    words (spaces ++ text) = words text := by
  induction spaces with
  | nil => rfl
  | cons space rest inductionHypothesis =>
      obtain ⟨here, others⟩ := List.forall_mem_cons.1 blank
      exact (words_append_cons here [] (rest ++ text)).trans (inductionHypothesis others)

/-- Any run of white space divides words as well as any other. -/
theorem words_append_spaces_append
    (nonempty : spaces ≠ [])
    (blank : ∀ char ∈ spaces, isWhiteSpace char = true)
    (front back : Text) :
    words (front ++ (spaces ++ back)) = words front ++ words back := by
  obtain ⟨space, rest, rfl⟩ := List.exists_cons_of_ne_nil nonempty
  obtain ⟨here, others⟩ := List.forall_mem_cons.1 blank
  rw [List.cons_append, words_append_cons here, words_spaces_append others]

theorem words_append_spaces
    (blank : ∀ char ∈ spaces, isWhiteSpace char = true)
    (text : Text) :
    words (text ++ spaces) = words text := by
  by_cases empty : spaces = []
  · rw [empty, List.append_nil]
  · have divided := words_append_spaces_append empty blank text []
    rwa [List.append_nil, show words [] = [] from rfl, List.append_nil] at divided

end Spaces

/-- Words that are joined by single spaces are the words of the joined text. -/
theorem words_intercalate
    {texts : List Text}
    (areWords : ∀ text ∈ texts, text ≠ [] ∧ ∀ char ∈ text, isWhiteSpace char = false) :
    words (List.intercalate [' '] texts) = texts := by
  induction texts with
  | nil => rfl
  | cons text rest inductionHypothesis =>
      obtain ⟨⟨nonempty, dark⟩, others⟩ := List.forall_mem_cons.1 areWords
      cases rest with
      | nil => rw [List.intercalate_singleton, words_eq_singleton nonempty dark]
      | cons next further =>
          rw [List.intercalate_cons_cons, List.append_assoc, List.singleton_append,
            words_append_cons rfl, words_eq_singleton nonempty dark, inductionHypothesis others]
          rfl

@[simp] theorem words_collapse (text : Text) : text.collapse.words = text.words :=
  words_intercalate fun _ => ne_nil_and_dark_of_mem_words

@[simp] theorem collapse_collapse (text : Text) : text.collapse.collapse = text.collapse := by
  rw [collapse, words_collapse, ← collapse]

end Text
end LessTheme
