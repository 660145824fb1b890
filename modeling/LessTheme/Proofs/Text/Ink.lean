import Mathlib.Algebra.GroupWithZero.Nat
import LessTheme.Proofs.Text.Pieces
import LessTheme.Text.Quoted

/-!
# The ink of a text

The ink of a text is the number of its characters that are not white space.
Trimming and collapsing keep it, so it measures what a rewriting pass adds to
a stylesheet even where the pass tidies up white space.
-/

namespace LessTheme
namespace Text

/-- Number of characters that are not white space. -/
def ink (text : Text) : Nat :=
  text.countP fun char => !isWhiteSpace char

@[simp] theorem ink_nil : ink [] = 0 := rfl

@[simp] theorem ink_cons
    (char : Char)
    (text : Text) :
    ink (char :: text) = ink text + if isWhiteSpace char then 0 else 1 := by
  unfold ink
  rw [List.countP_cons]
  cases isWhiteSpace char <;> rfl

@[simp] theorem ink_append
    (left right : Text) :
    ink (left ++ right) = ink left + ink right :=
  List.countP_append

/-- Dropping white space in front keeps the ink. -/
@[simp] theorem ink_dropWhile_isWhiteSpace
    (text : Text) :
    ink (text.dropWhile isWhiteSpace) = ink text := by
  induction text with
  | nil => rfl
  | cons char rest inductionHypothesis =>
      cases blank : isWhiteSpace char with
      | true =>
          rw [List.dropWhile_cons_of_pos blank, inductionHypothesis]
          simp [blank]
      | false =>
          rw [List.dropWhile_cons_of_neg (by simp [blank])]

@[simp] theorem ink_reverse (text : Text) : ink text.reverse = ink text :=
  List.countP_reverse

@[simp] theorem ink_trimEnd (text : Text) : ink text.trimEnd = ink text := by
  unfold trimEnd dropEndWhile
  rw [ink_reverse, ink_dropWhile_isWhiteSpace, ink_reverse]

@[simp] theorem ink_trim (text : Text) : ink text.trim = ink text := by
  change ink (trimEnd (text.dropWhile isWhiteSpace)) = ink text
  rw [ink_trimEnd, ink_dropWhile_isWhiteSpace]

/-- Splitting at white space keeps the ink. -/
theorem sum_ink_splitWhere_isWhiteSpace
    (text : Text) :
    ((splitWhere isWhiteSpace text).map ink).sum = ink text := by
  induction text with
  | nil => rfl
  | cons char rest inductionHypothesis =>
      obtain ⟨first, others, pieces⟩ :=
        List.exists_cons_of_ne_nil (splitWhere_ne_nil isWhiteSpace rest)
      rw [pieces, List.map_cons, List.sum_cons] at inductionHypothesis
      cases blank : isWhiteSpace char with
      | true => simp [splitWhere, pieces, blank, inductionHypothesis]
      | false =>
          simp [splitWhere, pieces, blank, ← inductionHypothesis]
          omega

/-- Texts without ink are irrelevant to the ink of a list of texts. -/
theorem sum_ink_filter_not_isEmpty
    (texts : List Text) :
    ((texts.filter fun text => !text.isEmpty).map ink).sum = (texts.map ink).sum := by
  induction texts with
  | nil => rfl
  | cons text rest inductionHypothesis =>
      cases text with
      | nil => simpa using inductionHypothesis
      | cons char tail => simp [inductionHypothesis]

/-- A separator of white space adds no ink. -/
theorem ink_intercalate
    {separator : Text}
    (blank : ink separator = 0)
    (texts : List Text) :
    ink (List.intercalate separator texts) = (texts.map ink).sum := by
  induction texts with
  | nil => rfl
  | cons text rest inductionHypothesis =>
      cases rest with
      | nil => simp
      | cons next others =>
          rw [List.intercalate_cons_cons, ink_append, ink_append,
            inductionHypothesis, blank]
          simp

/-- Collapsing white space keeps the ink. -/
@[simp] theorem ink_collapse (text : Text) : ink text.collapse = ink text := by
  unfold collapse words
  rw [ink_intercalate (by decide), sum_ink_filter_not_isEmpty,
    sum_ink_splitWhere_isWhiteSpace]

/-- A literal string has the ink of its text, the tilde and two quotes. -/
theorem ink_of_literal?_eq_some
    {text literal : Text}
    (written : text.literal? = some literal) :
    ink literal = ink text + 3 := by
  unfold literal? at written
  split at written
  · split at written
    · contradiction
    · obtain rfl := Option.some.inj written
      simp [isWhiteSpace]
  · obtain rfl := Option.some.inj written
    simp [isWhiteSpace]

end Text
end LessTheme
