import LessTheme.Proofs.Text.Trim

/-!
# Letter case and classes of characters

Lower case replaces the capitals of ASCII and nothing else.  A class of
characters that holds a capital exactly if it holds the small letter therefore
does not see the case of a text, and what is cut out of a text by such a class
is cut out of its lower case at the same places.
-/

namespace LessTheme

/-- The letters that have a lower case of their own. -/
def capitals : Text := "ABCDEFGHIJKLMNOPQRSTUVWXYZ"

/-- What is the same for a capital and its small letter is the same in lower case. -/
theorem apply_toLower
    {Value : Type}
    {read : Char → Value}
    (same : capitals.map (fun letter => read letter.toLower) = capitals.map read)
    (char : Char) :
    read char.toLower = read char := by
  by_cases isCapital : char ∈ capitals
  · exact List.map_inj_left.1 same char isCapital
  · have unchanged : char.toLower = char := by
      unfold Char.toLower
      split
      case isFalse => rfl
      case isTrue isUpper =>
        refine absurd ?_ isCapital
        have lower : 65 ≤ char.toNat := UInt32.le_iff_toNat_le.1 isUpper.1
        have upper : char.toNat ≤ 90 := UInt32.le_iff_toNat_le.1 isUpper.2
        have letters : ∀ code, code ≤ 90 → 65 ≤ code → Char.ofNat code ∈ capitals := by decide
        rw [← Char.ofNat_toNat char]
        exact letters _ upper lower
    rw [unchanged]

@[simp] theorem isWhiteSpace_toLower (char : Char) :
    isWhiteSpace char.toLower = isWhiteSpace char :=
  apply_toLower (by decide) char

@[simp] theorem isAsciiWhiteSpace_toLower (char : Char) :
    isAsciiWhiteSpace char.toLower = isAsciiWhiteSpace char :=
  apply_toLower (by decide) char

@[simp] theorem isNameChar_toLower (char : Char) : isNameChar char.toLower = isNameChar char :=
  apply_toLower (by decide) char

@[simp] theorem isHexDigit_toLower (char : Char) : isHexDigit char.toLower = isHexDigit char :=
  apply_toLower (by decide) char

@[simp] theorem isDigit_toLower (char : Char) : char.toLower.isDigit = char.isDigit :=
  apply_toLower (by decide) char

@[simp] theorem isAlpha_toLower (char : Char) : char.toLower.isAlpha = char.isAlpha :=
  apply_toLower (by decide) char

/-- Lower case neither makes nor removes a mark that is no letter. -/
theorem toLower_eq_iff
    {mark : Char}
    (noLetter : mark.isAlpha = false)
    (char : Char) :
    char.toLower = mark ↔ char = mark := by
  have letters : capitals.all (fun letter => letter.toLower.isAlpha && letter.isAlpha) = true := by
    decide
  have differs : ∀ letter : Char, letter.isAlpha = true → ¬letter = mark := by
    rintro letter isLetter rfl
    rw [noLetter] at isLetter
    contradiction
  refine iff_of_eq (@apply_toLower Prop (· = mark)
    (List.map_congr_left fun letter isCapital => ?_) char)
  obtain ⟨small, large⟩ := Bool.and_eq_true_iff.1 (List.all_eq_true.1 letters letter isCapital)
  exact propext (iff_of_false (differs _ small) (differs _ large))

theorem toLower_beq
    {mark : Char}
    (noLetter : mark.isAlpha = false)
    (char : Char) :
    (char.toLower == mark) = (char == mark) := by
  rw [Bool.eq_iff_iff, beq_iff_eq, beq_iff_eq, toLower_eq_iff noLetter]

theorem map_toLower_eq_some_iff
    {mark : Char}
    (noLetter : mark.isAlpha = false)
    (next : Option Char) :
    next.map Char.toLower = some mark ↔ next = some mark := by
  simp [Option.map_eq_some_iff, toLower_eq_iff noLetter]

namespace Text

@[simp] theorem lower_cons
    (char : Char)
    (rest : Text) :
    lower (char :: rest) = char.toLower :: lower rest := rfl

@[simp] theorem lower_append
    (front back : Text) :
    lower (front ++ back) = lower front ++ lower back :=
  List.map_append

@[simp] theorem length_lower (text : Text) : (lower text).length = text.length :=
  List.length_map _

@[simp] theorem head?_lower (text : Text) : text.lower.head? = text.head?.map Char.toLower :=
  List.head?_map

@[simp] theorem getLast?_lower (text : Text) :
    text.lower.getLast? = text.getLast?.map Char.toLower :=
  List.getLast?_map

@[simp] theorem tail_lower (text : Text) : text.lower.tail = lower text.tail :=
  List.map_tail.symm

@[simp] theorem isEmpty_lower (text : Text) : text.lower.isEmpty = text.isEmpty :=
  List.isEmpty_map

@[simp] theorem lower_lower (text : Text) : text.lower.lower = text.lower := by
  rw [lower, lower, List.map_map]
  exact List.map_congr_left fun char _ => apply_toLower (by decide) char

/-- A text without letters is no other text in lower case. -/
theorem lower_beq
    {marks : Text}
    (noLetters : marks.any Char.isAlpha = false)
    (text : Text) :
    (text.lower == marks) = (text == marks) := by
  induction marks generalizing text with
  | nil => cases text <;> rfl
  | cons mark rest inductionHypothesis =>
      rw [List.any_cons, Bool.or_eq_false_iff] at noLetters
      obtain ⟨here, others⟩ := noLetters
      cases text with
      | nil => rfl
      | cons char text =>
          rw [lower_cons, List.cons_beq_cons, List.cons_beq_cons, toLower_beq here,
            inductionHypothesis others]

/-- A text is compared with words up to its case. -/
@[simp] theorem isOneOf_lower
    (text : Text)
    (choices : List Text) :
    text.lower.isOneOf choices = text.isOneOf choices := by
  have same : text.lower.equalsIgnoringCase = text.equalsIgnoringCase := by
    funext word
    rw [equalsIgnoringCase, equalsIgnoringCase, lower_lower]
  rw [isOneOf, isOneOf, same]

section Class

variable {isMember : Char → Bool}

/-- A class that does not see letter case holds all of a text if it holds all of its lower case. -/
theorem all_lower
    (same : ∀ char : Char, isMember char.toLower = isMember char)
    (text : Text) :
    text.lower.all isMember = text.all isMember := by
  rw [lower, List.all_map]
  exact congrArg text.all (funext same)

theorem takeWhile_lower
    (same : ∀ char : Char, isMember char.toLower = isMember char)
    (text : Text) :
    text.lower.takeWhile isMember = lower (text.takeWhile isMember) := by
  rw [lower, List.takeWhile_map]
  exact congrArg (fun test => lower (text.takeWhile test)) (funext same)

theorem dropWhile_lower
    (same : ∀ char : Char, isMember char.toLower = isMember char)
    (text : Text) :
    text.lower.dropWhile isMember = lower (text.dropWhile isMember) := by
  rw [lower, List.dropWhile_map]
  exact congrArg (fun test => lower (text.dropWhile test)) (funext same)

end Class

/-- Trimming does not see letter case. -/
@[simp] theorem trim_lower (text : Text) : text.lower.trim = text.trim.lower := by
  rw [trim, dropAround, dropWhile_lower isWhiteSpace_toLower, dropEndWhile, lower,
    ← List.map_reverse]
  change (lower (text.dropWhile isWhiteSpace).reverse |>.dropWhile isWhiteSpace).reverse = _
  rw [dropWhile_lower isWhiteSpace_toLower, lower, ← List.map_reverse]
  rfl

end Text
end LessTheme
