import Mathlib.Data.List.DropRight
import LessTheme.Text.Ascii
import LessTheme.Text.WhiteSpace

/-!
# Trimmed texts

A trimmed text neither begins nor ends with white space, so trimming it again
leaves it as it is.
-/

namespace LessTheme

/-- White space is no part of a name. -/
theorem isNameChar_of_isWhiteSpace
    {char : Char}
    (blank : isWhiteSpace char = true) :
    isNameChar char = false := by
  simp only [isWhiteSpace, Bool.or_eq_true, Bool.and_eq_true, decide_eq_true_eq, beq_iff_eq]
    at blank
  delta isNameChar Char.isAlphanum Char.isAlpha Char.isUpper Char.isLower Char.isDigit
  simp only [ge_iff_le, UInt32.le_iff_toNat_le, Bool.or_eq_false_iff, Bool.and_eq_false_iff,
    decide_eq_false_iff_not, beq_eq_false_iff_ne]
  have code : char.val.toNat = char.toNat := rfl
  refine ⟨⟨⟨⟨?_, ?_⟩, ?_⟩, ?_⟩, ?_⟩
  · simp; omega
  · simp; omega
  · simp; omega
  · rintro rfl
    simp at blank
  · rintro rfl
    simp at blank

namespace Text

theorem trim_eq_rdropWhile (text : Text) :
    text.trim = text.trimStart.rdropWhile isWhiteSpace := rfl

/-- What is cut off from the end of a text is white space. -/
theorem exists_eq_trimEnd_append
    (text : Text) :
    ∃ spaces : Text, text = text.trimEnd ++ spaces ∧ ∀ char ∈ spaces, isWhiteSpace char = true :=
  ⟨text.rtakeWhile isWhiteSpace, List.rdropWhile_append_rtakeWhile.symm,
    fun _ => List.mem_rtakeWhile_imp⟩

/-- What trimming the front leaves behind the trimmed text is white space. -/
theorem exists_trimStart_eq_trim_append
    (text : Text) :
    ∃ spaces : Text,
      text.trimStart = text.trim ++ spaces ∧ ∀ char ∈ spaces, isWhiteSpace char = true :=
  exists_eq_trimEnd_append text.trimStart

/-- A text is the trimmed text with white space around it. -/
theorem exists_eq_append_trim_append
    (text : Text) :
    ∃ before behind : Text, text = before ++ (text.trim ++ behind) ∧
      (∀ char ∈ before, isWhiteSpace char = true) ∧
        ∀ char ∈ behind, isWhiteSpace char = true := by
  obtain ⟨behind, start, behindBlank⟩ := exists_trimStart_eq_trim_append text
  refine ⟨text.takeWhile isWhiteSpace, behind, ?_, fun _ => List.mem_takeWhile_imp, behindBlank⟩
  rw [← start, trimStart, List.takeWhile_append_dropWhile]

theorem isWhiteSpace_of_head?_trimStart
    {text : Text}
    {char : Char}
    (first : text.trimStart.head? = some char) :
    isWhiteSpace char = false := by
  have stops := List.head?_dropWhile_not isWhiteSpace text
  rw [trimStart] at first
  rwa [first] at stops

theorem isWhiteSpace_of_head?_trim
    {text : Text}
    {char : Char}
    (first : text.trim.head? = some char) :
    isWhiteSpace char = false := by
  obtain ⟨spaces, split, -⟩ := exists_trimStart_eq_trim_append text
  have firstOfRest : text.trimStart.head? = some char := by
    rw [split, List.head?_append, first]
    rfl
  exact isWhiteSpace_of_head?_trimStart firstOfRest

theorem eq_false_of_getLast?_dropEndWhile
    {isDropped : Char → Bool}
    {text : Text}
    {char : Char}
    (last : (dropEndWhile isDropped text).getLast? = some char) :
    isDropped char = false := by
  have nonempty : text.rdropWhile isDropped ≠ [] := by
    intro empty
    change (text.rdropWhile isDropped).getLast? = some char at last
    rw [empty] at last
    contradiction
  obtain rfl := Option.some.inj ((List.getLast?_eq_some_getLast nonempty).symm.trans last)
  exact Bool.eq_false_iff.2 (List.rdropWhile_last_not isDropped text nonempty)

theorem isWhiteSpace_of_getLast?_trim
    {text : Text}
    {char : Char}
    (last : text.trim.getLast? = some char) :
    isWhiteSpace char = false :=
  eq_false_of_getLast?_dropEndWhile last

/-- Nothing is left of a text by trimming exactly if it is blank. -/
theorem trim_eq_nil_iff
    {text : Text} :
    text.trim = [] ↔ text.isBlank = true := by
  rw [isBlank, List.all_eq_true]
  constructor
  · intro nothingLeft
    have onlySpaces : ∀ char ∈ text.trimStart, isWhiteSpace char = true := by
      rwa [trim_eq_rdropWhile, List.rdropWhile_eq_nil_iff] at nothingLeft
    have noStart : text.trimStart = [] := by
      cases start : text.trimStart with
      | nil => rfl
      | cons char rest =>
          have isSpace := onlySpaces char (by simp [start])
          rw [isWhiteSpace_of_head?_trimStart (by rw [start, List.head?_cons])] at isSpace
          contradiction
    exact List.dropWhile_eq_nil_iff.1 noStart
  · intro blank
    rw [trim_eq_rdropWhile, trimStart, List.dropWhile_eq_nil_iff.2 blank]
    rfl

theorem dropWhile_eq_self
    {isDropped : Char → Bool}
    {text : Text}
    (first : ∀ char, text.head? = some char → isDropped char = false) :
    text.dropWhile isDropped = text := by
  cases text with
  | nil => rfl
  | cons char rest =>
      apply List.dropWhile_cons_of_neg
      simp [first char rfl]

/-- A text splits at the first character that fails a test. -/
theorem takeWhile_append_and_dropWhile_append
    {isFront : Char → Bool}
    {front back : Text}
    (passes : ∀ char ∈ front, isFront char = true)
    (stops : ∀ char, back.head? = some char → isFront char = false) :
    (front ++ back).takeWhile isFront = front ∧ (front ++ back).dropWhile isFront = back := by
  have behind : (front ++ back).dropWhile isFront = back := by
    rw [List.dropWhile_append_of_pos passes, dropWhile_eq_self stops]
  refine ⟨List.append_cancel_right (?_ : _ ++ back = _), behind⟩
  nth_rewrite 2 [← behind]
  exact List.takeWhile_append_dropWhile

/-- Where a mark that fails a test stands behind characters that pass it, the parts are unique. -/
theorem append_cons_inj
    {isFront : Char → Bool}
    {mark : Char}
    (stops : isFront mark = false)
    {front other back otherBack : Text}
    (passes : ∀ char ∈ front, isFront char = true)
    (passesOther : ∀ char ∈ other, isFront char = true)
    (same : front ++ mark :: back = other ++ mark :: otherBack) :
    front = other ∧ back = otherBack := by
  have noFront : ∀ rest : Text, ∀ char, (mark :: rest).head? = some char →
      isFront char = false := by
    intro rest char isFirst
    obtain rfl := Option.some.inj isFirst
    exact stops
  have isFrontPart := (takeWhile_append_and_dropWhile_append passes (noFront back)).1
  have isOtherPart := (takeWhile_append_and_dropWhile_append passesOther (noFront otherBack)).1
  have sameFront : front = other := by rw [← isFrontPart, same, isOtherPart]
  rw [sameFront] at same
  exact ⟨sameFront, (List.cons.inj (List.append_cancel_left same)).2⟩

theorem dropEndWhile_eq_self
    {isDropped : Char → Bool}
    {text : Text}
    (last : ∀ char, text.getLast? = some char → isDropped char = false) :
    text.dropEndWhile isDropped = text := by
  change text.rdropWhile isDropped = text
  rw [List.rdropWhile_eq_self_iff]
  intro nonempty
  rw [last _ (List.getLast?_eq_some_getLast nonempty)]
  simp

/-- A text that neither begins nor ends with what is dropped is kept. -/
theorem dropAround_eq_self
    {isDropped : Char → Bool}
    {text : Text}
    (first : ∀ char, text.head? = some char → isDropped char = false)
    (last : ∀ char, text.getLast? = some char → isDropped char = false) :
    text.dropAround isDropped = text := by
  rw [dropAround, dropWhile_eq_self first, dropEndWhile_eq_self last]

theorem trimStart_eq_self
    {text : Text}
    (first : ∀ char, text.head? = some char → isWhiteSpace char = false) :
    text.trimStart = text :=
  dropWhile_eq_self first

@[simp] theorem trimStart_trim (text : Text) : text.trim.trimStart = text.trim :=
  trimStart_eq_self fun _ => isWhiteSpace_of_head?_trim

@[simp] theorem trim_trim (text : Text) : text.trim.trim = text.trim :=
  dropAround_eq_self (fun _ => isWhiteSpace_of_head?_trim) fun _ => isWhiteSpace_of_getLast?_trim

theorem trim_cons_of_isWhiteSpace
    {char : Char}
    (blank : isWhiteSpace char = true)
    (text : Text) :
    trim (char :: text) = text.trim := by
  rw [trim_eq_rdropWhile, trimStart, List.dropWhile_cons_of_pos blank]
  rfl

/-! ## Texts that need no trimming -/

/-- Neither end of a text is white space, and the text is not empty. -/
def HasDarkEnds (text : Text) : Prop :=
  (∃ first rest, text = first :: rest ∧ isWhiteSpace first = false) ∧
    ∃ front last, text = front ++ [last] ∧ isWhiteSpace last = false

theorem HasDarkEnds.trim_eq
    {text : Text}
    (dark : HasDarkEnds text) :
    text.trim = text := by
  obtain ⟨⟨first, rest, starts, firstDark⟩, front, last, ends, lastDark⟩ := dark
  refine dropAround_eq_self (fun char isFirst => ?_) fun char isLast => ?_
  · rw [starts] at isFirst
    obtain rfl := Option.some.inj isFirst
    exact firstDark
  · rw [ends, List.getLast?_concat] at isLast
    obtain rfl := Option.some.inj isLast
    exact lastDark

theorem HasDarkEnds.append
    {front back : Text}
    (frontDark : HasDarkEnds front)
    (backDark : HasDarkEnds back)
    (between : Text) :
    HasDarkEnds (front ++ (between ++ back)) := by
  obtain ⟨⟨first, rest, rfl, firstDark⟩, -⟩ := frontDark
  obtain ⟨-, before, last, rfl, lastDark⟩ := backDark
  refine ⟨⟨first, _, rfl, firstDark⟩, first :: rest ++ (between ++ before), last, ?_, lastDark⟩
  simp only [List.append_assoc]

theorem hasDarkEnds_of_forall
    {text : Text}
    (nonempty : text ≠ [])
    (dark : ∀ char ∈ text, isWhiteSpace char = false) :
    HasDarkEnds text := by
  refine ⟨?_, text.dropLast, text.getLast nonempty, ?_, dark _ (List.getLast_mem nonempty)⟩
  · cases text with
    | nil => contradiction
    | cons first rest => exact ⟨first, rest, rfl, dark first List.mem_cons_self⟩
  · exact (List.dropLast_append_getLast nonempty).symm

/-! ## White space behind a text -/

theorem dropEndWhile_append_of_forall
    {isDropped : Char → Bool}
    {behind : Text}
    (dropped : ∀ char ∈ behind, isDropped char = true)
    (text : Text) :
    dropEndWhile isDropped (text ++ behind) = dropEndWhile isDropped text := by
  rw [dropEndWhile, List.reverse_append, List.dropWhile_append_of_pos]
  · rfl
  · intro char member
    exact dropped char (List.mem_reverse.1 member)

section Behind

variable {spaces : Text}

theorem trimEnd_append_spaces
    (blank : ∀ char ∈ spaces, isWhiteSpace char = true)
    (text : Text) :
    trimEnd (text ++ spaces) = text.trimEnd :=
  dropEndWhile_append_of_forall blank text

/-- White space behind a text stays there unless the text is white space as well. -/
theorem trimStart_append_spaces
    (blank : ∀ char ∈ spaces, isWhiteSpace char = true)
    (text : Text) :
    trimStart (text ++ spaces) = [] ∧ text.trimStart = [] ∨
      trimStart (text ++ spaces) = text.trimStart ++ spaces ∧ text.trimStart ≠ [] := by
  rw [trimStart, trimStart, List.dropWhile_append]
  cases left : text.dropWhile isWhiteSpace with
  | nil =>
      refine Or.inl ⟨?_, rfl⟩
      rw [List.isEmpty_nil, if_pos rfl, List.dropWhile_eq_nil_iff]
      exact blank
  | cons char rest => exact Or.inr ⟨rfl, List.cons_ne_nil char rest⟩

theorem trim_append_spaces
    (blank : ∀ char ∈ spaces, isWhiteSpace char = true)
    (text : Text) :
    trim (text ++ spaces) = text.trim := by
  change trimEnd (trimStart (text ++ spaces)) = text.trimStart.trimEnd
  obtain ⟨left, right⟩ | ⟨kept, -⟩ := trimStart_append_spaces blank text
  · rw [left, right]
  · rw [kept, trimEnd_append_spaces blank]

/-- White space around a text without white space at its ends is cut off. -/
theorem trim_append_append
    {before value : Text}
    (beforeBlank : ∀ char ∈ before, isWhiteSpace char = true)
    (startsDark : ∀ char, value.head? = some char → isWhiteSpace char = false)
    (endsDark : ∀ char, value.getLast? = some char → isWhiteSpace char = false)
    (blank : ∀ char ∈ spaces, isWhiteSpace char = true) :
    trim (before ++ (value ++ spaces)) = value := by
  have trimmed : trim (before ++ (value ++ spaces)) = trim (value ++ spaces) := by
    rw [trim_eq_rdropWhile, trimStart, List.dropWhile_append_of_pos beforeBlank]
    rfl
  rw [trimmed, trim_append_spaces blank]
  exact dropAround_eq_self startsDark endsDark

end Behind

end Text
end LessTheme
