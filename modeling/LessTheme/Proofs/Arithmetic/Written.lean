import LessTheme.Arithmetic.Evaluation
import LessTheme.Proofs.Arithmetic.Token
import LessTheme.Proofs.Text.Pieces

/-!
# The characters of computed values

A computed value is a number and a unit.  It is written in letters, digits and
few marks, so evaluation writes no character that could end a statement.
-/

namespace LessTheme

/-- The characters that numbers and units are written in. -/
def isResultChar (char : Char) : Bool := char.isAlphanum || char ∈ ['.', '-', '%']

namespace Number

variable {char : Char}

theorem isResultChar_of_mem_toDigits
    {number : Nat}
    (member : char ∈ Nat.toDigits 10 number) :
    isResultChar char = true := by
  have isDigit := Nat.isDigit_of_mem_toDigits (by decide) (by decide) member
  simp [isResultChar, Char.isAlphanum, isDigit]

theorem isResultChar_of_mem_fixedText
    {units : Nat}
    (member : char ∈ fixedText units) :
    isResultChar char = true := by
  unfold fixedText paddedDigits at member
  rw [List.mem_append, List.mem_cons, List.mem_append] at member
  obtain digit | rfl | zero | digit := member
  · exact isResultChar_of_mem_toDigits digit
  · rfl
  · rw [List.eq_of_mem_replicate zero]
    rfl
  · exact isResultChar_of_mem_toDigits digit

theorem isResultChar_of_mem_signed
    {negative : Bool}
    {digits : Text}
    (written : ∀ char ∈ digits, isResultChar char = true)
    (member : char ∈ signed negative digits) :
    isResultChar char = true := by
  unfold signed at member
  split at member
  · obtain rfl | digit := List.mem_cons.1 member
    · rfl
    · exact written char digit
  · exact written char member

/-- A number is written in digits, a point and a sign, or as a word. -/
theorem isResultChar_of_mem_format
    {value : Float}
    (member : char ∈ format value) :
    isResultChar char = true := by
  unfold format floatText at member
  dsimp only at member
  split at member
  · exact List.all_eq_true.1 (by rfl : List.all "NaN".toList isResultChar = true) char member
  · split at member
    · refine isResultChar_of_mem_signed (fun letter inside => ?_) member
      exact List.all_eq_true.1 (by rfl : List.all "inf".toList isResultChar = true) letter inside
    · refine isResultChar_of_mem_signed (fun digit inside => ?_) member
      unfold magnitudeText trimFraction at inside
      exact isResultChar_of_mem_fixedText
        (Text.dropEndWhile_subset _ _ (Text.dropEndWhile_subset _ _ inside))

end Number

namespace Arithmetic

variable {char : Char}

theorem isResultChar_of_isUnitChar (isUnit : isUnitChar char = true) :
    isResultChar char = true := by
  simp only [isUnitChar, Bool.or_eq_true, beq_iff_eq] at isUnit
  obtain letter | rfl := isUnit
  · simp [isResultChar, Char.isAlphanum, letter]
  · rfl

/-- A token carries a unit of letters and percent signs. -/
def Token.HasProperUnit (token : Token) : Prop := ∀ char ∈ token.unit, isUnitChar char = true

theorem hasProperUnit_of_quantity?_eq_some
    {negative : Bool}
    {run : Text}
    {token : Token}
    (read : quantity? negative run = some token) :
    token.HasProperUnit := by
  obtain ⟨numeral, unit, rfl, proper⟩ := exists_eq_quantity_of_quantity?_eq_some read
  exact proper

theorem hasProperUnit_of_tokens?_eq_some
    {operandNext afterBlank : Bool}
    {lexemes : List Lexeme}
    {tokens : List Token}
    (read : tokens? operandNext afterBlank lexemes = some tokens) :
    ∀ token ∈ tokens, token.HasProperUnit := by
  have unitless : ∀ token : Token, token.unit = [] → token.HasProperUnit := by
    intro token isEmpty char member
    rw [isEmpty] at member
    contradiction
  fun_induction tokens? operandNext afterBlank lexemes generalizing tokens with
  | case1 =>
      obtain rfl := Option.some.inj read
      exact List.forall_mem_nil _
  | case2 _ _ _ inductionHypothesis
  | case3 _ _ _ inductionHypothesis
  | case4 _ _ _ inductionHypothesis =>
      obtain ⟨quantity, isQuantity, read⟩ := Option.bind_eq_some_iff.1 read
      obtain ⟨later, isLater, same⟩ := Option.bind_eq_some_iff.1 read
      obtain rfl := Option.some.inj same
      exact List.forall_mem_cons.2
        ⟨hasProperUnit_of_quantity?_eq_some isQuantity, inductionHypothesis isLater⟩
  | case5 _ _ inductionHypothesis =>
      obtain ⟨later, isLater, same⟩ := Option.bind_eq_some_iff.1 read
      obtain rfl := Option.some.inj same
      simp only [List.forall_mem_cons]
      exact ⟨unitless _ rfl, unitless _ rfl, unitless _ rfl, inductionHypothesis isLater⟩
  | case6 _ _ inductionHypothesis
  | case7 _ _ inductionHypothesis =>
      obtain ⟨later, isLater, same⟩ := Option.bind_eq_some_iff.1 read
      obtain rfl := Option.some.inj same
      exact List.forall_mem_cons.2 ⟨unitless _ rfl, inductionHypothesis isLater⟩
  | case8 =>
      rename_i inductionHypothesis
      exact inductionHypothesis read
  | case10 =>
      rename_i inductionHypothesis
      obtain ⟨later, isLater, same⟩ := Option.bind_eq_some_iff.1 read
      obtain rfl := Option.some.inj same
      exact List.forall_mem_cons.2 ⟨unitless _ rfl, inductionHypothesis isLater⟩
  | case9 | case11 | case12 => contradiction

theorem isUnitChar_of_commonUnit?_eq_some
    {tokens : List Token}
    {unit : Text}
    (proper : ∀ token ∈ tokens, token.HasProperUnit)
    (isCommon : commonUnit? tokens = some unit) :
    ∀ char ∈ unit, isUnitChar char = true := by
  unfold commonUnit? at isCommon
  split at isCommon
  case h_1 =>
    obtain rfl := Option.some.inj isCommon
    exact fun _ member => nomatch member
  case h_2 first rest isUnits =>
    split at isCommon
    case isTrue =>
      obtain rfl := Option.some.inj isCommon
      have isUnit : first ∈ units tokens := by simp [isUnits]
      obtain ⟨token, member, rfl⟩ := List.mem_map.1 (List.mem_filter.1 isUnit).1
      exact proper token member
    case isFalse => contradiction

theorem isUnitChar_of_compute?_eq_some
    {Value : Type}
    {field : Field Value}
    {text unit : Text}
    {value : Value}
    (computed : compute? field text = some (value, unit)) :
    ∀ char ∈ unit, isUnitChar char = true := by
  obtain ⟨tokens, read, computed⟩ := Option.bind_eq_some_iff.1 computed
  obtain ⟨common, isCommon, computed⟩ := Option.bind_eq_some_iff.1 computed
  obtain ⟨expression, -, computed⟩ := Option.bind_eq_some_iff.1 computed
  obtain ⟨number, -, same⟩ := Option.bind_eq_some_iff.1 computed
  obtain ⟨-, rfl⟩ := Prod.mk.inj (Option.some.inj same)
  exact isUnitChar_of_commonUnit?_eq_some (hasProperUnit_of_tokens?_eq_some read) isCommon

/-- A result is a number with a unit behind it. -/
theorem exists_eq_format_append_of_result?_eq_some
    {text result : Text}
    (computed : result? text = some result) :
    ∃ number unit, (∀ char ∈ unit, isUnitChar char = true) ∧
      result = Number.format number ++ unit := by
  obtain ⟨tokens, -, computed⟩ := Option.bind_eq_some_iff.1 computed
  obtain ⟨⟨number, unit⟩, isComputed, written⟩ := Option.bind_eq_some_iff.1 computed
  obtain ⟨-, same⟩ := Option.ite_none_right_eq_some.1 written
  exact ⟨number, unit, isUnitChar_of_compute?_eq_some isComputed, (Option.some.inj same).symm⟩

/-- A character of a computed result is one of numbers and units. -/
theorem isResultChar_of_result?_eq_some
    {text result : Text}
    (computed : result? text = some result) :
    ∀ char ∈ result, isResultChar char = true := by
  obtain ⟨number, unit, isUnit, rfl⟩ := exists_eq_format_append_of_result?_eq_some computed
  intro char member
  obtain digit | letter := List.mem_append.1 member
  · exact Number.isResultChar_of_mem_format digit
  · exact isResultChar_of_isUnitChar (isUnit char letter)

/-- Evaluation leaves a value or writes it in the characters of numbers and units. -/
theorem mem_or_isResultChar_of_mem_evaluate
    {value : Text}
    (member : char ∈ evaluate value) :
    char ∈ value ∨ isResultChar char = true := by
  unfold evaluate at member
  cases computed : result? value.trim with
  | none =>
      rw [computed] at member
      exact Or.inl member
  | some result =>
      rw [computed] at member
      exact Or.inr (isResultChar_of_result?_eq_some computed char member)

end Arithmetic
end LessTheme
