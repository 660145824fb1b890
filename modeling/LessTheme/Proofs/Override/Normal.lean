import LessTheme.Override.Normal
import LessTheme.Proofs.Text.LetterCase
import LessTheme.Proofs.Text.Words
import Mathlib.Logic.Relation

/-!
# Normal forms of values

The normal form of a value joins its words by single spaces, each word with its
hexadecimal colours in lower case.  It is itself in normal form, and two values
have the same normal form exactly if one becomes the other by writing other
white space for white space and letters of the other case in hexadecimal
colours.
-/

namespace LessTheme

/-! ## Where a run of hexadecimal digits ends -/

/-- White space ends a colour. -/
theorem isWordChar_of_isWhiteSpace
    {char : Char}
    (blank : isWhiteSpace char = true) :
    isWordChar char = false := by
  have apart : WordChar.all.all fun range =>
      [(9, 13), (0x20, 0x20), (0x85, 0x85), (0xA0, 0xA0), (0x1680, 0x1680), (0x2000, 0x200A),
        (0x2028, 0x2029), (0x202F, 0x202F), (0x205F, 0x205F), (0x3000, 0x3000)].all fun gap =>
          range.last < gap.1 || gap.2 < range.first := by decide +kernel
  rw [isWordChar, List.any_eq_false]
  intro range member
  have gaps := List.all_eq_true.1 apart range member
  simp only [List.all_cons, List.all_nil, Bool.and_true, Bool.and_eq_true, Bool.or_eq_true,
    decide_eq_true_eq] at gaps
  simp only [isWhiteSpace, Bool.or_eq_true, Bool.and_eq_true, decide_eq_true_eq, beq_iff_eq]
    at blank
  simp only [Bool.and_eq_true, decide_eq_true_eq]
  omega

/-- A colour does not end before a further hexadecimal digit. -/
theorem isWordChar_of_isHexDigit
    {char : Char}
    (isDigit : isHexDigit char = true) :
    isWordChar char = true := by
  have ranges : ∀ (index : Nat) (range : WordChar.Range), WordChar.all[index]? = some range →
      range.first ≤ char.toNat → char.toNat ≤ range.last → isWordChar char = true := by
    intro index range found first last
    refine List.any_eq_true.2 ⟨range, List.mem_of_getElem? found, ?_⟩
    simp [first, last]
  simp only [isHexDigit, Char.isDigit, Bool.or_eq_true, Bool.and_eq_true, decide_eq_true_eq]
    at isDigit
  obtain (⟨first, last⟩ | ⟨first, last⟩) | ⟨first, last⟩ := isDigit
  · exact ranges 0 ⟨0x30, 0x39⟩ rfl (UInt32.le_iff_toNat_le.1 first) (UInt32.le_iff_toNat_le.1 last)
  · exact ranges 3 ⟨0x61, 0x7A⟩ rfl (UInt32.le_iff_toNat_le.1 first)
      (Nat.le_trans (UInt32.le_iff_toNat_le.1 last) (by decide))
  · exact ranges 1 ⟨0x41, 0x5A⟩ rfl (UInt32.le_iff_toNat_le.1 first)
      (Nat.le_trans (UInt32.le_iff_toNat_le.1 last) (by decide))

/-- The characters of a list are hexadecimal digits, and none follows. -/
structure IsDigitRun (digits back : Text) : Prop where
  areDigits : ∀ char ∈ digits, isHexDigit char = true
  ends : ∀ char, back.head? = some char → isHexDigit char = false

/-- The cases of reading colours: a hash with the digits behind it, or another character. -/
theorem colors_induction
    {motive : Text → Prop}
    (nil : motive [])
    (other : ∀ char rest, char ≠ '#' → motive rest → motive (char :: rest))
    (hash : ∀ digits back, IsDigitRun digits back → motive back →
      motive ('#' :: (digits ++ back)))
    (text : Text) :
    motive text := by
  match text with
  | [] => exact nil
  | char :: rest =>
      by_cases isHash : char = '#'
      · subst isHash
        have run : IsDigitRun (rest.takeWhile isHexDigit) (rest.dropWhile isHexDigit) := by
          refine ⟨fun _ => List.mem_takeWhile_imp, fun char isFirst => ?_⟩
          have stops := List.head?_dropWhile_not isHexDigit rest
          rwa [isFirst] at stops
        have shorter : (rest.dropWhile isHexDigit).length < rest.length + 1 :=
          Nat.lt_succ_of_le (List.length_dropWhile_le _ _)
        rw [← List.takeWhile_append_dropWhile (p := isHexDigit) (l := rest)]
        exact hash _ _ run (colors_induction nil other hash _)
      · exact other char rest isHash (colors_induction nil other hash rest)
termination_by text.length

/-! ## Colours in lower case -/

/-- Read from its end, a text is its digits in front and the rest with its colours in lower case. -/
theorem foldr_prepend (text : Text) :
    text.foldr ColorReading.prepend ⟨[], []⟩ =
      ⟨text.takeWhile isHexDigit, lowerColors (text.dropWhile isHexDigit)⟩ := by
  induction text with
  | nil => rfl
  | cons char rest inductionHypothesis =>
      rw [List.foldr_cons]
      cases isDigit : isHexDigit char with
      | true =>
          rw [inductionHypothesis, ColorReading.prepend, if_pos isDigit,
            List.takeWhile_cons_of_pos isDigit, List.dropWhile_cons_of_pos isDigit]
      | false =>
          have noDigit : ¬isHexDigit char = true := by simp [isDigit]
          rw [List.takeWhile_cons_of_neg noDigit, List.dropWhile_cons_of_neg noDigit, lowerColors,
            List.foldr_cons, ColorReading.prepend, if_neg noDigit]
          split <;> rfl

theorem lowerColors_eq (text : Text) :
    lowerColors text = text.takeWhile isHexDigit ++ lowerColors (text.dropWhile isHexDigit) := by
  conv_lhs => rw [lowerColors, foldr_prepend]

theorem lowerColors_cons
    {char : Char}
    (noHash : char ≠ '#')
    (rest : Text) :
    lowerColors (char :: rest) = char :: lowerColors rest := by
  rw [lowerColors, List.foldr_cons, foldr_prepend, ColorReading.prepend, if_neg noHash]
  split <;> simp [← lowerColors_eq]

/-- The first character of a text is no digit of a colour. -/
@[simp] theorem head?_lowerColors (text : Text) : (lowerColors text).head? = text.head? := by
  cases text with
  | nil => rfl
  | cons char rest =>
      by_cases isHash : char = '#'
      · subst isHash
        rfl
      · rw [lowerColors_cons isHash]
        rfl

theorem IsDigitRun.lowerColors_hash
    {digits back : Text}
    (run : IsDigitRun digits back) :
    lowerColors ('#' :: (digits ++ back)) =
      '#' :: (lowerColorDigits digits back.head? ++ lowerColors back) := by
  obtain ⟨front, behind⟩ := Text.takeWhile_append_and_dropWhile_append run.areDigits run.ends
  have noDigit : ¬isHexDigit '#' = true := by decide
  rw [lowerColors, List.foldr_cons, foldr_prepend, front, behind, ColorReading.prepend,
    if_neg noDigit, if_pos rfl, head?_lowerColors]
  rfl

/-- Whatever follows, the letters of a run stay the same up to their case. -/
@[simp] theorem lower_lowerColorDigits
    (digits : Text)
    (next : Option Char) :
    (lowerColorDigits digits next).lower = digits.lower := by
  unfold lowerColorDigits
  split
  · exact Text.lower_lower digits
  · rfl

theorem lowerColorDigits_idem
    (digits : Text)
    (next : Option Char) :
    lowerColorDigits (lowerColorDigits digits next) next = lowerColorDigits digits next := by
  have sameLength : (lowerColorDigits digits next).length = digits.length := by
    rw [← Text.length_lower, lower_lowerColorDigits, Text.length_lower]
  conv_lhs => rw [lowerColorDigits, sameLength, lower_lowerColorDigits]
  unfold lowerColorDigits
  split <;> rfl

theorem IsDigitRun.lowerColorDigits
    {digits back : Text}
    (run : IsDigitRun digits back) :
    IsDigitRun (lowerColorDigits digits back.head?) (lowerColors back) := by
  refine ⟨List.all_eq_true.1 ?_, fun char isFirst => run.ends char ?_⟩
  · rw [← Text.all_lower isHexDigit_toLower, lower_lowerColorDigits,
      Text.all_lower isHexDigit_toLower]
    exact List.all_eq_true.2 run.areDigits
  · rwa [head?_lowerColors] at isFirst

/-- Lower case leaves nothing to be put in lower case. -/
@[simp] theorem lowerColors_lowerColors (text : Text) :
    lowerColors (lowerColors text) = lowerColors text := by
  induction text using colors_induction with
  | nil => rfl
  | other char rest noHash inductionHypothesis =>
      rw [lowerColors_cons noHash, lowerColors_cons noHash, inductionHypothesis]
  | hash digits back run inductionHypothesis =>
      rw [run.lowerColors_hash, run.lowerColorDigits.lowerColors_hash, head?_lowerColors,
        lowerColorDigits_idem, inductionHypothesis]

/-- Nothing but the case of letters changes. -/
@[simp] theorem lower_lowerColors (text : Text) : (lowerColors text).lower = text.lower := by
  induction text using colors_induction with
  | nil => rfl
  | other char rest noHash inductionHypothesis =>
      rw [lowerColors_cons noHash, Text.lower_cons, Text.lower_cons, inductionHypothesis]
  | hash digits back run inductionHypothesis =>
      rw [run.lowerColors_hash, Text.lower_cons, Text.lower_cons, Text.lower_append,
        Text.lower_append, inductionHypothesis, lower_lowerColorDigits]

/-- In front of anything but a word character a text is read as at its end. -/
theorem lowerColors_append
    {back : Text}
    (boundary : back.head?.any isWordChar = false)
    (front : Text) :
    lowerColors (front ++ back) = lowerColors front ++ lowerColors back := by
  induction front using colors_induction with
  | nil => rfl
  | other char rest noHash inductionHypothesis =>
      rw [List.cons_append, lowerColors_cons noHash, lowerColors_cons noHash, inductionHypothesis]
      rfl
  | hash digits rest run inductionHypothesis =>
      have runOn : IsDigitRun digits (rest ++ back) := by
        refine ⟨run.areDigits, fun char isFirst => Bool.eq_false_iff.2 fun isDigit => ?_⟩
        cases rest with
        | nil =>
            rw [List.nil_append] at isFirst
            rw [isFirst, Option.any_some, isWordChar_of_isHexDigit isDigit] at boundary
            contradiction
        | cons first others =>
            rw [run.ends char isFirst] at isDigit
            contradiction
      have sameEnd : lowerColorDigits digits (rest ++ back).head? =
          lowerColorDigits digits rest.head? := by
        cases rest with
        | nil => simp [lowerColorDigits, boundary]
        | cons first others => rfl
      rw [List.cons_append, List.append_assoc, runOn.lowerColors_hash, run.lowerColors_hash,
        inductionHypothesis, sameEnd, List.cons_append, List.append_assoc]

/-! ## Colours in words -/

/-- White space ends a colour, so it can be read as the end of a text. -/
theorem lowerColors_append_space
    {space : Char}
    (blank : isWhiteSpace space = true)
    (front back : Text) :
    lowerColors (front ++ space :: back) = lowerColors front ++ space :: lowerColors back := by
  have noHash : space ≠ '#' := by
    rintro rfl
    contradiction
  have boundary : (space :: back).head?.any isWordChar = false := isWordChar_of_isWhiteSpace blank
  rw [lowerColors_append boundary, lowerColors_cons noHash]

theorem dark_lowerColors
    {text : Text}
    (dark : ∀ char ∈ text, isWhiteSpace char = false) :
    ∀ char ∈ lowerColors text, isWhiteSpace char = false := by
  have same : (lowerColors text).all (!isWhiteSpace ·) = text.all (!isWhiteSpace ·) := by
    have noSpace : ∀ char : Char, (!isWhiteSpace char.toLower) = !isWhiteSpace char :=
      fun char => congrArg not (isWhiteSpace_toLower char)
    rw [← Text.all_lower noSpace, lower_lowerColors, Text.all_lower noSpace]
  simpa using same.trans (List.all_eq_true.2 (by simpa using dark))

theorem words_lowerColors_of_dark
    {text : Text}
    (dark : ∀ char ∈ text, isWhiteSpace char = false) :
    (lowerColors text).words = text.words.map lowerColors := by
  cases text with
  | nil => rfl
  | cons char rest =>
      have nonempty : lowerColors (char :: rest) ≠ [] := by
        intro empty
        have first := head?_lowerColors (char :: rest)
        rw [empty] at first
        contradiction
      rw [Text.words_eq_singleton (List.cons_ne_nil char rest) dark,
        Text.words_eq_singleton nonempty (dark_lowerColors dark)]
      rfl

/-- The colours of a text are those of its words. -/
theorem words_lowerColors (text : Text) :
    (lowerColors text).words = text.words.map lowerColors := by
  induction text using Text.spaces_induction with
  | dark text dark => exact words_lowerColors_of_dark dark
  | divided front space back frontDark blank inductionHypothesis =>
      rw [lowerColors_append_space blank, Text.words_append_cons blank,
        Text.words_append_cons blank, words_lowerColors_of_dark frontDark, inductionHypothesis,
        List.map_append]

theorem lowerColors_intercalate (texts : List Text) :
    lowerColors (List.intercalate [' '] texts) =
      List.intercalate [' '] (texts.map lowerColors) := by
  induction texts with
  | nil => rfl
  | cons text rest inductionHypothesis =>
      cases rest with
      | nil => simp
      | cons next others =>
          rw [List.intercalate_cons_cons, List.append_assoc, List.singleton_append,
            lowerColors_append_space rfl, inductionHypothesis]
          simp

/-- Colours are put in lower case before or after white space is collapsed. -/
theorem normalForm_eq_collapse (value : Text) :
    normalForm value = (lowerColors value).collapse := by
  rw [normalForm, Text.collapse, lowerColors_intercalate, Text.collapse, words_lowerColors]

theorem normalForm_normalForm (value : Text) :
    normalForm (normalForm value) = normalForm value := by
  rw [normalForm_eq_collapse (normalForm value), normalForm, lowerColors_lowerColors, ← normalForm,
    normalForm_eq_collapse, Text.collapse_collapse]

theorem normalForm_eq_of_words_eq
    {value other : Text}
    (sameWords : value.words = other.words) :
    normalForm value = normalForm other := by
  rw [normalForm, Text.collapse, sameWords, ← Text.collapse, ← normalForm]

/-! ## Other spellings -/

/-- A value written in another way at one place. -/
inductive Respelling : Text → Text → Prop
  /-- White space is put around the value. -/
  | around {before behind : Text}
      (beforeBlank : ∀ char ∈ before, isWhiteSpace char = true)
      (behindBlank : ∀ char ∈ behind, isWhiteSpace char = true)
      (value : Text) :
      Respelling value (before ++ (value ++ behind))
  /-- One run of white space takes the place of another. -/
  | between {spaces other : Text}
      (nonempty : spaces ≠ [])
      (blank : ∀ char ∈ spaces, isWhiteSpace char = true)
      (otherNonempty : other ≠ [])
      (otherBlank : ∀ char ∈ other, isWhiteSpace char = true)
      (front back : Text) :
      Respelling (front ++ (spaces ++ back)) (front ++ (other ++ back))
  /-- The digits of a hexadecimal colour, three to eight up to a word boundary, change case. -/
  | color {digits other back : Text}
      (areDigits : ∀ char ∈ digits, isHexDigit char = true)
      (atLeast : 3 ≤ digits.length)
      (atMost : digits.length ≤ 8)
      (boundary : back.head?.any isWordChar = false)
      (sameLetters : other.lower = digits.lower)
      (front : Text) :
      Respelling (front ++ '#' :: (digits ++ back)) (front ++ '#' :: (other ++ back))

theorem isDigitRun_of_boundary
    {digits back : Text}
    (areDigits : ∀ char ∈ digits, isHexDigit char = true)
    (boundary : back.head?.any isWordChar = false) :
    IsDigitRun digits back := by
  refine ⟨areDigits, fun char isFirst => Bool.eq_false_iff.2 fun isDigit => ?_⟩
  rw [isFirst, Option.any_some, isWordChar_of_isHexDigit isDigit] at boundary
  contradiction

/-- A colour is put in lower case wherever it stands. -/
theorem lowerColors_append_color
    {digits back : Text}
    (areDigits : ∀ char ∈ digits, isHexDigit char = true)
    (atLeast : 3 ≤ digits.length)
    (atMost : digits.length ≤ 8)
    (boundary : back.head?.any isWordChar = false)
    (front : Text) :
    lowerColors (front ++ '#' :: (digits ++ back)) =
      lowerColors front ++ '#' :: (digits.lower ++ lowerColors back) := by
  have hashBoundary : ('#' :: (digits ++ back)).head?.any isWordChar = false := by
    rw [List.head?_cons, Option.any_some]
    decide +kernel
  have inLower : lowerColorDigits digits back.head? = digits.lower := by
    simp [lowerColorDigits, atLeast, atMost, boundary]
  rw [lowerColors_append hashBoundary, (isDigitRun_of_boundary areDigits boundary).lowerColors_hash,
    inLower]

/-- No other spelling changes the normal form. -/
theorem Respelling.normalForm_eq
    {value other : Text}
    (respelling : Respelling value other) :
    normalForm value = normalForm other := by
  cases respelling with
  | around beforeBlank behindBlank =>
      apply normalForm_eq_of_words_eq
      rw [Text.words_spaces_append beforeBlank, Text.words_append_spaces behindBlank]
  | between nonempty blank otherNonempty otherBlank front back =>
      apply normalForm_eq_of_words_eq
      rw [Text.words_append_spaces_append nonempty blank,
        Text.words_append_spaces_append otherNonempty otherBlank]
  | @color digits other back areDigits atLeast atMost boundary sameLetters front =>
      have sameLength : other.length = digits.length := by
        rw [← Text.length_lower, sameLetters, Text.length_lower]
      have otherDigits : ∀ char ∈ other, isHexDigit char = true := by
        rw [← List.all_eq_true, ← Text.all_lower isHexDigit_toLower, sameLetters,
          Text.all_lower isHexDigit_toLower]
        exact List.all_eq_true.2 areDigits
      rw [normalForm_eq_collapse, normalForm_eq_collapse,
        lowerColors_append_color areDigits atLeast atMost boundary,
        lowerColors_append_color otherDigits (sameLength ▸ atLeast) (sameLength ▸ atMost) boundary,
        sameLetters]

/-! ## The way to the normal form -/

/-- Behind a space the white space of a value is collapsed by other spellings. -/
theorem eqvGen_collapse_behind_space (front value : Text) :
    Relation.EqvGen Respelling (front ++ ' ' :: value) (front ++ ' ' :: value.collapse) := by
  induction value using Text.spaces_induction generalizing front with
  | dark text dark =>
      cases text with
      | nil => exact .refl _
      | cons char rest =>
          rw [Text.collapse, Text.words_eq_singleton (List.cons_ne_nil char rest) dark,
            List.intercalate_singleton]
          exact .refl _
  | divided before space back beforeDark blank inductionHypothesis =>
      have isSpace : ∀ char ∈ [' '], isWhiteSpace char = true := List.forall_mem_singleton.2 rfl
      by_cases empty : before = []
      · subst empty
        have areSpaces : ∀ char ∈ [' ', space], isWhiteSpace char = true := by simp [isSpace, blank]
        have oneSpace := Respelling.between (List.cons_ne_nil ' ' [space]) areSpaces
          (List.cons_ne_nil ' ' []) isSpace front back
        have sameCollapse : Text.collapse ([] ++ space :: back) = back.collapse := by
          rw [Text.collapse, Text.words_append_cons blank]
          rfl
        rw [sameCollapse]
        exact .trans _ _ _ (.rel _ _ oneSpace) (inductionHypothesis front)
      · have blankOnly : ∀ char ∈ [space], isWhiteSpace char = true := by simp [blank]
        have oneSpace := Respelling.between (List.cons_ne_nil space []) blankOnly
          (List.cons_ne_nil ' ' []) isSpace (front ++ ' ' :: before) back
        have further := inductionHypothesis (front ++ ' ' :: before)
        have collapsed : Relation.EqvGen Respelling
            (front ++ ' ' :: before ++ ' ' :: back.collapse)
            (front ++ ' ' :: (before ++ space :: back).collapse) := by
          rw [Text.collapse, Text.collapse, Text.words_append_cons blank,
            Text.words_eq_singleton empty beforeDark, List.singleton_append]
          cases back.words with
          | nil =>
              have noBlank : ∀ char ∈ ([] : Text), isWhiteSpace char = true := List.forall_mem_nil _
              have spaceBehind := Respelling.around noBlank isSpace (front ++ ' ' :: before)
              simpa using Relation.EqvGen.symm _ _ (.rel _ _ spaceBehind)
          | cons word others =>
              rw [List.intercalate_cons_cons, List.append_assoc, List.append_assoc]
              exact .refl _
        refine .trans _ _ _ ?_ (.trans _ _ _ further collapsed)
        simpa using Relation.EqvGen.rel _ _ oneSpace

theorem eqvGen_collapse (value : Text) :
    Relation.EqvGen Respelling value value.collapse := by
  have isSpace : ∀ char ∈ [' '], isWhiteSpace char = true := List.forall_mem_singleton.2 rfl
  have noBlank : ∀ char ∈ ([] : Text), isWhiteSpace char = true := List.forall_mem_nil _
  have spaced : ∀ text : Text, Relation.EqvGen Respelling text (' ' :: text) := by
    intro text
    simpa using Relation.EqvGen.rel _ _ (Respelling.around isSpace noBlank text)
  exact .trans _ _ _ (spaced value)
    (.trans _ _ _ (eqvGen_collapse_behind_space [] value) (.symm _ _ (spaced value.collapse)))

/-- Behind any text the colours of a value are put in lower case by other spellings. -/
theorem eqvGen_append_lowerColors (front value : Text) :
    Relation.EqvGen Respelling (front ++ value) (front ++ lowerColors value) := by
  induction value using colors_induction generalizing front with
  | nil => exact .refl _
  | other char rest noHash inductionHypothesis =>
      rw [lowerColors_cons noHash]
      simpa using inductionHypothesis (front ++ [char])
  | hash digits back run inductionHypothesis =>
      rw [run.lowerColors_hash]
      have further := inductionHypothesis (front ++ '#' :: lowerColorDigits digits back.head?)
      rw [List.append_assoc, List.append_assoc] at further
      refine .trans _ _ _ ?_ further
      unfold lowerColorDigits
      split
      case isFalse => exact .refl _
      case isTrue isColor =>
        simp only [Bool.and_eq_true, decide_eq_true_eq, Bool.not_eq_true'] at isColor
        obtain ⟨⟨atLeast, atMost⟩, boundary⟩ := isColor
        exact .rel _ _
          (.color run.areDigits atLeast atMost boundary (Text.lower_lower digits) front)

/-- Every value is another spelling of its normal form. -/
theorem eqvGen_normalForm (value : Text) :
    Relation.EqvGen Respelling value (normalForm value) :=
  .trans _ _ _ (eqvGen_collapse value) (eqvGen_append_lowerColors [] value.collapse)

/--
A normal form is its own normal form, and two values have the same one exactly
if they are other spellings of each other.
-/
theorem normalForm_idem_and_eq_iff_respelled
    (value other : Text) :
    normalForm (normalForm value) = normalForm value ∧
      (normalForm value = normalForm other ↔ Relation.EqvGen Respelling value other) := by
  refine ⟨normalForm_normalForm value, fun same => ?_, fun respelled => ?_⟩
  · have back := Relation.EqvGen.symm _ _ (eqvGen_normalForm other)
    rw [← same] at back
    exact .trans _ _ _ (eqvGen_normalForm value) back
  · induction respelled with
    | rel value other respelling => exact respelling.normalForm_eq
    | refl value => rfl
    | symm value other _ inductionHypothesis => exact inductionHypothesis.symm
    | trans value between other _ _ first second => exact first.trans second

/-- Nine digits are no colour, and neither are digits in front of a letter. -/
example : normalForm " #FFF  #ABCDEF012 #ABCé" = ("#fff #ABCDEF012 #ABCé" : Text) := by
  decide +kernel

end LessTheme
