import LessTheme.Proofs.Source.LetterCase
import LessTheme.Variable.Inference

/-!
# Letter case and the kind of a variable

Every test that decides the kind of a value compares words up to the case of
letters, or asks for marks and classes of characters that do not see it.  So a
part of a value passes a test exactly if its lower case does, and the case of
the letters in the name and in the value of a variable is irrelevant to its
kind.
-/

namespace LessTheme
namespace Inference

open Source

/-! ## Shapes of one part -/

theorem isReference_cons (char : Char) (rest : Text) :
    isReference (char :: rest) = (char == '@' && (!rest.isEmpty && rest.all isNameChar)) := by
  by_cases isMark : char = '@'
  · subst isMark
    rfl
  · simp [isReference, isMark]

@[simp] theorem isReference_lower (part : Text) : isReference part.lower = isReference part := by
  cases part with
  | nil => rfl
  | cons char rest =>
      rw [Text.lower_cons, isReference_cons, isReference_cons, Text.isEmpty_lower,
        Text.all_lower isNameChar_toLower]
      simp (disch := decide) only [toLower_beq]

theorem isHexColor_cons (char : Char) (rest : Text) :
    isHexColor (char :: rest) =
      (char == '#' && ([3, 4, 6, 8].contains rest.length && rest.all isHexDigit)) := by
  by_cases isMark : char = '#'
  · subst isMark
    rfl
  · simp [isHexColor, isMark]

@[simp] theorem isHexColor_lower (part : Text) : isHexColor part.lower = isHexColor part := by
  cases part with
  | nil => rfl
  | cons char rest =>
      rw [Text.lower_cons, isHexColor_cons, isHexColor_cons, Text.length_lower,
        Text.all_lower isHexDigit_toLower]
      simp (disch := decide) only [toLower_beq]

theorem withoutSign_cons (char : Char) (rest : Text) :
    withoutSign (char :: rest) = if char = '+' ∨ char = '-' then rest else char :: rest := by
  by_cases isPlus : char = '+'
  · subst isPlus
    rfl
  · by_cases isMinus : char = '-'
    · subst isMinus
      rfl
    · simp [withoutSign, isPlus, isMinus]

theorem withoutSign_lower (part : Text) : withoutSign part.lower = (withoutSign part).lower := by
  cases part with
  | nil => rfl
  | cons char rest =>
      rw [Text.lower_cons, withoutSign_cons, withoutSign_cons]
      simp (disch := decide) only [toLower_eq_iff]
      split <;> rfl

/-- A number has digits, or a point and a digit; the digits behind the point belong to it. -/
theorem afterNumber?_eq (text : Text) :
    afterNumber? text =
      let rest := text.dropWhile Char.isDigit
      let noWhole := (text.takeWhile Char.isDigit).isEmpty
      if rest.head? = some '.' then
        if noWhole && !rest.tail.head?.any Char.isDigit then none
        else some (rest.tail.dropWhile Char.isDigit)
      else if noWhole then none else some rest := by
  unfold afterNumber?
  cases text.dropWhile Char.isDigit with
  | nil => rfl
  | cons char rest =>
      by_cases isPoint : char = '.'
      · subst isPoint
        rfl
      · simp [isPoint]

theorem afterNumber?_lower (part : Text) :
    afterNumber? part.lower = (afterNumber? part).map Text.lower := by
  rw [afterNumber?_eq, afterNumber?_eq, Text.takeWhile_lower isDigit_toLower,
    Text.dropWhile_lower isDigit_toLower]
  simp (disch := decide) only [Text.head?_lower, Text.tail_lower, Text.isEmpty_lower,
    map_toLower_eq_some_iff, Option.any_map, isDigit_toLower,
    Text.dropWhile_lower isDigit_toLower]
  split_ifs <;> rfl

@[simp] theorem isNumber_lower (part : Text) : isNumber part.lower = isNumber part := by
  rw [isNumber, isNumber, withoutSign_lower, afterNumber?_lower]
  cases afterNumber? (withoutSign part) with
  | none => rfl
  | some rest => cases rest <;> rfl

theorem unit?_lower (part : Text) : unit? part.lower = (unit? part).map Text.lower := by
  rw [unit?, unit?, withoutSign_lower, afterNumber?_lower]
  cases afterNumber? (withoutSign part) with
  | none => rfl
  | some unit =>
      have samePercent : (unit.lower == ['%']) = (unit == ['%']) := Text.lower_beq (by decide) unit
      simp only [Option.map_some, Option.bind_eq_bind, Option.bind_some, samePercent,
        Text.isEmpty_lower, Text.all_lower isAlpha_toLower]
      split <;> rfl

/-- A hyphen in front of a word belongs to it. -/
theorem isIdentifier_eq (part : Text) :
    isIdentifier part =
      let body := if part.head? = some '-' then part.tail else part
      body.head?.any (fun first => first.isAlpha || first == '_') && body.tail.all isNameChar := by
  cases part with
  | nil => rfl
  | cons char rest =>
      by_cases isHyphen : char = '-'
      · subst isHyphen
        cases rest <;> rfl
      · simp [isIdentifier, isHyphen]

@[simp] theorem isIdentifier_lower (part : Text) : isIdentifier part.lower = isIdentifier part := by
  have sameBody : (if part.lower.head? = some '-' then part.lower.tail else part.lower) =
      Text.lower (if part.head? = some '-' then part.tail else part) := by
    simp (disch := decide) only [Text.head?_lower, map_toLower_eq_some_iff, Text.tail_lower]
    split <;> rfl
  rw [isIdentifier_eq, isIdentifier_eq, sameBody]
  simp (disch := decide) only [Text.head?_lower, Option.any_map, isAlpha_toLower, toLower_beq,
    Text.tail_lower, Text.all_lower isNameChar_toLower]

theorem isFunctionNameChar_toLower (char : Char) :
    isFunctionNameChar char.toLower = isFunctionNameChar char :=
  apply_toLower (by decide) char

/-- A call is a name, a parenthesis and anything on one line up to a parenthesis at the end. -/
theorem functionName?_eq (part : Text) :
    functionName? part =
      let name := part.takeWhile isFunctionNameChar
      let rest := part.dropWhile isFunctionNameChar
      if rest.head? = some '(' ∧ name.isEmpty = false ∧ rest.tail.getLast? = some ')' ∧
          '\n' ∉ rest.tail then
        some name
      else none := by
  unfold functionName?
  cases part.dropWhile isFunctionNameChar with
  | nil => rfl
  | cons char rest =>
      by_cases isOpening : char = '('
      · subst isOpening
        simp [and_assoc]
      · simp [isOpening]

theorem functionName?_lower (part : Text) :
    functionName? part.lower = (functionName? part).map Text.lower := by
  have sameLineEnd : ∀ text : Text, '\n' ∈ text.lower ↔ '\n' ∈ text := fun text => by
    simp (disch := decide) [Text.lower, toLower_eq_iff]
  rw [functionName?_eq, functionName?_eq, Text.takeWhile_lower isFunctionNameChar_toLower,
    Text.dropWhile_lower isFunctionNameChar_toLower]
  simp (disch := decide) only [Text.head?_lower, Text.tail_lower, Text.isEmpty_lower,
    Text.getLast?_lower, map_toLower_eq_some_iff, sameLineEnd]
  split <;> rfl

@[simp] theorem isCallTo_lower (functions : List Text) (part : Text) :
    isCallTo functions part.lower = isCallTo functions part := by
  rw [isCallTo, isCallTo, functionName?_lower, Option.any_map]
  simp only [Text.isOneOf_lower]

@[simp] theorem isQuoted_lower (part : Text) : isQuoted part.lower = isQuoted part := by
  have sameEnd : ∀ (quote : Char) (char : Option Char), quote.isAlpha = false →
      (char.map Char.toLower == some quote) = (char == some quote) := by
    intro quote char noLetter
    rw [Bool.eq_iff_iff, beq_iff_eq, beq_iff_eq, map_toLower_eq_some_iff noLetter]
  simp (disch := decide) only [isQuoted, Text.length_lower, Text.head?_lower, Text.getLast?_lower,
    sameEnd]

@[simp] theorem isColor_lower (part : Text) : isColor part.lower = isColor part := by
  simp only [isColor, isHexColor_lower, Text.isOneOf_lower, isCallTo_lower]

@[simp] theorem isLength_lower (part : Text) : isLength part.lower = isLength part := by
  rw [isLength, isLength, unit?_lower, Option.any_map]
  simp only [Text.isOneOf_lower]

@[simp] theorem unitKind_lower (unit : Text) : unitKind unit.lower = unitKind unit := by
  simp only [unitKind, Text.isOneOf_lower]

/-- The case of its letters is irrelevant to the kind of a value with one part. -/
theorem partKind_lower (part : Text) : partKind part.lower = partKind part := by
  rw [partKind, partKind, unit?_lower]
  cases unit? part with
  | none =>
      simp only [Option.map_none, isReference_lower, isColor_lower, isNumber_lower,
        Text.isOneOf_lower, isQuoted_lower, isCallTo_lower, isIdentifier_lower]
  | some unit =>
      simp only [Option.map_some, isReference_lower, isColor_lower, unitKind_lower]

/-! ## Shapes of several parts -/

theorem isFontList_lower (items : List Text) :
    isFontList (items.map Text.lower) = isFontList items := by
  simp only [isFontList, List.length_map, List.all_map, List.any_map, Function.comp_def,
    Text.isEmpty_lower, isQuoted_lower, Text.isOneOf_lower]

@[simp] theorem isBorderStyle_lower (part : Text) :
    isBorderStyle part.lower = isBorderStyle part :=
  Text.isOneOf_lower part borderStyles

@[simp] theorem isLengthLike_lower (part : Text) : isLengthLike part.lower = isLengthLike part := by
  rw [isLengthLike, isLengthLike, isLength_lower, Text.lower_beq (by decide)]

@[simp] theorem isColorLike_lower (part : Text) : isColorLike part.lower = isColorLike part := by
  rw [isColorLike, isColorLike, isColor_lower, isReference_lower]

@[simp] theorem isInset_lower (part : Text) : isInset part.lower = isInset part := by
  rw [isInset, isInset, Text.equalsIgnoringCase, Text.equalsIgnoringCase, Text.lower_lower]

theorem shorthandKind_lower (parts : List Text) :
    shorthandKind (parts.map Text.lower) = shorthandKind parts := by
  simp only [shorthandKind, isBorder, isShadow, List.any_map, List.all_map, List.filter_map,
    List.length_map, Function.comp_def, isBorderStyle_lower, isLengthLike_lower,
    isColorLike_lower, isInset_lower]
  rfl

theorem shapeKind_lower (parts items : List Text) :
    shapeKind (parts.map Text.lower) (items.map Text.lower) = shapeKind parts items := by
  have ofSeveral :
      (if isFontList (items.map Text.lower) then Kind.fontFamily
        else if 1 < (items.map Text.lower).length then .mixed
        else shorthandKind (parts.map Text.lower)) =
      if isFontList items then .fontFamily
      else if 1 < items.length then .mixed
      else shorthandKind parts := by
    rw [isFontList_lower, List.length_map, shorthandKind_lower]
  match parts, items with
  | [], _ => rfl
  | [part], [_] => exact partKind_lower part
  | [_], [] => exact ofSeveral
  | [_], _ :: _ :: _ => exact ofSeveral
  | _ :: _ :: _, _ => exact ofSeveral

/-- The case of its letters is irrelevant to the kind of a value. -/
theorem kindOfValue_lower (value : Text) : kindOfValue value.lower = kindOfValue value := by
  rw [kindOfValue, kindOfValue, Text.trim_lower, parts_lower, splitTopLevel_lower rfl,
    shapeKind_lower]

/-! ## Names -/

/-- The case of its letters is irrelevant to what a name tells. -/
theorem kindOfName?_lower (name : Text) : kindOfName? name.lower = kindOfName? name := by
  rw [kindOfName?, kindOfName?, Text.lower_lower]

end Inference

/--
Variables whose names and whose values differ in the case of ASCII letters only
have values of one kind and are of one kind.
-/
theorem kinds_eq_of_lower_eq
    {name otherName value otherValue : Text}
    (sameName : name.lower = otherName.lower)
    (sameValue : value.lower = otherValue.lower) :
    Inference.kindOfValue value = Inference.kindOfValue otherValue ∧
      inferKind name value = inferKind otherName otherValue := by
  have valueKind : Inference.kindOfValue value = Inference.kindOfValue otherValue := by
    rw [← Inference.kindOfValue_lower, sameValue, Inference.kindOfValue_lower]
  have nameKind : Inference.kindOfName? name = Inference.kindOfName? otherName := by
    rw [← Inference.kindOfName?_lower, sameName, Inference.kindOfName?_lower]
  refine ⟨valueKind, ?_⟩
  rw [inferKind, inferKind, valueKind, nameKind]

theorem kinds_eq_of_lower_eq_sample :
    Inference.kindOfValue "@Link * 2PX".toList = Inference.kindOfValue "@LINK * 2px".toList ∧
      inferKind "Nav-COLOR".toList "@Link * 2PX".toList =
        inferKind "nav-color".toList "@LINK * 2px".toList :=
  kinds_eq_of_lower_eq (by decide) (by decide)

end LessTheme
