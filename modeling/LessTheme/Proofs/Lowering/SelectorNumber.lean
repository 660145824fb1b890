import LessTheme.Proofs.Lowering.Selector
import Mathlib.Data.List.Iterate
import Mathlib.Data.List.Nodup
import Mathlib.Data.Nat.ModEq

/-!
# The numbers of selector variables

Bound selectors are numbered one after another from the number behind the
highest one in use.  The numbers are words of 64 bits, so they are greater than
every number in use as long as none of the additions overflows.
-/

namespace LessTheme
namespace Lowering

open Source

/-! ## Numbers one after another -/

theorem toNat_iterate_add_one
    (number : UInt64)
    (count : Nat) :
    ((· + 1)^[count] number).toNat = (number.toNat + count) % UInt64.size := by
  induction count with
  | zero => exact (Nat.mod_eq_of_lt number.toNat_lt).symm
  | succ count inductionHypothesis =>
      rw [Function.iterate_succ_apply', UInt64.toNat_add, inductionHypothesis]
      exact Nat.mod_add_mod _ _ _

theorem map_toNat_iterate
    (number : UInt64)
    (count : Nat) :
    (List.iterate (· + 1) number count).map UInt64.toNat =
      (List.range count).map fun index => (number.toNat + index) % UInt64.size := by
  apply List.ext_getElem
  · simp
  · intro index _ _
    rw [List.getElem_map, List.getElem_iterate, toNat_iterate_add_one, List.getElem_map,
      List.getElem_range]

/-- No addition overflows exactly if the last one does not. -/
theorem forall_mem_iterate_lt_iff
    {number : UInt64}
    {count : Nat} :
    (∀ each ∈ List.iterate (· + 1) number (count + 1), each.toNat + 1 < UInt64.size) ↔
      number.toNat + 1 + count < UInt64.size := by
  have small := number.toNat_lt_size
  constructor
  · intro fits
    by_contra tooMany
    -- The greatest word is among the numbers.
    have inside : UInt64.size - 1 - number.toNat < count + 1 := by omega
    have isLast := fits _ (List.mem_iterate.2 ⟨_, inside, rfl⟩)
    rw [toNat_iterate_add_one, Nat.add_sub_cancel' (by omega), Nat.mod_eq_of_lt (by omega)]
      at isLast
    omega
  · intro fits each member
    obtain ⟨index, inside, rfl⟩ := List.mem_iterate.1 member
    rw [toNat_iterate_add_one, Nat.mod_eq_of_lt (by omega)]
    omega

theorem nodup_iterate
    (number : UInt64)
    {count : Nat}
    (fits : count ≤ UInt64.size) :
    (List.iterate (· + 1) number count).Nodup := by
  apply List.Nodup.of_map UInt64.toNat
  rw [map_toNat_iterate]
  refine List.nodup_range.map_on fun left isLeft right isRight same => ?_
  rw [List.mem_range] at isLeft isRight
  have congruent : left ≡ right [MOD UInt64.size] := Nat.ModEq.add_left_cancel' _ same
  exact congruent.eq_of_lt_of_lt (isLeft.trans_le fits) (isRight.trans_le fits)

theorem lt_of_mem_iterate
    {number each : UInt64}
    {count : Nat}
    (fits : number.toNat + count < UInt64.size)
    (member : each ∈ List.iterate (· + 1) (number + 1) count) :
    number.toNat < each.toNat := by
  obtain ⟨index, inside, rfl⟩ := List.mem_iterate.1 member
  rw [← Function.iterate_succ_apply (· + 1), toNat_iterate_add_one, Nat.mod_eq_of_lt (by omega)]
  omega

/-! ## Numbers in use -/

/--
The variable with the given number is named in a text, plainly or in the brace
of an interpolation, and its name is not longer there.
-/
def IsNamedIn (source : Text) (number : UInt64) : Prop :=
  ∃ front brace rest, source = front ++ '@' :: (brace ++ (variableName number ++ rest)) ∧
    (brace = [] ∨ brace = ['{']) ∧ rest.head?.any isNameChar = false

theorem decimalValue_toDigits (number : Nat) :
    decimalValue (Nat.toDigits 10 number) = number := by
  have sameFold : decimalValue (Nat.toDigits 10 number) =
      Nat.ofDigitChars 10 (Nat.toDigits 10 number) 0 := by
    simp only [decimalValue, Nat.ofDigitChars, Nat.mul_comm]
  rw [sameFold, Nat.ofDigitChars_toDigits (by decide) (by decide)]

/-- The name of a variable is read as its number. -/
theorem selectorNumber_variableName
    {brace rest : Text}
    (isBrace : brace = [] ∨ brace = ['{'])
    (ends : rest.head?.any isNameChar = false)
    (number : UInt64) :
    selectorNumber ('@' :: (brace ++ (variableName number ++ rest))) = number := by
  have behindBrace : withoutBrace (brace ++ (variableName number ++ rest)) =
      selectorVariable ++ (Nat.toDigits 10 number.toNat ++ rest) := by
    rw [variableName, toList_toString, List.append_assoc]
    obtain rfl | rfl := isBrace <;> rfl
  have noDigit : rest.takeWhile Char.isDigit = [] := by
    cases rest with
    | nil => rfl
    | cons char others =>
        refine List.takeWhile_cons_of_neg fun isDigit => ?_
        simp [isNameChar, Char.isAlphanum, isDigit] at ends
  have digits : selectorDigits ('@' :: (brace ++ (variableName number ++ rest))) =
      Nat.toDigits 10 number.toNat := by
    rw [selectorDigits, behindBrace, List.isPrefixOf?_eq_some_iff_append_eq.2 rfl,
      Option.getD_some, List.takeWhile_append_of_pos, noDigit, List.append_nil]
    exact fun _ => Nat.isDigit_of_mem_toDigits (by decide) (by decide)
  rw [selectorNumber, digits, decimalValue_toDigits, if_pos number.toNat_lt_size,
    UInt64.ofNat_toNat]

theorem toNat_max
    (left right : UInt64) :
    (max left right).toNat = max left.toNat right.toNat := by
  change (if left ≤ right then right else left).toNat = _
  split_ifs with le
  · exact (max_eq_right (UInt64.le_iff_toNat_le.1 le)).symm
  · exact (max_eq_left (Nat.le_of_not_le fun below => le (UInt64.le_iff_toNat_le.2 below))).symm

/-- No number in a text is greater than the highest one. -/
theorem selectorNumber_le_highestSelectorNumber
    (front : Text)
    (char : Char)
    (rest : Text) :
    (selectorNumber (char :: rest)).toNat ≤
      (highestSelectorNumber (front ++ char :: rest)).toNat := by
  induction front with
  | nil =>
      rw [List.nil_append, highestSelectorNumber, toNat_max]
      exact Nat.le_max_left _ _
  | cons first front inductionHypothesis =>
      rw [List.cons_append, highestSelectorNumber, toNat_max]
      exact inductionHypothesis.trans (Nat.le_max_right _ _)

theorem IsNamedIn.le_highestSelectorNumber
    {source : Text}
    {number : UInt64}
    (named : IsNamedIn source number) :
    number.toNat ≤ (highestSelectorNumber source).toNat := by
  obtain ⟨front, brace, rest, rfl, isBrace, ends⟩ := named
  have le := selectorNumber_le_highestSelectorNumber front '@'
    (brace ++ (variableName number ++ rest))
  rwa [selectorNumber_variableName isBrace ends] at le

theorem variableName_injective : Function.Injective variableName := by
  intro left right same
  have digits := List.append_cancel_left same
  rw [toList_toString, toList_toString] at digits
  apply UInt64.toNat_inj.1
  rw [← decimalValue_toDigits left.toNat, digits, decimalValue_toDigits]

/-! ## The bound selectors of a text -/

/-- The literal strings that the complex selectors of a text are bound to, in order. -/
def boundLiterals (source : Text) : List Text :=
  (statements (markInterpolations false (cells source))).filterMap Statement.binding?

/-- The numbers of the variables that they are bound to. -/
def boundNumbers (source : Text) : List UInt64 :=
  List.iterate (· + 1) (highestSelectorNumber source + 1) (boundLiterals source).length

theorem inserted_selectorPatch
    (number : UInt64)
    (statements : List Statement) :
    (selectorPatch number statements).inserted =
      List.zipWith boundSelector
        (List.iterate (· + 1) number (statements.filterMap Statement.binding?).length)
        (statements.filterMap Statement.binding?) := by
  induction statements generalizing number with
  | nil => rfl
  | cons statement rest inductionHypothesis =>
      unfold selectorPatch
      cases bound : statement.binding? with
      | none =>
          rw [List.filterMap_cons_none bound]
          exact inductionHypothesis number
      | some literal =>
          rw [List.filterMap_cons_some bound]
          exact congrArg (boundSelector number literal :: ·) (inductionHypothesis (number + 1))

/--
Complex selectors are bound to variables that are numbered one after another.
One is added to the highest number in use and to every number that is given
out, and none of these additions overflows exactly if the last one does not.
The names are pairwise different as long as the numbers do not come round, and
no name is in use as long as no number that is given out is an overflow.
-/
theorem inserted_complexSelectorPatch (source : Text) :
    (complexSelectorPatch source).inserted =
        List.zipWith boundSelector (boundNumbers source) (boundLiterals source) ∧
      ((∀ number ∈ highestSelectorNumber source :: boundNumbers source,
          number.toNat + 1 < UInt64.size) ↔
        (highestSelectorNumber source).toNat + 1 + (boundLiterals source).length < UInt64.size) ∧
      ((boundLiterals source).length ≤ UInt64.size →
        ((boundNumbers source).map variableName).Nodup) ∧
      ((highestSelectorNumber source).toNat + (boundLiterals source).length < UInt64.size →
        ∀ number ∈ boundNumbers source, ¬ IsNamedIn source number) := by
  refine ⟨inserted_selectorPatch _ _, forall_mem_iterate_lt_iff, fun fits => ?_,
    fun fits number member named => ?_⟩
  · exact List.Nodup.map variableName_injective (nodup_iterate _ fits)
  · have above := lt_of_mem_iterate fits member
    have below := named.le_highestSelectorNumber
    omega

/-- Behind a variable that is in use the numbering goes on. -/
theorem inserted_complexSelectorPatch_one_in_use :
    boundNumbers "@\x7btw-selector-1\x7d;a:is(b,c:not(d))\x7b" = [2] ∧
      ((boundNumbers "@\x7btw-selector-1\x7d;a:is(b,c:not(d))\x7b").map variableName).Nodup ∧
      ∀ number ∈ boundNumbers "@\x7btw-selector-1\x7d;a:is(b,c:not(d))\x7b",
        ¬ IsNamedIn "@\x7btw-selector-1\x7d;a:is(b,c:not(d))\x7b" number := by
  obtain ⟨-, -, different, new⟩ :=
    inserted_complexSelectorPatch "@\x7btw-selector-1\x7d;a:is(b,c:not(d))\x7b"
  exact ⟨by decide +kernel, different (by decide +kernel), new (by decide +kernel)⟩

/-- Behind the greatest number of a word the numbering begins again, with a number in use. -/
theorem inserted_complexSelectorPatch_highest_in_use :
    highestSelectorNumber
        "@tw-selector-18446744073709551615;@tw-selector-0;a:is(b,c:not(d))\x7b" =
      18446744073709551615 ∧
      boundNumbers "@tw-selector-18446744073709551615;@tw-selector-0;a:is(b,c:not(d))\x7b" = [0] ∧
      IsNamedIn "@tw-selector-18446744073709551615;@tw-selector-0;a:is(b,c:not(d))\x7b" 0 := by
  refine ⟨by decide +kernel, by decide +kernel, "@tw-selector-18446744073709551615;", [],
    ";a:is(b,c:not(d))\x7b", by decide, Or.inl rfl, rfl⟩

end Lowering
end LessTheme
