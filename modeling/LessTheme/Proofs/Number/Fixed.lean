import Mathlib.Algebra.Group.Nat.Defs
import LessTheme.Number.Fixed
import LessTheme.Proofs.Text.Trim

/-!
# Digits of numbers with at most four decimals

A number of units of the last decimal is written with the digits before the
point and those behind it, without zeros at its end.  The digits that are left
out change nothing of the number.
-/

namespace LessTheme
namespace Number

theorem isDigit_of_mem_paddedDigits
    {count number : Nat}
    {char : Char}
    (member : char ∈ paddedDigits count number) :
    char.isDigit = true := by
  obtain zero | digit := List.mem_append.1 member
  · rw [List.eq_of_mem_replicate zero]
    rfl
  · exact Nat.isDigit_of_mem_toDigits (by decide) (by decide) digit

theorem ofDigitChars_paddedDigits (count number : Nat) :
    Nat.ofDigitChars 10 (paddedDigits count number) 0 = number := by
  rw [paddedDigits, Nat.ofDigitChars_append, Nat.ofDigitChars_replicate_zero, Nat.mul_zero,
    Nat.ofDigitChars_ten_toDigits]

theorem length_paddedDigits
    {count number : Nat}
    (positive : 0 < count)
    (fits : number < 10 ^ count) :
    (paddedDigits count number).length = count := by
  have atMost := (Nat.length_toDigits_le_iff (by decide) positive).2 fits
  rw [paddedDigits, List.length_append, List.length_replicate]
  omega

/-! ## Without zeros at the end -/

/-- The decimals of a number of units, without the zeros at their end. -/
def fractionDigits (units : Nat) : Text :=
  Text.dropEndWhile (· == '0') (paddedDigits decimals (units % unitsInOne))

theorem exists_paddedDigits_eq (units : Nat) :
    ∃ zeros, paddedDigits decimals (units % unitsInOne) =
      fractionDigits units ++ List.replicate zeros '0' := by
  let digits := paddedDigits decimals (units % unitsInOne)
  have split : fractionDigits units ++ digits.rtakeWhile (· == '0') = digits :=
    List.rdropWhile_append_rtakeWhile
  have zeros : digits.rtakeWhile (· == '0') =
      List.replicate (digits.rtakeWhile (· == '0')).length '0' :=
    List.eq_replicate_of_mem fun char member => by simpa using List.mem_rtakeWhile_imp member
  rw [zeros] at split
  exact ⟨_, split.symm⟩

theorem isDigit_of_mem_fractionDigits
    {units : Nat}
    {char : Char}
    (member : char ∈ fractionDigits units) :
    char.isDigit = true := by
  obtain ⟨zeros, split⟩ := exists_paddedDigits_eq units
  exact isDigit_of_mem_paddedDigits (split ▸ List.mem_append_left _ member)

theorem getLast?_fractionDigits (units : Nat) :
    (fractionDigits units).getLast? ≠ some '0' := fun isLast =>
  Bool.noConfusion (Text.eq_false_of_getLast?_dropEndWhile isLast)

/-- The decimals that are left have the value of all decimals. -/
theorem ofDigitChars_fractionDigits (units : Nat) :
    Nat.ofDigitChars 10 (fractionDigits units) 0 *
        10 ^ (decimals - (fractionDigits units).length) = units % unitsInOne ∧
      (fractionDigits units).length ≤ decimals := by
  obtain ⟨zeros, split⟩ := exists_paddedDigits_eq units
  have fits : units % unitsInOne < 10 ^ decimals := Nat.mod_lt _ (by decide)
  have length := length_paddedDigits (by decide) fits
  have value := ofDigitChars_paddedDigits decimals (units % unitsInOne)
  rw [split, List.length_append, List.length_replicate] at length
  rw [split, Nat.ofDigitChars_append, Nat.ofDigitChars_replicate_zero] at value
  have count : decimals - (fractionDigits units).length = zeros := by omega
  refine ⟨?_, by omega⟩
  rw [count, Nat.mul_comm, value]

/-- Zeros at the end are left out, and the point as well if nothing is left behind it. -/
theorem trimFraction_append
    {whole fraction : Text}
    (isWhole : ∀ char ∈ whole, char.isDigit = true)
    (isFraction : ∀ char ∈ fraction, char.isDigit = true)
    (noZero : fraction.getLast? ≠ some '0')
    (zeros : Nat) :
    trimFraction (whole ++ '.' :: (fraction ++ List.replicate zeros '0')) =
      whole ++ if fraction = [] then [] else '.' :: fraction := by
  have areZeros : ∀ char ∈ List.replicate zeros '0', (char == '0') = true := by
    intro char member
    rw [List.eq_of_mem_replicate member]
    rfl
  have noPoint : ∀ {char : Char}, char.isDigit = true → (char == '.') = false := by
    intro char isDigit
    rw [beq_eq_false_iff_ne]
    rintro rfl
    contradiction
  rw [trimFraction, ← List.cons_append, ← List.append_assoc,
    Text.dropEndWhile_append_of_forall areZeros]
  obtain rfl | ⟨front, digit, rfl⟩ := fraction.eq_nil_or_concat'
  · have keepsPoint : Text.dropEndWhile (· == '0') (whole ++ ['.']) = whole ++ ['.'] :=
      Text.dropEndWhile_eq_self (by simp)
    have keepsWhole : Text.dropEndWhile (· == '.') whole = whole :=
      Text.dropEndWhile_eq_self fun char isLast =>
        noPoint (isWhole char (List.mem_of_getLast? isLast))
    rw [keepsPoint, Text.dropEndWhile_append_of_forall (by simp), keepsWhole, if_pos rfl,
      List.append_nil]
  · have last : ∀ char, (whole ++ '.' :: (front ++ [digit])).getLast? = some char →
        digit = char := by
      intro char isLast
      rw [← List.cons_append, ← List.append_assoc, List.getLast?_concat] at isLast
      exact Option.some.inj isLast
    have isDigit := isFraction digit (List.mem_append_right front List.mem_cons_self)
    have notZero : (digit == '0') = false := by simpa using noZero
    have keepsZeros := Text.dropEndWhile_eq_self fun char isLast => last char isLast ▸ notZero
    have keepsPoint := Text.dropEndWhile_eq_self fun char isLast =>
      last char isLast ▸ noPoint isDigit
    rw [keepsZeros, keepsPoint,
      if_neg (List.append_ne_nil_of_right_ne_nil front (List.cons_ne_nil digit []))]

/-- A number is written with the digits before the point, and with the decimals that are left. -/
theorem trimFraction_fixedText (units : Nat) :
    trimFraction (fixedText units) =
      Nat.toDigits 10 (units / unitsInOne) ++
        if fractionDigits units = [] then [] else '.' :: fractionDigits units := by
  obtain ⟨zeros, split⟩ := exists_paddedDigits_eq units
  rw [fixedText, split]
  exact trimFraction_append (fun _ => Nat.isDigit_of_mem_toDigits (by decide) (by decide))
    (fun _ => isDigit_of_mem_fractionDigits) (getLast?_fractionDigits units) zeros

end Number
end LessTheme
