import LessTheme.Proofs.Arithmetic.Formula
import LessTheme.Proofs.Arithmetic.Written
import LessTheme.Proofs.Number.Fixed

/-!
# Written results

A result is one number, written as short as its value allows, with a unit behind
it.  Nothing in it is an operator, so evaluating it again leaves it as it is.
-/

namespace LessTheme
namespace Arithmetic

/-! ## Plain quantities -/

namespace Quantity

/-- A number without a unit that is written as short as its value allows. -/
structure IsPlain (quantity : Quantity) : Prop where
  /-- There is no unit. -/
  hasNoUnit : quantity.unit = []
  /-- There is a digit before the point, and no zero in front of other digits. -/
  whole_eq : quantity.whole = Nat.toDigits 10 (Nat.ofDigitChars 10 quantity.whole 0)
  /-- There is no point without a digit behind it. -/
  fraction_ne : quantity.fraction ≠ some []
  /-- No zero ends the decimals. -/
  getLast?_fraction_ne : (quantity.fraction.getD []).getLast? ≠ some '0'
  /-- There are no more decimals than computed values keep. -/
  length_fraction_le : (quantity.fraction.getD []).length ≤ Number.decimals
  /-- Zero has no sign. -/
  value_ne_zero : quantity.negative = true → quantity.value ≠ 0

/-- The decimals of a number of units, if any are left. -/
def fractionOf (units : Nat) : Option Text :=
  if Number.fractionDigits units = [] then none else some (Number.fractionDigits units)

theorem getD_fractionOf (units : Nat) :
    (fractionOf units).getD [] = Number.fractionDigits units := by
  unfold fractionOf
  split
  case isTrue isEmpty => exact isEmpty.symm
  case isFalse => rfl

/-- A number of units of the last decimal; zero has no sign. -/
def ofUnits (negative : Bool) (units : Nat) : Quantity where
  negative := negative && Number.trimFraction (Number.fixedText units) != ['0']
  whole := Nat.toDigits 10 (units / Number.unitsInOne)
  fraction := fractionOf units
  unit := []
  isDigit_of_mem_whole := fun _ => Nat.isDigit_of_mem_toDigits (by decide) (by decide)
  isDigit_of_mem_fraction := by
    rw [getD_fractionOf]
    exact fun _ => Number.isDigit_of_mem_fractionDigits
  isUnitChar_of_mem_unit := List.forall_mem_nil _
  hasDigit := List.append_ne_nil_of_left_ne_nil Nat.toDigits_ne_nil _

variable (negative : Bool) (units : Nat)

theorem digits_ofUnits :
    (ofUnits negative units).digits = Number.trimFraction (Number.fixedText units) := by
  rw [Number.trimFraction_fixedText]
  change _ ++ (fractionOf units).elim [] ('.' :: ·) = _
  unfold fractionOf
  split <;> rfl

theorem written_ofUnits :
    (ofUnits negative units).written =
      Number.signed negative (Number.trimFraction (Number.fixedText units)) := by
  change sign (negative && _) ++ ((ofUnits negative units).digits ++ []) = _
  rw [digits_ofUnits, List.append_nil, Number.signed]
  split
  case isTrue isSigned => rw [isSigned]; rfl
  case isFalse isUnsigned => rw [Bool.eq_false_iff.2 isUnsigned]; rfl

/-- Zeros are left out behind the point only, and zero is not negative. -/
example :
    (ofUnits true 15000).written = "-1.5".toList ∧ (ofUnits true 200000).written = "-20".toList ∧
      (ofUnits true 0).written = "0".toList := by
  decide

theorem magnitude_ofUnits :
    (ofUnits negative units).magnitude = units / Number.unitsInOne := by
  obtain ⟨isFraction, length⟩ := Number.ofDigitChars_fractionDigits units
  let decimals := Number.fractionDigits units
  have scale : Number.unitsInOne =
      10 ^ decimals.length * 10 ^ (Number.decimals - decimals.length) := by
    rw [← pow_add, Nat.add_sub_cancel' length]
    rfl
  have split := Nat.div_add_mod units Number.unitsInOne
  rw [← isFraction] at split
  have nonzero : (10 : Rat) ^ decimals.length ≠ 0 := pow_ne_zero _ (by decide)
  have nonzeroScale : (Number.unitsInOne : Rat) ≠ 0 := by decide
  change (Nat.ofDigitChars 10 (Nat.toDigits 10 _) 0 : Rat) +
    Nat.ofDigitChars 10 ((fractionOf units).getD []) 0 /
      10 ^ ((fractionOf units).getD []).length = _
  rw [getD_fractionOf, Nat.ofDigitChars_ten_toDigits, eq_div_iff nonzeroScale]
  calc
    _ = Number.unitsInOne * ((units / Number.unitsInOne : Nat) : Rat) +
        Nat.ofDigitChars 10 decimals 0 * 10 ^ (Number.decimals - decimals.length) := by
      rw [add_mul, mul_comm]
      congr 1
      rw [scale]
      push_cast
      rw [← mul_assoc, div_mul_cancel₀ _ nonzero]
    _ = (units : Rat) := by
      exact_mod_cast split

theorem isPlain_ofUnits : (ofUnits negative units).IsPlain where
  hasNoUnit := rfl
  whole_eq := by
    change Nat.toDigits 10 _ = Nat.toDigits 10 (Nat.ofDigitChars 10 (Nat.toDigits 10 _) 0)
    rw [Nat.ofDigitChars_ten_toDigits]
  fraction_ne := by
    change fractionOf units ≠ some []
    unfold fractionOf
    split
    case isTrue => exact fun same => nomatch same
    case isFalse hasDecimals => exact fun same => hasDecimals (Option.some.inj same)
  getLast?_fraction_ne := by
    change ((fractionOf units).getD []).getLast? ≠ _
    rw [getD_fractionOf]
    exact Number.getLast?_fractionDigits units
  length_fraction_le := by
    change ((fractionOf units).getD []).length ≤ _
    rw [getD_fractionOf]
    exact (Number.ofDigitChars_fractionDigits units).2
  value_ne_zero := by
    intro isNegative isZero
    have noMagnitude : (ofUnits negative units).magnitude = 0 := by
      rwa [value, isNegative, if_pos rfl, neg_eq_zero] at isZero
    rw [magnitude_ofUnits, div_eq_zero_iff, or_iff_left (by decide), Nat.cast_eq_zero]
      at noMagnitude
    obtain rfl := noMagnitude
    exact absurd (Bool.and_eq_true_iff.1 isNegative).2 (by decide)

end Quantity

/-! ## Numbers as they are written -/

theorem isFinite_eq (number : Float) : number.isFinite = (!number.isNaN && !number.isInf) := by
  change number.toModel.unpack.isFinite =
    (!number.toModel.unpack.isNaN && !number.toModel.unpack.isInf)
  cases number.toModel.unpack <;> rfl

/-- A finite number is written as a plain quantity, and any other number as a word. -/
theorem floatText_cases (number : Float) :
    number.isFinite = true ∧
        (∃ quantity : Quantity, quantity.IsPlain ∧ Number.floatText number = quantity.written) ∨
      number.isFinite = false ∧
        ∃ negative, Number.floatText number = "NaN".toList ∨
          Number.floatText number = sign negative ++ "inf".toList := by
  rw [isFinite_eq, Number.floatText]
  cases number.isNaN
  case true => exact Or.inr ⟨rfl, false, Or.inl rfl⟩
  case false =>
    cases number.isInf
    case true =>
      refine Or.inr ⟨rfl, Number.isNegative number.toBits.toNat, Or.inr ?_⟩
      cases Number.isNegative number.toBits.toNat <;> rfl
    case false =>
      exact Or.inl ⟨rfl, _, Quantity.isPlain_ofUnits _ _, (Quantity.written_ofUnits _ _).symm⟩

/-! ## Results as they are read -/

section OneRun

variable
  {negative : Bool}
  {run : Text}
  (nonempty : run ≠ [])
  (isRun : ∀ char ∈ run, isRunChar char = true)

include nonempty isRun

/-- A sign and a run are one quantity, or they are no expression. -/
theorem tokensOf?_sign_append :
    tokensOf? (sign negative ++ run) = (quantity? negative run).map ([·]) := by
  have read : lexemes (sign negative ++ run) = lexemes (sign negative) ++ [.run run] := by
    rw [lexemes_append (Or.inl (endsApart_sign negative)), lexemes_of_isRunChar nonempty isRun]
  rw [tokensOf?, read]
  cases negative with
  | true =>
      change tokens? true false (.mark '-' :: [.run run]) = _
      rw [tokens?, Option.map_eq_bind]
      rfl
  | false =>
      change tokens? true false [.run run] = _
      rw [tokens?, Option.map_eq_bind]
      rfl

/-- No operator is left, so there is nothing to compute. -/
theorem result?_sign_append : result? (sign negative ++ run).trim = none := by
  rw [(Formula.hasDarkEnds_sign_append nonempty isRun).trim_eq, result?,
    tokensOf?_sign_append nonempty isRun]
  cases isQuantity : quantity? negative run with
  | none => rfl
  | some token =>
      obtain ⟨numeral, unit, rfl, -⟩ := exists_eq_quantity_of_quantity?_eq_some isQuantity
      change (compute? doubles _).bind (fun _ => none) = none
      exact Option.bind_fun_none _

end OneRun

/-- A number is written as a sign and a run, be it finite or not. -/
theorem exists_format_eq (number : Float) :
    ∃ negative run, run ≠ [] ∧ (∀ char ∈ run, isRunChar char = true) ∧
      Number.format number = sign negative ++ run := by
  obtain ⟨-, quantity, -, written⟩ | ⟨-, negative, written | written⟩ :=
    floatText_cases (Number.roundDecimals number)
  · exact ⟨quantity.negative, _, quantity.run_ne_nil, quantity.isRunChar_of_mem_run, written⟩
  · exact ⟨false, _, List.cons_ne_nil _ _, List.all_eq_true.1 rfl, written⟩
  · exact ⟨negative, _, List.cons_ne_nil _ _, List.all_eq_true.1 rfl, written⟩

theorem result?_format_append
    {unit : Text}
    (isUnit : ∀ char ∈ unit, isUnitChar char = true)
    (number : Float) :
    result? (Text.trim (Number.format number ++ unit)) = none := by
  obtain ⟨negative, run, nonempty, isRun, written⟩ := exists_format_eq number
  rw [written, List.append_assoc]
  refine result?_sign_append (List.append_ne_nil_of_left_ne_nil nonempty unit) fun char member => ?_
  obtain inRun | inUnit := List.mem_append.1 member
  · exact isRun char inRun
  · simp [isRunChar, isUnit char inUnit]

/-- A result has no result of its own. -/
theorem result?_trim_of_result?_eq_some
    {text result : Text}
    (computed : result? text = some result) :
    result? result.trim = none := by
  obtain ⟨number, unit, isUnit, rfl⟩ := exists_eq_format_append_of_result?_eq_some computed
  exact result?_format_append isUnit number

theorem ne_written_of_tokensOf?_eq_none
    {text : Text}
    (unread : tokensOf? text = none)
    (quantity : Quantity) :
    text ≠ quantity.written := by
  rintro rfl
  rw [quantity.writes.tokensOf?_eq_some] at unread
  contradiction

/--
Evaluating twice is evaluating once: a result is never read as an expression
again.  Exactly the numbers that are finite once they are rounded are written as
plain quantities: without a zero at the end of the decimals, a point at the end
or a sign in front of zero.
-/
theorem evaluate_evaluate_and_isFinite_iff (value : Text) (number : Float) :
    evaluate (evaluate value) = evaluate value ∧
      ((result? value.trim).bind fun result => result? result.trim) = none ∧
      ((Number.roundDecimals number).isFinite = true ↔
        ∃ quantity : Quantity, quantity.IsPlain ∧ Number.format number = quantity.written) := by
  refine ⟨?_, Option.bind_eq_none_iff.2 fun _ => result?_trim_of_result?_eq_some, ?_⟩
  · cases computed : result? value.trim with
    | none =>
        have unchanged : evaluate value = value := by rw [evaluate, computed]; rfl
        rw [unchanged, unchanged]
    | some result =>
        have isResult : evaluate value = result := by rw [evaluate, computed]; rfl
        rw [isResult, evaluate, result?_trim_of_result?_eq_some computed]
        rfl
  · obtain ⟨isFinite, written⟩ | ⟨notFinite, negative, word⟩ :=
      floatText_cases (Number.roundDecimals number)
    · exact iff_of_true isFinite written
    · rw [notFinite]
      refine iff_of_false (by decide) ?_
      rintro ⟨quantity, -, written⟩
      refine ne_written_of_tokensOf?_eq_none ?_ quantity written
      obtain same | same := word
      · exact (congrArg tokensOf? same).trans (by decide)
      · cases negative <;> exact (congrArg tokensOf? same).trans (by decide)

end Arithmetic
end LessTheme
