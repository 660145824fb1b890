import LessTheme.Number.Binary64
import LessTheme.Text.Basic

/-!
# Numbers with at most four decimals

Computed values are rounded to four decimals, half away from zero, and written
without trailing zeros: `4.5`, `33.3333`, `0`.
-/

namespace LessTheme
namespace Number

/-- The number of decimals that computed values are rounded to. -/
def decimals : Nat := 4

/-- The number of units of the last decimal in one. -/
def unitsInOne : Nat := Nat.pow 10 decimals

/-- The decimal digits of a number, with zeros in front up to the given count. -/
def paddedDigits (count number : Nat) : Text :=
  let digits := Nat.toDigits 10 number
  List.replicate (count - digits.length) '0' ++ digits

/-- A number of units of the last decimal, written with all its decimals. -/
def fixedText (units : Nat) : Text :=
  Nat.toDigits 10 (units / unitsInOne) ++
    '.' :: paddedDigits decimals (units % unitsInOne)

/-- The text without zeros at its end, and without a point that then ends it. -/
def trimFraction (digits : Text) : Text :=
  Text.dropEndWhile (· == '.') (Text.dropEndWhile (· == '0') digits)

/-- A magnitude with at most four decimals. -/
def magnitudeText (value : Magnitude) : Text :=
  trimFraction (fixedText (nearest (value.numerator * unitsInOne) value.denominator))

/-- A sign in front of digits; a zero has none. -/
def signed (negative : Bool) (digits : Text) : Text :=
  if negative && digits != ['0'] then '-' :: digits else digits

/-- A double as it is, with at most four decimals. -/
def floatText (value : Float) : Text :=
  let bits := value.toBits.toNat
  if value.isNaN then "NaN"
  else if value.isInf then signed (isNegative bits) "inf"
  else signed (isNegative bits) (magnitudeText (magnitude bits))

/-- The double rounded to four decimals, half away from zero. -/
def roundDecimals (value : Float) : Float :=
  (value * 10000.0).round / 10000.0

/-- A computed value as it is written into a stylesheet. -/
def format (value : Float) : Text := floatText (roundDecimals value)

end Number
end LessTheme
