import LessTheme.Number.Binary64
import LessTheme.Text.Hexadecimal
import LessTheme.Text.Reader
import LessTheme.Toml.Node

/-!
# Values without brackets and quotes

Whole numbers, fractions, truth values and moments.  Underscores may separate
the digits of a number.  A whole number must fit into 64 bits with a sign, and
a fraction above zero must not be so great that the nearest double is infinite.
-/

namespace LessTheme
namespace Toml

/-! ## Numbers -/

/-- The digits of a number without the underscores between them. -/
def groupedDigits? (isDigit : Char → Bool) (written : Text) : Option Text :=
  let groups := Text.splitWhere (· == '_') written
  if groups.all fun group => !group.isEmpty && group.all isDigit then some groups.flatten else none

/-- The digits of a number that does not begin with a superfluous zero. -/
def plainDigits? (written : Text) : Option Text :=
  if List.isPrefixOf ['0'] written && written.length != 1 then none
  else groupedDigits? Char.isDigit written

/-- The sign of a number and what follows it. -/
def signed (written : Text) : Int × Text :=
  match written with
  | '-' :: rest => (-1, rest)
  | '+' :: rest => (1, rest)
  | rest => (1, rest)

/-- Whether a number fits into 64 bits with a sign. -/
def fits (number : Int) : Bool := decide (-0x8000000000000000 ≤ number) && decide (number < 0x8000000000000000)

/-- The number that digits of a base write. -/
def inBase? (base : Nat) (written : Text) : Option Int :=
  (groupedDigits? (fun char => ((hexValue? char).filter (· < base)).isSome) written).bind
    fun digits => (digits? base digits).map Int.ofNat

/-- A whole number of any size. -/
def wholeNumber? (written : Text) : Option Int :=
  match written with
  | '0' :: 'x' :: digits => inBase? 16 digits
  | '0' :: 'o' :: digits => inBase? 8 digits
  | '0' :: 'b' :: digits => inBase? 2 digits
  | _ =>
      ((plainDigits? (signed written).2).bind (digits? 10)).map fun number =>
        (signed written).1 * Int.ofNat number

/-- Whether a character marks an exponent. -/
def isExponentMark (char : Char) : Bool := char == 'e' || char == 'E'

/-- A number with a fraction or an exponent. -/
structure Fraction where
  /-- Whether it has a minus sign. -/
  isNegative : Bool
  /-- The digits, as if they all stood behind the decimal point. -/
  digits : Text
  /-- The exponent of ten for such digits. -/
  scale : Int
  deriving DecidableEq, Repr

namespace Fraction

/-- The digits before and behind the point that a text writes. -/
def mantissa? (written : Text) : Option (Text × Text) := do
  let whole ← plainDigits? (written.takeWhile (· != '.'))
  match written.dropWhile (· != '.') with
  | '.' :: places => return (whole, ← groupedDigits? Char.isDigit places)
  | _ => return (whole, [])

/-- The exponent that a text writes without its mark. -/
def exponent? (written : Text) : Option Int :=
  ((groupedDigits? Char.isDigit (signed written).2).bind (digits? 10)).map fun number =>
    (signed written).1 * Int.ofNat number

/-- The number that a text writes with a point, an exponent or both. -/
def read? (written : Text) : Option Fraction := do
  let (sign, number) := signed written
  let (whole, places) ← mantissa? (number.takeWhile fun char => !isExponentMark char)
  match number.dropWhile fun char => !isExponentMark char with
  | _ :: exponent =>
      return ⟨sign == -1, whole ++ places, Int.ofNat whole.length + (← exponent? exponent)⟩
  | [] =>
      if places.isEmpty then none else some ⟨sign == -1, whole ++ places, Int.ofNat whole.length⟩

/-- How many digits a number has before the point if it is just too great for a double. -/
def greatestScale : Int := 309

/--
Whether the nearest double is the infinity above zero.  Only a number whose
digits before the point are as many as those of the threshold is compared with
it digit by digit.
-/
def isTooGreat (fraction : Fraction) : Bool :=
  let digits := fraction.digits.dropWhile (· == '0')
  let scale := fraction.scale - Int.ofNat (fraction.digits.length - digits.length)
  let isAbove := Number.infinityThreshold * Nat.pow 10 digits.length ≤
    (digits? 10 digits).getD 0 * Nat.pow 10 greatestScale.toNat
  !fraction.isNegative && !digits.isEmpty &&
    (decide (greatestScale < scale) || (scale == greatestScale && isAbove))

end Fraction

/-- Whether a text is a number without limit or without value. -/
def isSpecialNumber (written : Text) : Bool :=
  (signed written).2 == "inf" || (signed written).2 == "nan"

/-- Whether a text is a fraction that a double can hold, or one of the special numbers. -/
def isFraction (written : Text) : Bool :=
  isSpecialNumber written || (Fraction.read? written).any fun fraction => !fraction.isTooGreat

/-! ## Moments -/

/-- The number that a text of as many decimal digits writes. -/
def fixedDigits? (count : Nat) (written : Text) : Option Nat :=
  if written.length = count && written.all Char.isDigit then digits? 10 written else none

/-- Whether a year has a 29th of February. -/
def isLeapYear (year : Nat) : Bool := year % 4 == 0 && (year % 100 != 0 || year % 400 == 0)

/-- The number of days in a month. -/
def daysIn (year month : Nat) : Nat :=
  if month = 2 then (if isLeapYear year then 29 else 28)
  else if month = 4 ∨ month = 6 ∨ month = 9 ∨ month = 11 then 30
  else 31

/-- Whether a text is a day. -/
def isDay (written : Text) : Bool :=
  match Text.splitWhere (· == '-') written with
  | [year, month, day] =>
      match fixedDigits? 4 year, fixedDigits? 2 month, fixedDigits? 2 day with
      | some year, some month, some day =>
          1 ≤ month && month ≤ 12 && 1 ≤ day && day ≤ daysIn year month
      | _, _, _ => false
  | _ => false

/-- Whether a text is as many digits that write no more than a number. -/
def isBelow (count limit : Nat) (written : Text) : Bool :=
  (fixedDigits? count written).any fun number => decide (number ≤ limit)

/-- Whether a text is a time of day with seconds. -/
def isTime (written : Text) : Bool :=
  let clock := written.takeWhile (· != '.')
  let places := written.dropWhile (· != '.')
  let isClock := match Text.splitWhere (· == ':') clock with
    | [hour, minute, second] => isBelow 2 23 hour && isBelow 2 59 minute && isBelow 2 60 second
    | _ => false
  isClock && (places.isEmpty || (places.length != 1 && (places.drop 1).all Char.isDigit))

/-- Whether a text says how far a time is from the time at the prime meridian. -/
def isOffset (written : Text) : Bool :=
  match written with
  | [] => true
  | ['Z'] => true
  | ['z'] => true
  | sign :: distance =>
      (sign == '+' || sign == '-') &&
        match Text.splitWhere (· == ':') distance with
        | [hours, minutes] => isBelow 2 23 hours && isBelow 2 59 minutes
        | _ => false

/-- Whether a text is a time of day that an offset may follow. -/
def isOffsetTime (written : Text) : Bool :=
  let isTimeChar := fun (char : Char) => char.isDigit || char == ':' || char == '.'
  isTime (written.takeWhile isTimeChar) && isOffset (written.dropWhile isTimeChar)

/-- Whether a text is a day and a time with one letter between them. -/
def isDayAndTime (written : Text) : Bool :=
  match written.drop 10 with
  | mark :: time => (mark == 'T' || mark == 't') && isDay (written.take 10) && isOffsetTime time
  | [] => false

/-- Whether a text is a moment. -/
def isMoment (written : Text) : Bool := isDay written || isTime written || isDayAndTime written

/-! ## Reading -/

/-- A character of a value without brackets and quotes. -/
def isScalarChar (char : Char) : Bool :=
  char.isAlphanum || char == '+' || char == '-' || char == '_' || char == '.' || char == ':'

/-- The value that a text without brackets and quotes writes. -/
def scalarOf? (written : Text) : Option Node :=
  match wholeNumber? written with
  | some number => if fits number then some (.integer number) else none
  | none =>
      if isMoment written then some (.moment written)
      else if written == "true" || written == "false" || isFraction written then
        some (.scalar written)
      else none

/-- Reads a value without brackets and quotes; a day and a time may have a space between them. -/
def scalar? : Reader Node := fun text =>
  let written := text.takeWhile isScalarChar
  let rest := text.dropWhile isScalarChar
  let time := (rest.drop 1).takeWhile isScalarChar
  if isDay written && List.isPrefixOf [' '] rest && isOffsetTime time then
    some (.moment (written ++ ' ' :: time), (rest.drop 1).dropWhile isScalarChar)
  else (scalarOf? written).map fun node => (node, rest)

end Toml
end LessTheme
