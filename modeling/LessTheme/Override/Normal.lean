import LessTheme.Text.Ascii
import LessTheme.Text.WhiteSpace
import LessTheme.Text.WordChar

/-!
# Normal form of values

Two spellings of a value that differ in white space or in the letter case of
hexadecimal colours are the same value.  The normal form decides whether an
override differs from the declared default.
-/

namespace LessTheme

/-- Writes a run of hexadecimal digits in lower case if it is as long as a colour. -/
def lowerColorDigits (digits : Text) (next : Option Char) : Text :=
  if decide (3 ≤ digits.length) && decide (digits.length ≤ 8) && !next.any isWordChar then
    digits.lower
  else digits

/-- A text read from its end to some place: the hexadecimal digits there, and the rest. -/
structure ColorReading where
  /-- The run of hexadecimal digits at the front. -/
  digits : Text
  /-- The text behind the run, with its colours in lower case. -/
  rest : Text

/-- Reads the character in front. -/
def ColorReading.prepend (char : Char) (reading : ColorReading) : ColorReading :=
  if isHexDigit char then ⟨char :: reading.digits, reading.rest⟩
  else if char = '#' then
    ⟨[], '#' :: (lowerColorDigits reading.digits reading.rest.head? ++ reading.rest)⟩
  else ⟨[], char :: (reading.digits ++ reading.rest)⟩

/-- The text with its hexadecimal colours in lower case. -/
def lowerColors (text : Text) : Text :=
  let reading := text.foldr ColorReading.prepend ⟨[], []⟩
  reading.digits ++ reading.rest

/-- The normal form of a value. -/
def normalForm (value : Text) : Text := lowerColors value.collapse

end LessTheme
