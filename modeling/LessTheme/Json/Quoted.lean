import LessTheme.Text.Hexadecimal
import LessTheme.Text.Reader

/-!
# Strings of JSON

A string is written in double quotes.  Quotes, backslashes and characters below
the space are escaped, and nothing else.  Reading accepts every escape of the
format; an escaped surrogate must be half of a pair.
-/

namespace LessTheme
namespace Json

/-! ## Writing -/

/-- The letter that escapes a character, if there is one. -/
def escapeLetter? (char : Char) : Option Char :=
  match char with
  | '"' => some '"'
  | '\\' => some '\\'
  | '\x08' => some 'b'
  | '\t' => some 't'
  | '\n' => some 'n'
  | '\x0c' => some 'f'
  | '\r' => some 'r'
  | _ => none

/-- A character as it stands in a string. -/
def escape (char : Char) : Text :=
  match escapeLetter? char with
  | some letter => ['\\', letter]
  | none =>
      if char.toNat < 0x20 then
        ['\\', 'u', '0', '0', hexDigit (char.toNat / 16), hexDigit (char.toNat % 16)]
      else [char]

/-- A text as a string. -/
def quoted (text : Text) : Text := '"' :: (text.flatMap escape ++ ['"'])

/-! ## Reading -/

/-- The character that an escaping letter stands for. -/
def escaped? (letter : Char) : Option Char :=
  match letter with
  | '"' => some '"'
  | '\\' => some '\\'
  | '/' => some '/'
  | 'b' => some '\x08'
  | 't' => some '\t'
  | 'n' => some '\n'
  | 'f' => some '\x0c'
  | 'r' => some '\r'
  | _ => none

/-- Whether a code unit is the first half of a pair. -/
def isHighSurrogate (unit : Nat) : Bool := 0xD800 ≤ unit && unit < 0xDC00

/-- Whether a code unit is the second half of a pair. -/
def isLowSurrogate (unit : Nat) : Bool := 0xDC00 ≤ unit && unit < 0xE000

/-- The character that a pair of surrogates writes. -/
def ofSurrogates (high low : Nat) : Char :=
  .ofNat (0x10000 + (high - 0xD800) * 0x400 + (low - 0xDC00))

/--
Reads a string whose opening quote has been read.  An escaped first half of a
pair is kept until the second half, which must follow at once.
-/
def stringBody? : Option Nat → Reader Text
  | none, '"' :: rest => some ([], rest)
  | half, '\\' :: 'u' :: a :: b :: c :: d :: rest =>
      match hexNumber? [a, b, c, d], half with
      | none, _ => none
      | some low, some high =>
          if isLowSurrogate low then Reader.before (ofSurrogates high low) (stringBody? none rest)
          else none
      | some unit, none =>
          if isHighSurrogate unit then stringBody? (some unit) rest
          else if isLowSurrogate unit then none
          else Reader.before (.ofNat unit) (stringBody? none rest)
  | none, '\\' :: letter :: rest =>
      (escaped? letter).bind fun char => Reader.before char (stringBody? none rest)
  | none, char :: rest =>
      if char.toNat < 0x20 || char = '\\' then none else Reader.before char (stringBody? none rest)
  | _, _ => none

/-- Reads a string at the front of a text. -/
def string? : Reader Text
  | '"' :: rest => stringBody? none rest
  | _ => none

end Json
end LessTheme
