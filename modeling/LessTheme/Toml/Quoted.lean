import LessTheme.Text.Hexadecimal
import LessTheme.Text.Reader

/-!
# Strings of TOML

A string stands between double quotes, where a backslash escapes, or between
single quotes, where nothing does.  Between tripled quotes it may have several
lines.
-/

namespace LessTheme
namespace Toml

/-- Blanks inside a line. -/
def isBlank (char : Char) : Bool := char == ' ' || char == '\t'

/-- A character that comments and strings may hold: no control character but the tab. -/
def isPlain (char : Char) : Bool :=
  char == '\t' || (0x20 ≤ char.toNat && char.toNat != 0x7F)

/-- What stands behind a line end at the front of a text. -/
def afterLineEnd? : Text → Option Text
  | '\n' :: rest => some rest
  | '\r' :: '\n' :: rest => some rest
  | _ => none

/-- The character that a single letter escapes. -/
def escaped? (letter : Char) : Option Char :=
  match letter with
  | 'b' => some '\x08'
  | 't' => some '\t'
  | 'n' => some '\n'
  | 'f' => some '\x0c'
  | 'r' => some '\r'
  | '"' => some '"'
  | '\\' => some '\\'
  | _ => none

/-- The character with a number given in hexadecimal digits. -/
def numbered? (digits : Text) : Option Char :=
  ((hexNumber? digits).filter fun code => decide code.isValidChar).map Char.ofNat

/-- Whether a backslash before a text continues the line. -/
def continuesLine (text : Text) : Bool := (afterLineEnd? (text.dropWhile isBlank)).isSome

/--
Reads quotes behind tripled quotes: a string may end in up to two quotes of
its own.
-/
def closingQuotes? (quote : Char) : Reader Text := fun text =>
  let extra := text.takeWhile (· == quote)
  if extra.length ≤ 2 then some (extra, text.drop extra.length) else none

/-! ## Between double quotes -/

/-- Reads the rest of a string on one line. -/
def basicBody? : Reader Text
  | '"' :: rest => some ([], rest)
  | '\\' :: 'u' :: a :: b :: c :: d :: rest =>
      (numbered? [a, b, c, d]).bind fun char => Reader.before char (basicBody? rest)
  | '\\' :: 'U' :: a :: b :: c :: d :: e :: f :: g :: h :: rest =>
      (numbered? [a, b, c, d, e, f, g, h]).bind fun char => Reader.before char (basicBody? rest)
  | '\\' :: letter :: rest => (escaped? letter).bind fun char => Reader.before char (basicBody? rest)
  | char :: rest =>
      if isPlain char && char != '\\' then Reader.before char (basicBody? rest) else none
  | [] => none

/--
Reads the rest of a string on several lines.  Behind a backslash at the end of
a line the white space up to the next character is skipped.
-/
def basicLines? : Bool → Reader Text
  | true, ' ' :: rest => basicLines? true rest
  | true, '\t' :: rest => basicLines? true rest
  | true, '\n' :: rest => basicLines? true rest
  | true, '\r' :: '\n' :: rest => basicLines? true rest
  | _, '"' :: '"' :: '"' :: rest => closingQuotes? '"' rest
  | _, '\\' :: 'u' :: a :: b :: c :: d :: rest =>
      (numbered? [a, b, c, d]).bind fun char => Reader.before char (basicLines? false rest)
  | _, '\\' :: 'U' :: a :: b :: c :: d :: e :: f :: g :: h :: rest =>
      (numbered? [a, b, c, d, e, f, g, h]).bind fun char => Reader.before char (basicLines? false rest)
  | _, '\\' :: letter :: rest =>
      if continuesLine (letter :: rest) then basicLines? true rest
      else (escaped? letter).bind fun char => Reader.before char (basicLines? false rest)
  | _, '\r' :: '\n' :: rest => Reader.before '\n' (basicLines? false rest)
  | _, char :: rest =>
      if char = '\n' || (isPlain char && char != '\\') then Reader.before char (basicLines? false rest)
      else none
  | _, [] => none

/-! ## Between single quotes -/

/-- Reads the rest of a string on one line. -/
def literalBody? : Reader Text
  | '\'' :: rest => some ([], rest)
  | char :: rest => if isPlain char then Reader.before char (literalBody? rest) else none
  | [] => none

/-- Reads the rest of a string on several lines. -/
def literalLines? : Reader Text
  | '\'' :: '\'' :: '\'' :: rest => closingQuotes? '\'' rest
  | '\r' :: '\n' :: rest => Reader.before '\n' (literalLines? rest)
  | char :: rest =>
      if char = '\n' || isPlain char then Reader.before char (literalLines? rest) else none
  | [] => none

/-! ## Strings -/

/-- A text without the line end in front. -/
def withoutLineEnd (text : Text) : Text := (afterLineEnd? text).getD text

/-- Reads a string on one line. -/
def lineString? : Reader Text
  | '"' :: rest => basicBody? rest
  | '\'' :: rest => literalBody? rest
  | _ => none

/-- Reads a string. -/
def string? : Reader Text
  | '"' :: '"' :: '"' :: rest => basicLines? false (withoutLineEnd rest)
  | '\'' :: '\'' :: '\'' :: rest => literalLines? (withoutLineEnd rest)
  | text => lineString? text

end Toml
end LessTheme
