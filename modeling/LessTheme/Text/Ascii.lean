import LessTheme.Text.Basic

/-!
# ASCII classes

The classes of characters that names, numbers and colours of a stylesheet are
written in.  All of them are subsets of ASCII, and letter case is compared for
ASCII letters only.
-/

namespace LessTheme

/-- Letters, digits, the hyphen and the underscore: what names are made of. -/
def isNameChar (char : Char) : Bool :=
  char.isAlphanum || char == '-' || char == '_'

/-- A character that may begin the name of a declared variable. -/
def isNameStart (char : Char) : Bool :=
  char.isAlpha || char == '-' || char == '_'

/-- A hexadecimal digit of either case. -/
def isHexDigit (char : Char) : Bool :=
  char.isDigit || ('a' ≤ char && char ≤ 'f') || ('A' ≤ char && char ≤ 'F')

namespace Text

/-- The text with ASCII letters in lower case. -/
def lower (text : Text) : Text := text.map Char.toLower

/-- Equality up to the case of ASCII letters. -/
def equalsIgnoringCase (left right : Text) : Bool := lower left == lower right

/-- Whether some word of the list is the text up to the case of ASCII letters. -/
def isOneOf (word : Text) (choices : List Text) : Bool :=
  choices.any (equalsIgnoringCase word)

end Text
end LessTheme
