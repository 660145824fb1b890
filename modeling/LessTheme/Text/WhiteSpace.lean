import LessTheme.Text.Basic

/-!
# White space

Two notions of white space are in use.  `isWhiteSpace` is the Unicode property
White_Space; it decides trimming, words and the blanks of a declaration.
`isAsciiWhiteSpace` has five characters and separates the parts of a value.
-/

namespace LessTheme

/-- The Unicode property White_Space. -/
def isWhiteSpace (char : Char) : Bool :=
  let code := char.toNat
  (9 ≤ code && code ≤ 13) || code == 0x20 || code == 0x85 || code == 0xA0 ||
  code == 0x1680 || (0x2000 ≤ code && code ≤ 0x200A) || code == 0x2028 ||
  code == 0x2029 || code == 0x202F || code == 0x205F || code == 0x3000

/-- Space, tab, line feed, form feed and carriage return. -/
def isAsciiWhiteSpace (char : Char) : Bool :=
  char == ' ' || char == '\t' || char == '\n' || char == '\x0c' || char == '\r'

namespace Text

/-- Drops white space in front. -/
def trimStart (text : Text) : Text := text.dropWhile isWhiteSpace

/-- Drops white space at the end. -/
def trimEnd (text : Text) : Text := dropEndWhile isWhiteSpace text

/-- Drops white space at both ends. -/
def trim (text : Text) : Text := dropAround isWhiteSpace text

/-- Whether the text is empty or holds nothing but white space. -/
def isBlank (text : Text) : Bool := text.all isWhiteSpace

/-- The maximal runs of characters that are not white space. -/
def words (text : Text) : List Text :=
  (splitWhere isWhiteSpace text).filter (fun word => !word.isEmpty)

/-- Trims the text and writes every inner run of white space as one space. -/
def collapse (text : Text) : Text := List.intercalate [' '] (words text)

end Text
end LessTheme
