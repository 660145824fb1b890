/-!
# Text

The library reads and writes text as a list of characters.  The marks that
matter in a stylesheet are all ASCII, so a character is the natural step of
every scanner here.  Positions are counted in characters inside the library;
`byteLength` and `indexOfByte?` convert at its edge, where positions are given
in bytes of UTF-8.
-/

namespace LessTheme

/-- Text is a list of characters, so that operations on it are functions on lists. -/
abbrev Text := List Char

namespace Text

/-- A string literal may stand where text is expected. -/
instance : Coe String Text := ⟨String.toList⟩

/-- The number of bytes that the text takes in UTF-8. -/
def byteLength : Text → Nat
  | [] => 0
  | char :: rest => char.utf8Size + byteLength rest

/-- The index of the character that starts at the given byte, if one does. -/
def indexOfByte? (offset : Nat) : Text → Option Nat
  | [] => if offset = 0 then some 0 else none
  | char :: rest =>
      if offset = 0 then some 0
      else if offset < char.utf8Size then none
      else (indexOfByte? (offset - char.utf8Size) rest).map (· + 1)

/-- Drops the longest run of matching characters at the end. -/
def dropEndWhile (isDropped : Char → Bool) (text : Text) : Text :=
  (text.reverse.dropWhile isDropped).reverse

/-- Drops matching characters at both ends. -/
def dropAround (isDropped : Char → Bool) (text : Text) : Text :=
  dropEndWhile isDropped (text.dropWhile isDropped)

/-- The pieces between matching characters, empty ones included. -/
def splitWhere (isSeparator : Char → Bool) : Text → List Text
  | [] => [[]]
  | char :: rest =>
      if isSeparator char then [] :: splitWhere isSeparator rest
      else (splitWhere isSeparator rest).modifyHead (char :: ·)

/-- Whether the text holds the pattern somewhere. -/
def includes : Text → Text → Bool
  | [], pattern => pattern.isEmpty
  | char :: rest, pattern => pattern.isPrefixOf (char :: rest) || includes rest pattern

/--
The lines of a text.  A line ends at a line feed, and a carriage return right
before the line feed belongs to the line end.  What follows the last line feed
is a line only if it is not empty.
-/
def lines : Text → List Text
  | [] => []
  | '\n' :: rest => [] :: lines rest
  | '\r' :: '\n' :: rest => [] :: lines rest
  | char :: rest =>
      match lines rest with
      | [] => [[char]]
      | line :: others => (char :: line) :: others

/-- The text without a byte-order mark in front. -/
def withoutByteOrderMark : Text → Text
  | '\ufeff' :: rest => rest
  | text => text

end Text
end LessTheme
