import LessTheme.Source.Cell

/-!
# Matching delimiters

The delimiter that closes another is found by counting, and only delimiters
that stand as code count.
-/

namespace LessTheme
namespace Source

/--
The cells up to the delimiter that closes the one read just before, given how
many further ones are open; nothing if it is never closed.
-/
def enclosed? (opening closing : Char) : Nat → List Cell → Option (List Cell)
  | _, [] => none
  | depth, cell :: rest =>
      if cell.isCode opening then
        (enclosed? opening closing (depth + 1) rest).map (cell :: ·)
      else if cell.isCode closing then
        match depth with
        | 0 => some []
        | outer + 1 => (enclosed? opening closing outer rest).map (cell :: ·)
      else (enclosed? opening closing depth rest).map (cell :: ·)

/--
The cells between a delimiter at the front and the one that closes it; nothing
if the front is not that delimiter as code or it is never closed.
-/
def delimited? (opening closing : Char) : List Cell → Option (List Cell)
  | [] => none
  | cell :: rest =>
      if cell.isCode opening then enclosed? opening closing 0 rest else none

/-- The byte at which the delimiter at the given byte is closed. -/
def closingByte? (text : Text) (start : Nat) (opening closing : Char) : Option Nat := do
  let index ← text.indexOfByte? start
  let inner ← delimited? opening closing ((cells text).drop index)
  return start + opening.utf8Size + (chars inner).byteLength

end Source
end LessTheme
