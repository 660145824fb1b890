import LessTheme.Source.Cell

/-!
# Segments

A segment is a string, a comment or a maximal run of code between them.  The
segments of a text follow each other without a gap and cover all of it.
-/

namespace LessTheme
namespace Source

/-- A run of characters of one lexical class. -/
structure Segment where
  /-- What the run is. -/
  kind : LexicalClass
  /-- The characters of the run. -/
  text : Text
  deriving DecidableEq, Repr

/-- Whether a cell continues the segment of the cell before it. -/
def Cell.continues (cell previous : Cell) : Bool :=
  cell.kind == previous.kind && !cell.opens

/-- Groups cells into segments. -/
def segmentsOfCells : List Cell → List Segment
  | [] => []
  | [cell] => [⟨cell.kind, [cell.char]⟩]
  | cell :: next :: rest =>
      if next.continues cell then
        (segmentsOfCells (next :: rest)).modifyHead fun segment =>
          ⟨cell.kind, cell.char :: segment.text⟩
      else ⟨cell.kind, [cell.char]⟩ :: segmentsOfCells (next :: rest)

/-- The segments of a text. -/
def segments (text : Text) : List Segment := segmentsOfCells (cells text)

/-- The part of a text that a segment takes, from its first byte to the byte after its last. -/
structure Span where
  /-- What the segment is. -/
  kind : LexicalClass
  /-- The first byte. -/
  start : Nat
  /-- The byte after the last one. -/
  stop : Nat
  deriving DecidableEq, Repr

/-- Places segments one after the other from the given byte on. -/
def spansFrom (start : Nat) : List Segment → List Span
  | [] => []
  | segment :: rest =>
      ⟨segment.kind, start, start + segment.text.byteLength⟩ ::
        spansFrom (start + segment.text.byteLength) rest

/-- Where the segments of a text lie. -/
def spans (text : Text) : List Span := spansFrom 0 (segments text)

end Source
end LessTheme
