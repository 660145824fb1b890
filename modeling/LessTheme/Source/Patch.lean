import LessTheme.Source.Cell

/-!
# Patches

A rewriting pass divides a text into stretches that it keeps and stretches
that it replaces.  The list of these stretches is a *patch*.  It determines
the text before and the text after, so the replaced stretches can neither
overlap nor leave the text.

`Rule.patch` builds a patch from left to right: at every cell a rule may
replace a stretch that begins there, and it goes on behind that stretch.
-/

namespace LessTheme
namespace Source

/-- A stretch of text that is kept or replaced. -/
inductive Piece
  | keep (text : Text)
  | replace (old new : Text)
  deriving DecidableEq, Repr

/-- A text divided into kept and replaced stretches. -/
abbrev Patch := List Piece

namespace Patch

/-- The text before the replacements. -/
def before : Patch → Text
  | [] => []
  | .keep text :: rest => text ++ before rest
  | .replace old _ :: rest => old ++ before rest

/-- The text after the replacements. -/
def after : Patch → Text
  | [] => []
  | .keep text :: rest => text ++ after rest
  | .replace _ new :: rest => new ++ after rest

/-- The replaced stretches as they were, in order. -/
def replaced : Patch → List Text
  | [] => []
  | .keep _ :: rest => replaced rest
  | .replace old _ :: rest => old :: replaced rest

end Patch

/-- A replacement of the stretch at the front of some cells. -/
structure Replacement where
  /-- How many cells after the first one belong to the stretch. -/
  furtherCells : Nat
  /-- The text that takes its place. -/
  new : Text
  deriving DecidableEq, Repr

/-- A rule that reads cells from left to right and may replace what lies ahead. -/
structure Rule (Memory : Type) where
  /-- What the rule remembers after a cell that it keeps. -/
  keep : Memory → Cell → Memory
  /-- What it remembers after a stretch that it replaces. -/
  replace : Memory → Memory
  /-- The replacement that it makes at the front of the cells. -/
  replacement? : Memory → List Cell → Option Replacement

namespace Rule

/--
The patch that a rule makes of some cells, the given number of them being the
rest of a stretch that is replaced already.
-/
def patchFrom {Memory : Type} (rule : Rule Memory) : Memory → Nat → List Cell → Patch
  | _, _, [] => []
  | memory, skipped + 1, _ :: rest => patchFrom rule memory skipped rest
  | memory, 0, cell :: rest =>
      match rule.replacement? memory (cell :: rest) with
      | some replacement =>
          .replace (cell.char :: chars (rest.take replacement.furtherCells)) replacement.new ::
            patchFrom rule (rule.replace memory) replacement.furtherCells rest
      | none => .keep [cell.char] :: patchFrom rule (rule.keep memory cell) 0 rest

/-- The patch that a rule makes of a text. -/
def patch {Memory : Type} (rule : Rule Memory) (memory : Memory) (text : Text) : Patch :=
  patchFrom rule memory 0 (cells text)

end Rule

end Source
end LessTheme
