import LessTheme.Lowering.AtRule
import LessTheme.Lowering.ColorAlpha
import LessTheme.Lowering.CustomColor
import LessTheme.Lowering.LineComment
import LessTheme.Lowering.LineEnd
import LessTheme.Lowering.Selector

/-!
# Lowering a stylesheet

A program is lowered before it reaches a constrained compiler.  The steps run
in a fixed order, each on the result of the one before, and a step leaves what
it cannot classify as it is.
-/

namespace LessTheme
namespace Lowering

/--
Lowers a stylesheet to what a constrained compiler accepts.  Nothing stands for
a stylesheet whose colours with an alpha value can be expanded without end.
-/
def lower? (source : Text) : Option Lowered :=
  (expandColorAlpha? (literalCustomColors
    (bindComplexSelectors (blockComments (plainLines source))))).map cutAtRules

/-- The lowered stylesheet, where lowering ends. -/
def lower (source : Text) : Lowered := (lower? source).getD ⟨source, []⟩

end Lowering
end LessTheme
