import LessTheme.Source.Call
import LessTheme.Source.Patch
import LessTheme.Text.Quoted

/-!
# Colours of custom properties

A colour function over a custom property, such as `rgba(var(--accent), .5)`,
has a value only in the browser.  It is passed on as a literal string.
-/

namespace LessTheme
namespace Lowering

open Source

/-- The colour functions that may be applied to a custom property. -/
def colorFunctions : List Text := ["rgb", "rgba", "hsl", "hsla"]

/-- Whether a call is a colour over a custom property. -/
def isCustomColor (call : Call) : Bool :=
  call.isNamed colorFunctions && call.arguments.includes "var(--"

/-- The literal form of a colour over a custom property at the front of the cells. -/
def literalColor? (before : Option Cell) (cells : List Cell) : Option Replacement := do
  let call ← callAt? 0 before cells
  if isCustomColor call then
    let literal ← call.text.literal?
    return ⟨call.text.length - 1, literal⟩
  else none

/-- Writes colours over custom properties as literal strings; it remembers the cell before. -/
def customColorRule : Rule (Option Cell) where
  keep := fun _ cell => some cell
  replace := fun _ => some ⟨')', .code, false⟩
  replacement? := literalColor?

/-- The patch that makes the outermost colours over custom properties literal. -/
def customColorPatch (source : Text) : Patch := customColorRule.patch none source

/-- Writes colours over custom properties as literal strings. -/
def literalCustomColors (source : Text) : Text := (customColorPatch source).after

end Lowering
end LessTheme
