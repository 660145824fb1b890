import LessTheme.Source.Call
import LessTheme.Source.Split

/-!
# Colours with an alpha value

The calls `rgba(color, alpha)` and `hsla(color, alpha)` are written with the
three channels of the colour:

    rgba(@primary, 0.5)
    rgba(red(@primary), green(@primary), blue(@primary), 0.5)

The innermost of several such calls is expanded first.
-/

namespace LessTheme

/--
Takes steps from a text until there is none to take.  Nothing stands for steps
that never end.
-/
def Text.settle? (step : Text → Option Text) (text : Text) : Option Text :=
  match step text with
  | some next => next |>.settle? step
  | none => some text
partial_fixpoint

namespace Lowering

open Source

/-- The two arguments of a call that is a colour with an alpha value. -/
def alphaArguments? (call : Call) : Option (Text × Text) :=
  match splitTopLevel ',' call.arguments with
  | [color, alpha] => if color.isEmpty || alpha.isEmpty then none else some (color, alpha)
  | _ => none

/-- The functions that give the three channels of a colour to a call of the given name. -/
def channels (name : Text) : List Text :=
  if name.equalsIgnoringCase "hsla" then ["hue", "saturation", "lightness"]
  else ["red", "green", "blue"]

/-- A colour with an alpha value, written with the channels of the colour. -/
def channelForm (name color alpha : Text) : Text :=
  let channelCalls := (channels name).map fun channel => channel ++ "(" ++ color ++ ")"
  name ++ "(" ++ List.intercalate ", " (channelCalls ++ [alpha]) ++ ")"

/-- The calls of a text that are colours with an alpha value. -/
def alphaCalls (source : Text) : List Call :=
  (callsTo ["rgba", "hsla"] source).filter fun call => (alphaArguments? call).isSome

/-- The text with its last colour with an alpha value expanded; nothing if it has none. -/
def expandLastAlpha? (source : Text) : Option Text := do
  let call ← (alphaCalls source).getLast?
  let (color, alpha) ← alphaArguments? call
  return source.take call.start ++ channelForm call.name color alpha ++
    source.drop (call.closing + 1)

/--
Expands every colour with an alpha value, the last one first.  Copies of an
argument with an open quote can bring forth new such colours without end;
nothing stands for an expansion that never ends.
-/
def expandColorAlpha? (source : Text) : Option Text := source.settle? expandLastAlpha?

/-- A text without colours with an alpha value is expanded already. -/
theorem expandColorAlpha?_of_expandLastAlpha?_eq_none {source : Text}
    (settled : expandLastAlpha? source = none) :
    expandColorAlpha? source = some source := by
  rw [expandColorAlpha?, Text.settle?, settled]

/-- Expanding one colour with an alpha value is the first step of expanding all. -/
theorem expandColorAlpha?_of_expandLastAlpha?_eq_some {source expanded : Text}
    (step : expandLastAlpha? source = some expanded) :
    expandColorAlpha? source = expandColorAlpha? expanded := by
  rw [expandColorAlpha?, Text.settle?, step, expandColorAlpha?]

/-- The text with every colour with an alpha value expanded, where the expansion ends. -/
def expandColorAlpha (source : Text) : Text := (expandColorAlpha? source).getD source

end Lowering
end LessTheme
