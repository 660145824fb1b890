import LessTheme.Text.Basic

/-!
# Kinds of variables

The kind of a variable says how its value is edited: as a colour, a size, a
shadow and so on.
-/

namespace LessTheme

/-- What the value of a variable is. -/
inductive Kind
  | color
  | size
  | number
  | fontFamily
  | fontWeight
  | duration
  | easing
  | border
  | shadow
  | keyword
  | reference
  | mixed
  deriving DecidableEq, Repr

namespace Kind

/-- The written name of a kind. -/
def name : Kind → Text
  | .color => "color"
  | .size => "size"
  | .number => "number"
  | .fontFamily => "font-family"
  | .fontWeight => "font-weight"
  | .duration => "duration"
  | .easing => "easing"
  | .border => "border"
  | .shadow => "shadow"
  | .keyword => "keyword"
  | .reference => "reference"
  | .mixed => "mixed"

/-- Whether the name of the variable may say more than this kind of value. -/
def isRefinable : Kind → Bool
  | .reference | .mixed | .keyword => true
  | _ => false

end Kind
end LessTheme
