import LessTheme.Source.Split
import LessTheme.Variable.Kind

/-!
# Inferring the kind of a variable

The kind is read off the value first.  Where the value is a reference, a bare
word or nothing in particular, the name of the variable decides if it has a
telling ending:

    @button-background: @global-primary-background;   a colour, by its name
    @button-padding-horizontal: @global-gutter;       a reference
    @button-border-width: 1px;                        a size, by its value
-/

namespace LessTheme
namespace Inference

open Source

/-! ## Vocabulary -/

/-- The units of time. -/
def timeUnits : List Text := ["s", "ms"]

/-- The units of lengths, angles and shares. -/
def lengthUnits : List Text :=
  ["px", "em", "rem", "%", "vh", "vw", "vmin", "vmax", "ch", "ex", "pt", "pc", "cm", "mm", "in",
    "q", "fr", "lh", "deg", "rad", "grad", "turn"]

/-- The functions whose result is a colour. -/
def colorFunctions : List Text :=
  ["rgb", "rgba", "hsl", "hsla", "darken", "lighten", "fade", "fadein", "fadeout", "mix", "tint",
    "shade", "spin", "saturate", "desaturate"]

/-- The words that name a colour. -/
def namedColors : List Text :=
  ["transparent", "currentcolor", "black", "white", "red", "green", "blue", "gray", "grey",
    "silver", "maroon", "purple", "fuchsia", "lime", "olive", "yellow", "navy", "teal", "aqua",
    "orange"]

/-- The words that name a font weight. -/
def fontWeights : List Text := ["bold", "bolder", "lighter"]

/-- The generic font families. -/
def genericFamilies : List Text :=
  ["serif", "sans-serif", "monospace", "cursive", "fantasy", "system-ui", "ui-sans-serif",
    "ui-serif", "ui-monospace"]

/-- The words that name an easing curve. -/
def easingKeywords : List Text :=
  ["ease", "ease-in", "ease-out", "ease-in-out", "linear", "step-start", "step-end"]

/-- The functions whose result is an easing curve. -/
def easingFunctions : List Text := ["cubic-bezier", "steps"]

/-- The words that name a border style. -/
def borderStyles : List Text :=
  ["solid", "dashed", "dotted", "double", "groove", "ridge", "inset", "outset"]

/-! ## Shapes of one part -/

/-- A reference to a variable and nothing else. -/
def isReference : Text → Bool
  | '@' :: name => !name.isEmpty && name.all isNameChar
  | _ => false

/-- A hexadecimal colour of three, four, six or eight digits. -/
def isHexColor : Text → Bool
  | '#' :: digits => [3, 4, 6, 8].contains digits.length && digits.all isHexDigit
  | _ => false

/-- The text without a sign in front. -/
def withoutSign : Text → Text
  | '+' :: rest => rest
  | '-' :: rest => rest
  | text => text

/-- What follows an unsigned number at the front of a text. -/
def afterNumber? (text : Text) : Option Text :=
  let whole := text.takeWhile Char.isDigit
  match text.dropWhile Char.isDigit with
  | '.' :: fraction =>
      if whole.isEmpty && !fraction.head?.any Char.isDigit then none
      else some (fraction.dropWhile Char.isDigit)
  | rest => if whole.isEmpty then none else some rest

/-- A number without a unit. -/
def isNumber (part : Text) : Bool := afterNumber? (withoutSign part) == some []

/-- The unit of a number with a unit. -/
def unit? (part : Text) : Option Text := do
  let unit ← afterNumber? (withoutSign part)
  if unit == ['%'] || (!unit.isEmpty && unit.all Char.isAlpha) then return unit else none

/-- A word of letters, digits, hyphens and underscores that does not begin with a digit. -/
def isIdentifier (part : Text) : Bool :=
  let body := match part with
    | '-' :: rest => rest
    | text => text
  match body with
  | first :: rest => (first.isAlpha || first == '_') && rest.all isNameChar
  | [] => false

/-- A character of the name of a function. -/
def isFunctionNameChar (char : Char) : Bool := char.isAlpha || char == '-'

/-- The function of a call on one line that takes the whole part. -/
def functionName? (part : Text) : Option Text :=
  let name := part.takeWhile isFunctionNameChar
  match part.dropWhile isFunctionNameChar with
  | '(' :: rest =>
      if !name.isEmpty && rest.getLast? == some ')' && !rest.contains '\n' then some name
      else none
  | _ => none

/-- A call to one of the given functions. -/
def isCallTo (functions : List Text) (part : Text) : Bool :=
  (functionName? part).any fun name => name.isOneOf functions

/-- A text between two quotes of one kind. -/
def isQuoted (part : Text) : Bool :=
  decide (2 ≤ part.length) &&
    ((part.head? == some '"' && part.getLast? == some '"') ||
      (part.head? == some '\'' && part.getLast? == some '\''))

/-- A hexadecimal colour, a named colour or a call that gives a colour. -/
def isColor (part : Text) : Bool :=
  isHexColor part || part.isOneOf namedColors || isCallTo colorFunctions part

/-- A number with a unit of length. -/
def isLength (part : Text) : Bool := (unit? part).any fun unit => unit.isOneOf lengthUnits

/-- The kind of a number with the given unit. -/
def unitKind (unit : Text) : Kind :=
  if unit.isOneOf timeUnits then .duration
  else if unit.isOneOf lengthUnits then .size
  else .mixed

/-- The kind of a value that has one part. -/
def partKind (part : Text) : Kind :=
  if isReference part then .reference
  else if isColor part then .color
  else
    match unit? part with
    | some unit => unitKind unit
    | none =>
        if isNumber part then .number
        else if part.isOneOf fontWeights then .fontWeight
        else if isQuoted part then .fontFamily
        else if part.isOneOf easingKeywords || isCallTo easingFunctions part then .easing
        else if isIdentifier part then .keyword
        else .mixed

/-! ## Shapes of several parts -/

/-- A list of font families: at least one is quoted or generic. -/
def isFontList (items : List Text) : Bool :=
  decide (1 < items.length) && items.all (fun item => !item.isEmpty) &&
    items.any fun item => isQuoted item || item.isOneOf genericFamilies

/-- Whether a part names a border style. -/
def isBorderStyle (part : Text) : Bool := part.isOneOf borderStyles

/-- Whether a part may stand for a length. -/
def isLengthLike (part : Text) : Bool := isLength part || part == ['0']

/-- Whether a part may stand for a colour. -/
def isColorLike (part : Text) : Bool := isColor part || isReference part

/-- Whether a part is the word that makes a shadow an inner one. -/
def isInset (part : Text) : Bool := part.equalsIgnoringCase "inset"

/-- Parts of a border, with a border style among them. -/
def isBorder (parts : List Text) : Bool :=
  parts.any isBorderStyle &&
    parts.all (fun part => isBorderStyle part || isLengthLike part || isColorLike part) &&
    !parts.any isInset

/-- Parts of a shadow: an inner shadow, or two lengths and a colour. -/
def isShadow (parts : List Text) : Bool :=
  parts.any isInset ||
    (decide (2 ≤ (parts.filter isLengthLike).length) && parts.any isColorLike)

/-- The kind of a value with several parts and no comma at top level. -/
def shorthandKind (parts : List Text) : Kind :=
  if isBorder parts then .border
  else if isShadow parts then .shadow
  else .mixed

/-- The kind of a trimmed value with the given parts and the given items between commas. -/
def shapeKind (parts items : List Text) : Kind :=
  match parts, items with
  | [], _ => .mixed
  | [part], [_] => partKind part
  | _, _ =>
      if isFontList items then .fontFamily
      else if 1 < items.length then .mixed
      else shorthandKind parts

/-- The kind that a value shows by its shape. -/
def kindOfValue (value : Text) : Kind :=
  shapeKind (parts value.trim) (splitTopLevel ',' value.trim)

/-! ## Names -/

/-- The endings of names that tell a kind; the first that fits decides. -/
def nameEndings : List (Text × Kind) :=
  [("font-family", .fontFamily), ("font-weight", .fontWeight), ("font-size", .size),
    ("line-height", .number), ("border-color", .color), ("border-width", .size),
    ("border-radius", .size), ("box-shadow", .shadow), ("shadow", .shadow), ("border", .border),
    ("color", .color), ("background", .color), ("duration", .duration), ("delay", .duration),
    ("easing", .easing), ("timing-function", .easing), ("opacity", .number), ("z-index", .number),
    ("width", .size), ("height", .size), ("size", .size), ("margin", .size), ("padding", .size),
    ("gutter", .size), ("radius", .size), ("gap", .size)]

/-- Whether a name is the given ending, or has it after a hyphen. -/
def hasEnding (name ending : Text) : Bool :=
  name == ending || List.isSuffixOf ('-' :: ending) name

/-- The kind that the name of a variable tells, if it tells one. -/
def kindOfName? (name : Text) : Option Kind :=
  if List.isPrefixOf "color-" name.lower then some .color
  else (nameEndings.find? fun entry => hasEnding name.lower entry.1).map Prod.snd

end Inference

/-- The kind of a declared variable. -/
def inferKind (name value : Text) : Kind :=
  let byValue := Inference.kindOfValue value
  if byValue.isRefinable then (Inference.kindOfName? name).getD byValue else byValue

end LessTheme
