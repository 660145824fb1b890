import LessTheme.Json.Quoted

/-!
# Printing JSON

Lists and objects are printed with one member on a line, two spaces deeper
than the line that they begin on.  Without members they are a pair of
brackets.
-/

namespace LessTheme
namespace Json

/-- The white space in front of a line. -/
def indent (depth : Nat) : Text := List.replicate (2 * depth) ' '

/-- Members between brackets. -/
def bracketed (opening closing : Char) (depth : Nat) (members : List Text) : Text :=
  if members.isEmpty then [opening, closing]
  else
    let lines := members.map fun member => '\n' :: (indent (depth + 1) ++ member)
    opening :: (List.intercalate [','] lines ++ '\n' :: (indent depth ++ [closing]))

/-- The list of some printed items. -/
def list (depth : Nat) (items : List Text) : Text := bracketed '[' ']' depth items

/-- A printed value under a key. -/
def member (key value : Text) : Text := quoted key ++ ": " ++ value

/-- The object of some keys and printed values. -/
def object (depth : Nat) (members : List (Text × Text)) : Text :=
  bracketed '{' '}' depth (members.map fun entry => member entry.1 entry.2)

end Json
end LessTheme
