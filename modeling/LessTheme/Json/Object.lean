import LessTheme.Json.Quoted

/-!
# Reading JSON objects

An object is read with a reader for its values.  White space may stand between
all marks, and the last value does not have a comma behind it.
-/

namespace LessTheme
namespace Json

/-- The white space of the format. -/
def isBlank (char : Char) : Bool := char == ' ' || char == '\t' || char == '\n' || char == '\r'

/-- Drops white space in front. -/
def skipBlanks (text : Text) : Text := text.dropWhile isBlank

/-- Reads a key, a colon and a value. -/
def member? {Value : Type} (value? : Reader Value) : Reader (Text × Value) := fun text => do
  let (key, rest) ← string? text
  match skipBlanks rest with
  | ':' :: rest =>
      let (value, rest) ← value? (skipBlanks rest)
      return ((key, value), rest)
  | _ => none

/-- Reads members up to the closing brace, no more than the given number. -/
def members? {Value : Type} (value? : Reader Value) : Nat → Reader (List (Text × Value))
  | 0, _ => none
  | count + 1, text => do
      let (member, rest) ← member? value? text
      match skipBlanks rest with
      | ',' :: rest =>
          let (others, rest) ← members? value? count (skipBlanks rest)
          return (member :: others, rest)
      | '}' :: rest => return ([member], rest)
      | _ => none

/-- Reads an object.  It has no more members than the text has characters. -/
def object? {Value : Type} (value? : Reader Value) : Reader (List (Text × Value)) := fun text =>
  match text with
  | '{' :: rest =>
      match skipBlanks rest with
      | '}' :: rest => some ([], rest)
      | rest => members? value? rest.length rest
  | _ => none

/-- Reads a text that holds one value and white space. -/
def whole? {Value : Type} (value? : Reader Value) (text : Text) : Option Value := do
  let (value, rest) ← value? (skipBlanks text)
  if (skipBlanks rest).isEmpty then return value else none

end Json
end LessTheme
