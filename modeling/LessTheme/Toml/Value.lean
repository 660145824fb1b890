import LessTheme.Toml.Quoted
import LessTheme.Toml.Scalar

/-!
# Keys and values

A key has one or more parts with points between them.  A list may have line
ends and comments between its items and a comma behind the last one; a table
between braces stands on one line.
-/

namespace LessTheme
namespace Toml

/-- A key: the parts before the last and the last part. -/
structure Key where
  /-- The parts that lead to a table. -/
  path : List Text
  /-- The name in that table. -/
  name : Text
  deriving DecidableEq, Repr

namespace Key

/-- The key with one more part in front. -/
def under (part : Text) (key : Key) : Key := ⟨part :: key.path, key.name⟩

/-- All parts of a key. -/
def parts (key : Key) : List Text := key.path ++ [key.name]

end Key

/-- Drops blanks in front. -/
def skipBlanks (text : Text) : Text := text.dropWhile isBlank

/-- A character of a key without quotes. -/
def isBareChar (char : Char) : Bool := char.isAlphanum || char == '-' || char == '_'

/-- Reads one part of a key. -/
def keyPart? : Reader Text := fun text =>
  match text with
  | '"' :: _ => lineString? text
  | '\'' :: _ => lineString? text
  | _ =>
      let part := text.takeWhile isBareChar
      if part.isEmpty then none else some (part, text.dropWhile isBareChar)

/-- The greatest number of parts of a key, and of lists and tables around a value. -/
def depthLimit : Nat := 79

/-- Reads a key of no more parts than the given number, and the blanks behind it. -/
def keyOf? : Nat → Reader Key
  | 0, _ => none
  | count + 1, text => do
      let (part, rest) ← keyPart? (skipBlanks text)
      match skipBlanks rest with
      | '.' :: rest =>
          let (key, rest) ← keyOf? count rest
          return (key.under part, rest)
      | rest => return (⟨[], part⟩, rest)

/-- Reads a key and the blanks behind it. -/
def key? : Reader Key := keyOf? depthLimit

/--
Drops blanks, line ends and comments in front.  The flag says whether the text
begins inside a comment.
-/
def skipLines : Bool → Text → Text
  | false, '#' :: rest => skipLines true rest
  | true, '\r' :: '\n' :: rest => skipLines false rest
  | false, '\r' :: '\n' :: rest => skipLines false rest
  | _, '\n' :: rest => skipLines false rest
  | inComment, char :: rest =>
      if (inComment && isPlain char) || isBlank char then skipLines inComment rest
      else char :: rest
  | _, [] => []

/-- Adds a value between braces. -/
def addInline? (key : Key) (node : Node) (entries : Entries) : Option Entries :=
  assign? key.path key.name node entries

mutual

/--
Reads a value.  Every value inside another uses up one unit of fuel; the room
is the number of lists and tables that may still be opened around a value.
-/
def valueWithin? : Nat → Nat → Reader Node
  | 0, _, _ => none
  | fuel + 1, room, text =>
      match text, room with
      | '"' :: _, _ => Reader.map .text string? text
      | '\'' :: _, _ => Reader.map .text string? text
      | '[' :: rest, room + 1 => itemsWithin? fuel room [] rest
      | '{' :: rest, room + 1 =>
          match skipBlanks rest with
          | '}' :: rest => some (.table .inline [], rest)
          | rest => entriesWithin? fuel room [] rest
      | _, _ => scalar? text

/-- Reads the rest of a list, given the items read so far. -/
def itemsWithin? : Nat → Nat → List Node → Reader Node
  | 0, _, _, _ => none
  | fuel + 1, room, items, text =>
      match skipLines false text with
      | ']' :: rest => some (.list items, rest)
      | start => do
          let (item, rest) ← valueWithin? fuel room start
          match skipLines false rest with
          | ',' :: rest => itemsWithin? fuel room (items ++ [item]) rest
          | ']' :: rest => return (.list (items ++ [item]), rest)
          | _ => none

/-- Reads the rest of a table between braces, given the entries read so far. -/
def entriesWithin? : Nat → Nat → Entries → Reader Node
  | 0, _, _, _ => none
  | fuel + 1, room, entries, text => do
      let (key, rest) ← key? text
      let (_, rest) ← Reader.mark '=' rest
      let (node, rest) ← valueWithin? fuel room (skipBlanks rest)
      let entries ← addInline? key node entries
      match skipBlanks rest with
      | ',' :: rest => entriesWithin? fuel room entries rest
      | '}' :: rest => return (.table .inline entries, rest)
      | _ => none

end

/-- Reads a value.  A text holds fewer values than characters. -/
def value? : Reader Node := fun text => valueWithin? text.length depthLimit text

end Toml
end LessTheme
