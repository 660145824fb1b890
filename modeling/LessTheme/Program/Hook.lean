import LessTheme.Collection.SortedMap
import LessTheme.Source.Cell
import LessTheme.Text.WhiteSpace

/-!
# Hooks

A rule body calls hooks, mixins such as `.hook-button();` that a theme may
define.  Every hook that is called gets an empty definition, so that a call
without definition does no harm.
-/

namespace LessTheme
namespace Hook

open Source

/-- The name of the hook that is called at the front of a text, after the point. -/
def calledName? (text : Text) : Option Text := do
  let rest ← List.isPrefixOf? "hook-" text
  let word := rest.takeWhile isNameChar
  match rest.dropWhile isNameChar with
  | '(' :: inner =>
      match Text.trimStart inner with
      | ')' :: behind =>
          if !word.isEmpty && (Text.trimStart behind).head? == some ';' then return "hook-" ++ word
          else none
      | _ => none
  | _ => none

/-- The names of the hooks that some cells call, in order. -/
def callsIn : List Cell → List Text
  | [] => []
  | cell :: rest =>
      if cell.isCode '.' then (calledName? (chars rest)).toList ++ callsIn rest
      else callsIn rest

/-- A set of hook names. -/
abbrev Names := SortedMap Unit

/-- The names of the hooks that a source calls outside strings and comments. -/
def names (source : Text) : Names :=
  .ofList ((callsIn (cells source)).map fun name => (name, ()))

/-- The empty definition of a hook. -/
def stub (name : Text) : Text := '.' :: (name ++ "() \x7b\x7d")

end Hook
end LessTheme
