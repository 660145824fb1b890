import LessTheme.Json.Printing
import LessTheme.Lowering.AtRule
import LessTheme.Variable.Resolver

/-!
# Listings

What commands print about variables and programs: a table for readers, and
JSON for other programs.
-/

namespace LessTheme
namespace Listing

/-! ## A table of variables -/

/-- A text with spaces behind it up to a width. -/
def padded (width : Nat) (text : Text) : Text :=
  text ++ List.replicate (width - text.length) ' '

/-- The greatest length of a name in bytes. -/
def nameWidth (listed : List ResolvedVariable) : Nat :=
  listed.foldl (fun width found => max width (Text.byteLength found.declared.name)) 0

/-- The line of a variable. -/
def row (width : Nat) (found : ResolvedVariable) : Text :=
  let mark : Text := if found.isOverridden then " (override)" else []
  let target : Text := if found.resolved = found.value then [] else "  -> " ++ found.resolved
  Text.trimEnd (' ' :: ' ' :: (padded width found.declared.name ++ "  " ++
    padded 11 found.declared.kind.name ++ ' ' :: (found.value ++ mark ++ target)))

/-- The groups of some variables, in the order of their first appearance. -/
def groups (listed : List ResolvedVariable) : List Text :=
  (listed.map fun found => found.declared.group).eraseDups

/-- The variables under the labels of their groups. -/
def table (listed : List ResolvedVariable) : Text :=
  let width := nameWidth listed
  (groups listed).flatMap fun group =>
    let members := listed.filter fun found => found.declared.group == group
    (group :: members.map (row width)).flatMap (· ++ ['\n'])

/-! ## JSON -/

/-- A truth value. -/
def truth (value : Bool) : Text := if value then "true" else "false"

/-- A variable as an object inside a list. -/
def variableObject (found : ResolvedVariable) : Text :=
  Json.object 1 [
    ("name", Json.quoted found.declared.name),
    ("value", Json.quoted found.value),
    ("type", Json.quoted found.declared.kind.name),
    ("group", Json.quoted found.declared.group),
    ("label", Json.quoted found.declared.label),
    ("resolved", Json.quoted found.resolved),
    ("overridden", truth found.isOverridden)]

/-- Some variables as a list. -/
def variableList (listed : List ResolvedVariable) : Text :=
  Json.list 0 (listed.map variableObject)

/-- A lowered program as an object. -/
def loweredObject (program : Lowering.Lowered) : Text :=
  Json.object 0 [
    ("source", Json.quoted program.source),
    ("reinject", Json.list 1 (program.atRules.map Json.quoted))]

end Listing
end LessTheme
