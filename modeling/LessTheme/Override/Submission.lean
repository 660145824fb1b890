import LessTheme.Override.Layer
import LessTheme.Override.Normal
import LessTheme.Variable.Catalog

/-!
# Submitted overrides

What a user submits is merged into the stored overrides of a unit.  The store
only ever holds values that differ from the declared default: a submitted value
that is empty or equal to the default removes the override, and stored values
that no longer belong to the unit are dropped.
-/

namespace LessTheme
namespace Overrides

/-- Whether a value says something else than the declared default. -/
def differsFromDefault (catalog : Catalog) (name value : Text) : Bool :=
  (catalog.find? name).any fun declared => normalForm value != normalForm declared.value

/-- Merges one submitted value.  Undeclared names and values that break statements are ignored. -/
def submitValue (catalog : Catalog) (stored : Overrides) (name value : Text) : Overrides :=
  let name := cleanName name
  let value := value.trim
  match catalog.find? name with
  | none => stored
  | some _ =>
      if breaksStatement value then stored
      else if (normalForm value).isEmpty || !differsFromDefault catalog name value then
        stored.erase name
      else stored.insert name value

/-- Merges submitted values into the stored overrides of a unit. -/
def submit (catalog : Catalog) (stored submitted : Overrides) : Overrides :=
  (submitted.entries.foldl (fun result entry => submitValue catalog result entry.1 entry.2)
    stored).filter (differsFromDefault catalog)

end Overrides
end LessTheme
