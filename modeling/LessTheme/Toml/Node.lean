import LessTheme.Text.Basic

/-!
# TOML documents

A document is a table.  How a table came into being decides what may still be
added to it: a table with a header of its own and a table between braces are
complete, a table that a longer key implies is not.
-/

namespace LessTheme
namespace Toml

/-- How a table came into being. -/
inductive Origin
  /-- By a header of its own. -/
  | header
  /-- By the header of a table inside it. -/
  | implied
  /-- By a key with points. -/
  | dotted
  /-- Between braces. -/
  | inline
  deriving DecidableEq, Repr

/-- A value of a document. -/
inductive Node
  /-- A string. -/
  | text (value : Text)
  /-- A whole number. -/
  | integer (value : Int)
  /-- A truth value or a fraction, as it is written. -/
  | scalar (written : Text)
  /-- A day, a time of day or both, as it is written. -/
  | moment (written : Text)
  /-- A list between brackets. -/
  | list (items : List Node)
  /-- A table with its entries in order. -/
  | table (origin : Origin) (entries : List (Text × Node))
  /-- The tables that share a header between double brackets. -/
  | tables (items : List (List (Text × Node)))
  deriving Repr

/-- The entries of a table, in order. -/
abbrev Entries := List (Text × Node)

/-- The entries of a moment where a table is expected: one under a reserved name. -/
def momentEntries (written : Text) : Entries := [("$__toml_private_datetime", .text written)]

/-- Where a table is completed or extended, and the entries taken out of it. -/
abbrev Change := Origin → Entries → Option (Entries × Entries)

/-- Whether a key with points may extend a table. -/
def Origin.isOpen (origin : Origin) : Bool := origin == .implied || origin == .dotted

/-- Replaces the value of a key that is present. -/
def replaceEntry (key : Text) (node : Node) (entries : Entries) : Entries :=
  entries.map fun entry => if entry.1 = key then (key, node) else entry

/-- Removes a key. -/
def removeEntry (key : Text) (entries : Entries) : Entries :=
  entries.filter fun entry => entry.1 != key

/--
Changes the table that some keys lead to.  Missing tables on the way are added
with the given origin.  A key with points does not lead through a table that
is complete, and no key leads through a value.
-/
def descend (added : Origin) (change : Change) : List Text → Change
  | [], origin, entries => change origin entries
  | key :: path, _, entries =>
      match entries.lookup key with
      | none =>
          (descend added change path added []).map fun changed =>
            (entries ++ [(key, .table added changed.1)], changed.2)
      | some (.table origin inner) =>
          if origin = .inline ∨ added = .dotted ∧ origin.isOpen = false then none
          else
            (descend added change path origin inner).map fun changed =>
              (replaceEntry key (.table origin changed.1) entries, changed.2)
      | some (.tables items) =>
          match items.getLast? with
          | none => none
          | some last =>
              (descend added change path .header last).map fun changed =>
                (replaceEntry key (.tables (items.dropLast ++ [changed.1])) entries, changed.2)
      | some _ => none

/-- Adds an entry whose key is not present. -/
def addNew? (key : Text) (node : Node) (entries : Entries) : Option Entries :=
  if (entries.lookup key).isSome then none else some (entries ++ [(key, node)])

/-- Adds a value under a key that may have points. -/
def assign? (path : List Text) (key : Text) (node : Node) (entries : Entries) : Option Entries :=
  (descend .dotted (fun origin inner =>
    if (origin == .dotted) == path.isEmpty then none
    else (addNew? key node inner).map fun changed => (changed, [])) path .header entries).map
      Prod.fst

end Toml
end LessTheme
