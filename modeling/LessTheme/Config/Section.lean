import LessTheme.Config.Fault
import LessTheme.Toml.Node

/-!
# Sections of a configuration

A section is a record that is filled field by field, in the order in which the
fields are written.  It may be written as a table or as a list of its fields
in their own order; what is not written keeps its default.  A moment counts as
a table with one entry, whose name no section knows.
-/

namespace LessTheme
namespace Config

/-- Why a value is not accepted, or what it is. -/
abbrev Accepted (Value : Type) := Except ConfigFault Value

/-- A field of a record: its name, and how it is set. -/
abbrev Field (Record : Type) := Text × (Record → Toml.Node → Accepted Record)

variable {Record : Type}

/-- Sets the fields of a record from the entries of a table. -/
def fromEntries (fields : List (Field Record)) (start : Record) (entries : Toml.Entries) :
    Accepted Record :=
  entries.foldlM (fun record entry =>
    match fields.lookup entry.1 with
    | some set => set record entry.2
    | none => .error (.unknownField entry.1 (fields.map Prod.fst))) start

/-- Sets the fields of a record from a list, in order. -/
def fromItems (fields : List (Field Record)) (start : Record) (items : List Toml.Node) :
    Accepted Record :=
  (fields.zip items).foldlM (fun record entry => entry.1.2 record entry.2) start

/-- Sets the fields of a record. -/
def fromNode (fields : List (Field Record)) (start : Record) : Toml.Node → Accepted Record
  | .table _ entries => fromEntries fields start entries
  | .moment written => fromEntries fields start (Toml.momentEntries written)
  | .list items => fromItems fields start items
  | .tables items => fromItems fields start (items.map (.table .header))
  | _ => .error .wrongValue

/-! ## Values -/

/-- A value that must be a string. -/
def text : Toml.Node → Accepted Text
  | .text value => .ok value
  | _ => .error .wrongValue

/-- A value that must be a list of strings. -/
def texts : Toml.Node → Accepted (List Text)
  | .list items => items.mapM text
  | _ => .error .wrongValue

/-- A value that must be a number not below zero. -/
def count : Toml.Node → Accepted Nat
  | .integer number => if 0 ≤ number then .ok number.toNat else .error .wrongValue
  | _ => .error .wrongValue

end Config
end LessTheme
