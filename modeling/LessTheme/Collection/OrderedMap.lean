import LessTheme.Text.Basic

/-!
# Maps in order of insertion

An ordered map keeps its keys in the order in which they were first inserted.
Inserting a key again changes its value and leaves its place.
-/

namespace LessTheme

/-- A map from text whose keys keep the order of their first insertion. -/
structure OrderedMap (Value : Type) where
  /-- The entries in order. -/
  entries : List (Text × Value)
  /-- No key occurs twice. -/
  nodup : (entries.map Prod.fst).Nodup
  deriving DecidableEq

namespace OrderedMap

/-- Replaces the value of a key, or adds the key at the end. -/
def insertEntry {Value : Type} (key : Text) (value : Value) :
    List (Text × Value) → List (Text × Value)
  | [] => [(key, value)]
  | entry :: rest =>
      if entry.1 = key then (key, value) :: rest else entry :: insertEntry key value rest

/-- Insertion adds no key but the given one. -/
theorem mem_keys_insertEntry {Value : Type} {key other : Text} {value : Value}
    {entries : List (Text × Value)} :
    other ∈ (insertEntry key value entries).map Prod.fst ↔
      other = key ∨ other ∈ entries.map Prod.fst := by
  induction entries with
  | nil => simp [insertEntry]
  | cons entry rest ih =>
      by_cases same : entry.1 = key
      · simp [insertEntry, same]
      · simp only [insertEntry, same, if_false, List.map_cons, List.mem_cons, ih]
        exact or_left_comm

/-- Insertion repeats no key. -/
theorem nodup_insertEntry {Value : Type} {key : Text} {value : Value}
    {entries : List (Text × Value)} (nodup : (entries.map Prod.fst).Nodup) :
    ((insertEntry key value entries).map Prod.fst).Nodup := by
  induction entries with
  | nil => simp [insertEntry]
  | cons entry rest ih =>
      have parts : entry.1 ∉ rest.map Prod.fst ∧ (rest.map Prod.fst).Nodup := by
        simpa using nodup
      by_cases same : entry.1 = key
      · simpa [insertEntry, same] using nodup
      · simp only [insertEntry, same, if_false, List.map_cons, List.nodup_cons]
        refine ⟨fun member => ?_, ih parts.2⟩
        rcases mem_keys_insertEntry.1 member with equal | member
        · exact same equal
        · exact parts.1 member

variable {Value : Type}

/-- The map without entries. -/
def empty : OrderedMap Value := ⟨[], by simp⟩

instance : Inhabited (OrderedMap Value) := ⟨empty⟩

/-- Sets the value of a key. -/
def insert (map : OrderedMap Value) (key : Text) (value : Value) : OrderedMap Value :=
  ⟨insertEntry key value map.entries, nodup_insertEntry map.nodup⟩

/-- Inserts entries one after the other. -/
def insertAll (map : OrderedMap Value) (entries : List (Text × Value)) : OrderedMap Value :=
  entries.foldl (fun result entry => result.insert entry.1 entry.2) map

/-- The map that inserting the given entries in turn leads to. -/
def ofList (entries : List (Text × Value)) : OrderedMap Value := empty.insertAll entries

/-- The value of a key. -/
def get? (map : OrderedMap Value) (key : Text) : Option Value := map.entries.lookup key

/-- Whether a key is present. -/
def contains (map : OrderedMap Value) (key : Text) : Bool := (map.get? key).isSome

/-- The keys in order. -/
def keys (map : OrderedMap Value) : List Text := map.entries.map Prod.fst

/-- The values in the order of their keys. -/
def values (map : OrderedMap Value) : List Value := map.entries.map Prod.snd

/-- The place of a key in the order of the keys. -/
def indexOf? (map : OrderedMap Value) (key : Text) : Option Nat :=
  map.entries.findIdx? fun entry => entry.1 == key

/-- The number of keys. -/
def size (map : OrderedMap Value) : Nat := map.entries.length

/-- Whether there is no key. -/
def isEmpty (map : OrderedMap Value) : Bool := map.entries.isEmpty

/-- Changes every value, given its key. -/
def mapValues {Result : Type} (change : Text → Value → Result) (map : OrderedMap Value) :
    OrderedMap Result :=
  ⟨map.entries.map fun entry => (entry.1, change entry.1 entry.2), by
    simpa [List.map_map, Function.comp_def] using map.nodup⟩

/-- Changes the value of a key, if it is present. -/
def modify (map : OrderedMap Value) (key : Text) (change : Value → Value) : OrderedMap Value :=
  map.mapValues fun other value => if other = key then change value else value

end OrderedMap
end LessTheme
