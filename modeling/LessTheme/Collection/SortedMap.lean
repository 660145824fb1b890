import LessTheme.Text.Basic

/-!
# Maps in order of keys

A sorted map keeps its keys in strictly increasing order of code points, so
two maps with the same entries are equal.
-/

namespace LessTheme

/-- A map from text whose keys are strictly increasing. -/
structure SortedMap (Value : Type) where
  /-- The entries in the order of their keys. -/
  entries : List (Text × Value)
  /-- The keys increase. -/
  sorted : entries.Pairwise fun left right => left.1 < right.1
  deriving DecidableEq

namespace SortedMap

/-- Replaces the value of a key, or adds the key at its place. -/
def insertEntry {Value : Type} (key : Text) (value : Value) :
    List (Text × Value) → List (Text × Value)
  | [] => [(key, value)]
  | entry :: rest =>
      if key < entry.1 then (key, value) :: entry :: rest
      else if entry.1 = key then (key, value) :: rest
      else entry :: insertEntry key value rest

/-- Insertion adds no entry but the given one. -/
theorem mem_insertEntry {Value : Type} {key : Text} {value : Value} {found : Text × Value}
    {entries : List (Text × Value)} (member : found ∈ insertEntry key value entries) :
    found = (key, value) ∨ found ∈ entries := by
  induction entries with
  | nil => simpa [insertEntry] using member
  | cons entry rest ih =>
      simp only [insertEntry] at member
      split at member
      · simpa using member
      · split at member
        · rcases List.mem_cons.1 member with equal | member
          · exact .inl equal
          · exact .inr (List.mem_cons_of_mem _ member)
        · rcases List.mem_cons.1 member with equal | member
          · exact .inr (equal ▸ List.mem_cons_self)
          · exact (ih member).imp_right (List.mem_cons_of_mem _)

/-- Insertion keeps the keys increasing. -/
theorem sorted_insertEntry {Value : Type} {key : Text} {value : Value}
    {entries : List (Text × Value)}
    (sorted : entries.Pairwise fun left right => left.1 < right.1) :
    (insertEntry key value entries).Pairwise fun left right => left.1 < right.1 := by
  induction entries with
  | nil => simp [insertEntry]
  | cons entry rest ih =>
      obtain ⟨below, restSorted⟩ := List.pairwise_cons.1 sorted
      simp only [insertEntry]
      split
      case isTrue before =>
        refine List.pairwise_cons.2 ⟨fun other member => ?_, sorted⟩
        rcases List.mem_cons.1 member with equal | member
        · exact equal ▸ before
        · exact List.lt_trans before (below other member)
      case isFalse notBefore =>
        split
        case isTrue same =>
          exact List.pairwise_cons.2 ⟨fun other member => same ▸ below other member, restSorted⟩
        case isFalse different =>
          refine List.pairwise_cons.2 ⟨fun other member => ?_, ih restSorted⟩
          rcases mem_insertEntry member with equal | member
          · subst equal
            exact Std.lt_of_le_of_ne (Std.not_lt.1 notBefore) different
          · exact below other member

variable {Value : Type}

/-- The map without entries. -/
def empty : SortedMap Value := ⟨[], by simp⟩

instance : Inhabited (SortedMap Value) := ⟨empty⟩

/-- Sets the value of a key. -/
def insert (map : SortedMap Value) (key : Text) (value : Value) : SortedMap Value :=
  ⟨insertEntry key value map.entries, sorted_insertEntry map.sorted⟩

/-- Inserts entries one after the other. -/
def insertAll (map : SortedMap Value) (entries : List (Text × Value)) : SortedMap Value :=
  entries.foldl (fun result entry => result.insert entry.1 entry.2) map

/-- The map that inserting the given entries in turn leads to. -/
def ofList (entries : List (Text × Value)) : SortedMap Value := empty.insertAll entries

/-- The value of a key. -/
def get? (map : SortedMap Value) (key : Text) : Option Value := map.entries.lookup key

/-- Whether a key is present. -/
def contains (map : SortedMap Value) (key : Text) : Bool := (map.get? key).isSome

/-- The keys in order. -/
def keys (map : SortedMap Value) : List Text := map.entries.map Prod.fst

/-- The number of keys. -/
def size (map : SortedMap Value) : Nat := map.entries.length

/-- Whether there is no key. -/
def isEmpty (map : SortedMap Value) : Bool := map.entries.isEmpty

/-- The entries that a test accepts. -/
def filter (test : Text → Value → Bool) (map : SortedMap Value) : SortedMap Value :=
  ⟨map.entries.filter fun entry => test entry.1 entry.2, map.sorted.filter _⟩

/-- Removes a key. -/
def erase (map : SortedMap Value) (key : Text) : SortedMap Value :=
  map.filter fun other _ => other != key

end SortedMap
end LessTheme
