import Mathlib.Data.List.Basic
import Mathlib.Data.List.Induction
import LessTheme.Proofs.Collection.LastValue

/-!
# Entries in order of insertion

An ordered map that entries are inserted into lists every key once, in the
order of the first entries, with the value of its last entry.
-/

namespace LessTheme

variable {Value : Type}

/-- Every key once, at the place of its first entry and with the value of its last. -/
def lastValues (entries : List (Text × Value)) : List (Text × Value) :=
  (entries.map Prod.fst).eraseDups.filterMap fun key =>
    (lastValue? entries key).map fun value => (key, value)

namespace OrderedMap

theorem keys_insertEntry
    (key : Text)
    (value : Value)
    (entries : List (Text × Value)) :
    (insertEntry key value entries).map Prod.fst =
      if key ∈ entries.map Prod.fst then entries.map Prod.fst
      else entries.map Prod.fst ++ [key] := by
  induction entries with
  | nil => rfl
  | cons entry rest inductionHypothesis =>
      unfold insertEntry
      by_cases same : entry.1 = key
      · simp [same]
      · rw [if_neg same, List.map_cons, inductionHypothesis, List.map_cons]
        have other : ¬key = entry.1 := fun equal => same equal.symm
        simp only [List.mem_cons, other, false_or]
        split <;> rfl

/-- Inserting a key adds it behind the others, unless it is there. -/
theorem keys_insert
    (map : OrderedMap Value)
    (key : Text)
    (value : Value) :
    (map.insert key value).keys =
      if key ∈ map.keys then map.keys else map.keys ++ [key] :=
  keys_insertEntry key value map.entries

/-- The keys of a map stay in front of those that are inserted. -/
theorem keys_prefix_insert
    (map : OrderedMap Value)
    (key : Text)
    (value : Value) :
    map.keys <+: (map.insert key value).keys := by
  rw [keys_insert]
  split
  · exact List.prefix_refl _
  · exact List.prefix_append _ _

theorem keys_prefix_insertAll
    (map : OrderedMap Value)
    (entries : List (Text × Value)) :
    map.keys <+: (map.insertAll entries).keys := by
  induction entries generalizing map with
  | nil => exact List.prefix_refl _
  | cons entry rest inductionHypothesis =>
      exact (keys_prefix_insert map entry.1 entry.2).trans (inductionHypothesis _)

theorem indexOf?_eq
    (map : OrderedMap Value)
    (key : Text) :
    map.indexOf? key = map.keys.findIdx? (· == key) := by
  rw [keys, List.findIdx?_map]
  rfl

theorem contains_eq_isSome_indexOf?
    (map : OrderedMap Value)
    (key : Text) :
    map.contains key = (map.indexOf? key).isSome := by
  rw [Bool.eq_iff_iff, ← mem_keys_iff, indexOf?_eq, List.findIdx?_isSome, List.any_beq',
    List.contains_iff_mem]

/-- Behind the keys of another map a key is found exactly if that map does not hold it. -/
theorem all_le_indexOf?
    {first map : OrderedMap Value}
    (inFront : first.keys <+: map.keys)
    (key : Text) :
    (map.indexOf? key).all (first.size ≤ ·) = !first.contains key := by
  obtain ⟨rest, whole⟩ := inFront
  have size : first.size = first.keys.length := (List.length_map _).symm
  rw [contains_eq_isSome_indexOf?, indexOf?_eq, indexOf?_eq, ← whole, List.findIdx?_append, size]
  cases place : first.keys.findIdx? (· == key) with
  | some index =>
      obtain ⟨inside, -⟩ := List.findIdx?_eq_some_iff_getElem.1 place
      simpa using inside
  | none => cases rest.findIdx? (· == key) <;> simp

theorem ofList_append_singleton
    (entries : List (Text × Value))
    (entry : Text × Value) :
    ofList (entries ++ [entry]) = (ofList entries).insert entry.1 entry.2 := by
  rw [ofList, insertAll, List.foldl_append]
  rfl

/-- The keys stand in the order of their first entries. -/
theorem keys_ofList (entries : List (Text × Value)) :
    (ofList entries).keys = (entries.map Prod.fst).eraseDups := by
  induction entries using List.reverseRecOn with
  | nil => rfl
  | append_singleton front entry inductionHypothesis =>
      rw [ofList_append_singleton, keys_insert, inductionHypothesis, List.map_append,
        List.eraseDups_append, List.map_singleton]
      by_cases known : entry.1 ∈ front.map Prod.fst
      · have nothingNew : [entry.1].removeAll (front.map Prod.fst) = [] := by
          simpa [List.removeAll] using known
        rw [if_pos (List.mem_eraseDups.2 known), nothingNew, List.eraseDups_nil, List.append_nil]
      · have allNew : [entry.1].removeAll (front.map Prod.fst) = [entry.1] := by
          simpa [List.removeAll] using known
        rw [if_neg (mt List.mem_eraseDups.1 known), allNew]
        rfl

/-- The entries of a map are its keys with their values. -/
theorem entries_eq_filterMap_keys (map : OrderedMap Value) :
    map.entries = map.keys.filterMap fun key =>
      (map.get? key).map fun value => (key, value) := by
  rw [keys, List.filterMap_map]
  conv_lhs => rw [← List.filterMap_some (l := map.entries)]
  apply List.filterMap_congr
  intro entry member
  simp [get?_of_mem_entries member]

/-- Of the entries that are inserted, the first decides the place of a key and the last its value. -/
theorem entries_ofList (entries : List (Text × Value)) :
    (ofList entries).entries = lastValues entries := by
  rw [entries_eq_filterMap_keys, keys_ofList, lastValues]
  simp only [get?_ofList]

theorem mapValues_insert
    {Result : Type}
    (update : Value → Result)
    (map : OrderedMap Value)
    (key : Text)
    (value : Value) :
    (map.insert key value).mapValues (fun _ => update) =
      (map.mapValues fun _ => update).insert key (update value) := by
  have entriesEq : ∀ entries : List (Text × Value),
      (insertEntry key value entries).map (fun entry => (entry.1, update entry.2)) =
        insertEntry key (update value) (entries.map fun entry => (entry.1, update entry.2)) := by
    intro entries
    induction entries with
    | nil => rfl
    | cons entry rest inductionHypothesis =>
        simp only [insertEntry, List.map_cons]
        split
        · rfl
        · rw [List.map_cons, inductionHypothesis]
  simp only [mapValues, insert, entriesEq]

theorem get?_modify
    (map : OrderedMap Value)
    (key other : Text)
    (change : Value → Value) :
    (map.modify key change).get? other =
      if other = key then (map.get? other).map change else map.get? other := by
  rw [modify, get?_mapValues]
  split
  · rfl
  · exact Option.map_id'

theorem keys_modify
    (map : OrderedMap Value)
    (key : Text)
    (change : Value → Value) :
    (map.modify key change).keys = map.keys := by
  simp [modify, mapValues, keys, Function.comp_def]

end OrderedMap
end LessTheme
