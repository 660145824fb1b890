import LessTheme.Collection.OrderedMap
import LessTheme.Collection.SortedMap

/-!
# Last values

Where entries are read one after the other, the last one of a key wins.  Both
kinds of maps hold the last values of the entries that were inserted into
them; they differ in the order of their keys only.
-/

namespace LessTheme

variable {Value : Type}

theorem lookup_cons
    (entry : Text × Value)
    (rest : List (Text × Value))
    (key : Text) :
    (entry :: rest).lookup key = if entry.1 = key then some entry.2 else rest.lookup key := by
  obtain ⟨other, value⟩ := entry
  rw [List.lookup_cons]
  by_cases same : other = key
  · simp [same]
  · have different : (key == other) = false := by simpa using fun equal => same equal.symm
    simp [same, different]

/-- The value of the last entry with the given key. -/
def lastValue?
    (entries : List (Text × Value))
    (key : Text) : Option Value :=
  entries.reverse.lookup key

@[simp] theorem lastValue?_nil (key : Text) :
    lastValue? ([] : List (Text × Value)) key = none := rfl

@[simp] theorem lastValue?_append
    (front back : List (Text × Value))
    (key : Text) :
    lastValue? (front ++ back) key = (lastValue? back key).or (lastValue? front key) := by
  rw [lastValue?, List.reverse_append, List.lookup_append]
  rfl

theorem lastValue?_singleton
    (entry : Text × Value)
    (key : Text) :
    lastValue? [entry] key = if entry.1 = key then some entry.2 else none :=
  lookup_cons entry [] key

theorem lastValue?_cons
    (entry : Text × Value)
    (rest : List (Text × Value))
    (key : Text) :
    lastValue? (entry :: rest) key =
      (lastValue? rest key).or (if entry.1 = key then some entry.2 else none) := by
  rw [← List.singleton_append, lastValue?_append, lastValue?_singleton]

/-- Where no key is repeated, every entry is found under its key. -/
theorem lookup_of_mem
    {entries : List (Text × Value)}
    {entry : Text × Value}
    (nodup : (entries.map Prod.fst).Nodup)
    (member : entry ∈ entries) :
    entries.lookup entry.1 = some entry.2 := by
  obtain ⟨front, back, split⟩ := List.append_of_mem member
  rw [split, List.map_append, List.map_cons] at nodup
  refine List.lookup_eq_some_iff.2 ⟨front, back, split, fun other inFront => ?_⟩
  have apart := (List.nodup_append.1 nodup).2.2 other.1 (List.mem_map_of_mem inFront) entry.1
    List.mem_cons_self
  simpa using apart.symm

/-- Where no key is repeated, the last entry of a key is its first. -/
theorem lastValue?_eq_lookup
    {entries : List (Text × Value)}
    (nodup : (entries.map Prod.fst).Nodup)
    (key : Text) :
    lastValue? entries key = entries.lookup key := by
  induction entries with
  | nil => rfl
  | cons entry rest inductionHypothesis =>
      rw [List.map_cons, List.nodup_cons] at nodup
      rw [lastValue?_cons, lookup_cons, inductionHypothesis nodup.2]
      split
      case isTrue same =>
        have absent : rest.lookup entry.1 = none := by
          refine List.lookup_eq_none_iff.2 fun other member => bne_iff_ne.2 fun equal => ?_
          exact nodup.1 (equal ▸ List.mem_map_of_mem member)
        rw [← same, absent]
        rfl
      case isFalse => rw [Option.or_none]

theorem mem_of_lastValue?_eq_some
    {entries : List (Text × Value)}
    {key : Text}
    {value : Value}
    (found : lastValue? entries key = some value) :
    (key, value) ∈ entries := by
  induction entries with
  | nil => contradiction
  | cons entry rest inductionHypothesis =>
      rw [lastValue?_cons, Option.or_eq_some_iff] at found
      obtain later | ⟨-, here⟩ := found
      · exact List.mem_cons_of_mem _ (inductionHypothesis later)
      · split at here
        case isTrue same =>
          obtain rfl := Option.some.inj here
          rw [← same]
          exact List.mem_cons_self
        case isFalse => contradiction

theorem isSome_lastValue?_iff
    {entries : List (Text × Value)}
    {key : Text} :
    (lastValue? entries key).isSome = true ↔ key ∈ entries.map Prod.fst := by
  induction entries with
  | nil => simp
  | cons entry rest inductionHypothesis =>
      rw [lastValue?_cons, Option.isSome_or, Bool.or_eq_true, inductionHypothesis,
        List.map_cons, List.mem_cons, or_comm]
      apply or_congr_left
      split
      case isTrue same => simp [same]
      case isFalse different => simpa using fun equal => different equal.symm

/-- Leaving out entries by their keys leaves the last values of the other keys. -/
theorem lastValue?_filter
    (test : Text → Bool)
    (entries : List (Text × Value))
    (key : Text) :
    lastValue? (entries.filter fun entry => test entry.1) key =
      if test key then lastValue? entries key else none := by
  induction entries with
  | nil => simp
  | cons entry rest inductionHypothesis =>
      rw [lastValue?_cons, List.filter_cons]
      by_cases same : entry.1 = key
      · subst same
        cases kept : test entry.1 with
        | true => simp [kept, lastValue?_cons, inductionHypothesis]
        | false => simp [kept, inductionHypothesis]
      · cases kept : test entry.1 with
        | true => simp [same, lastValue?_cons, inductionHypothesis]
        | false => simp [same, inductionHypothesis]

theorem lastValue?_map_key
    {Other : Type}
    (change : Text → Other)
    (entries : List (Text × Value))
    (key : Text) :
    lastValue? (entries.map fun entry => (entry.1, change entry.1)) key =
      (lastValue? entries key).map fun _ => change key := by
  induction entries with
  | nil => rfl
  | cons entry rest inductionHypothesis =>
      rw [List.map_cons, lastValue?_cons, lastValue?_cons, inductionHypothesis]
      cases lastValue? rest key with
      | some value => rfl
      | none =>
          rw [Option.none_or, Option.map_none, Option.none_or]
          by_cases same : entry.1 = key
          · simp [same]
          · simp [same]

/-! ## Maps in order of keys -/

namespace SortedMap

theorem lookup_insertEntry
    (key other : Text)
    (value : Value)
    (entries : List (Text × Value)) :
    (insertEntry key value entries).lookup other =
      if key = other then some value else entries.lookup other := by
  induction entries with
  | nil => simp [insertEntry, lookup_cons]
  | cons entry rest inductionHypothesis =>
      unfold insertEntry
      split
      · simp [lookup_cons]
      · split
        case isTrue same =>
          simp only [lookup_cons, same]
          split <;> rfl
        case isFalse different =>
          rw [lookup_cons, lookup_cons, inductionHypothesis]
          split
          case isTrue found =>
            rw [if_neg (fun equal => different (found.trans equal.symm))]
          case isFalse => rfl

theorem get?_insert
    (map : SortedMap Value)
    (key other : Text)
    (value : Value) :
    (map.insert key value).get? other = if key = other then some value else map.get? other :=
  lookup_insertEntry key other value map.entries

@[simp] theorem get?_empty (key : Text) : (empty : SortedMap Value).get? key = none := rfl

/-- Inserting entries one after the other gives every key its last value. -/
theorem get?_insertAll
    (map : SortedMap Value)
    (entries : List (Text × Value))
    (key : Text) :
    (map.insertAll entries).get? key = (lastValue? entries key).or (map.get? key) := by
  induction entries generalizing map with
  | nil => rfl
  | cons entry rest inductionHypothesis =>
      change ((map.insert entry.1 entry.2).insertAll rest).get? key = _
      rw [inductionHypothesis, get?_insert, lastValue?_cons, Option.or_assoc]
      split <;> rfl

@[simp] theorem get?_ofList
    (entries : List (Text × Value))
    (key : Text) :
    (ofList entries).get? key = lastValue? entries key := by
  rw [ofList, get?_insertAll, get?_empty, Option.or_none]

theorem nodup_keys (map : SortedMap Value) : (map.entries.map Prod.fst).Nodup := by
  apply List.pairwise_map.2
  apply map.sorted.imp
  intro left right before equal
  rw [equal] at before
  exact List.lt_irrefl _ before

theorem lastValue?_entries
    (map : SortedMap Value)
    (key : Text) :
    lastValue? map.entries key = map.get? key :=
  lastValue?_eq_lookup map.nodup_keys key

theorem get?_of_mem_entries
    {map : SortedMap Value}
    {entry : Text × Value}
    (member : entry ∈ map.entries) :
    map.get? entry.1 = some entry.2 :=
  lookup_of_mem map.nodup_keys member

theorem mem_of_mem_entries_ofList
    {entries : List (Text × Value)}
    {entry : Text × Value}
    (member : entry ∈ (ofList entries).entries) :
    entry ∈ entries := by
  have found := get?_of_mem_entries member
  rw [get?_ofList] at found
  exact mem_of_lastValue?_eq_some found

end SortedMap

/-! ## Maps in order of insertion -/

namespace OrderedMap

theorem mem_insertEntry
    {key : Text}
    {value : Value}
    {entries : List (Text × Value)}
    {entry : Text × Value}
    (member : entry ∈ insertEntry key value entries) :
    entry = (key, value) ∨ entry ∈ entries := by
  induction entries with
  | nil => simpa [insertEntry] using member
  | cons first rest inductionHypothesis =>
      unfold insertEntry at member
      split at member
      · obtain equal | later := List.mem_cons.1 member
        · exact Or.inl equal
        · exact Or.inr (List.mem_cons_of_mem _ later)
      · obtain rfl | later := List.mem_cons.1 member
        · exact Or.inr List.mem_cons_self
        · exact (inductionHypothesis later).imp_right (List.mem_cons_of_mem _)

theorem lookup_insertEntry
    (key other : Text)
    (value : Value)
    (entries : List (Text × Value)) :
    (insertEntry key value entries).lookup other =
      if key = other then some value else entries.lookup other := by
  induction entries with
  | nil => simp [insertEntry, lookup_cons]
  | cons entry rest inductionHypothesis =>
      unfold insertEntry
      split
      case isTrue same =>
        simp only [lookup_cons, same]
        split <;> rfl
      case isFalse different =>
        rw [lookup_cons, lookup_cons, inductionHypothesis]
        split
        case isTrue found =>
          rw [if_neg (fun equal => different (found.trans equal.symm))]
        case isFalse => rfl

theorem get?_insert
    (map : OrderedMap Value)
    (key other : Text)
    (value : Value) :
    (map.insert key value).get? other = if key = other then some value else map.get? other :=
  lookup_insertEntry key other value map.entries

@[simp] theorem get?_empty (key : Text) : (empty : OrderedMap Value).get? key = none := rfl

/-- Inserting entries one after the other gives every key its last value. -/
theorem get?_insertAll
    (map : OrderedMap Value)
    (entries : List (Text × Value))
    (key : Text) :
    (map.insertAll entries).get? key = (lastValue? entries key).or (map.get? key) := by
  induction entries generalizing map with
  | nil => rfl
  | cons entry rest inductionHypothesis =>
      change ((map.insert entry.1 entry.2).insertAll rest).get? key = _
      rw [inductionHypothesis, get?_insert, lastValue?_cons, Option.or_assoc]
      split <;> rfl

@[simp] theorem get?_ofList
    (entries : List (Text × Value))
    (key : Text) :
    (ofList entries).get? key = lastValue? entries key := by
  rw [ofList, get?_insertAll, get?_empty, Option.or_none]

theorem get?_of_mem_entries
    {map : OrderedMap Value}
    {entry : Text × Value}
    (member : entry ∈ map.entries) :
    map.get? entry.1 = some entry.2 :=
  lookup_of_mem map.nodup member

theorem mem_entries_of_get?_eq_some
    {map : OrderedMap Value}
    {key : Text}
    {value : Value}
    (found : map.get? key = some value) :
    (key, value) ∈ map.entries := by
  apply mem_of_lastValue?_eq_some
  rwa [lastValue?_eq_lookup map.nodup]

theorem mem_keys_iff
    {map : OrderedMap Value}
    {key : Text} :
    key ∈ map.keys ↔ map.contains key = true := by
  rw [keys, contains, get?, ← lastValue?_eq_lookup map.nodup, isSome_lastValue?_iff]

theorem lookup_map_value
    {Result : Type}
    (update : Text → Value → Result)
    (entries : List (Text × Value))
    (key : Text) :
    (entries.map fun entry => (entry.1, update entry.1 entry.2)).lookup key =
      (entries.lookup key).map (update key) := by
  induction entries with
  | nil => rfl
  | cons entry rest inductionHypothesis =>
      rw [List.map_cons, lookup_cons, lookup_cons, inductionHypothesis]
      split
      case isTrue same => rw [same, Option.map_some]
      case isFalse => rfl

@[simp] theorem get?_mapValues
    {Result : Type}
    (update : Text → Value → Result)
    (map : OrderedMap Value)
    (key : Text) :
    (map.mapValues update).get? key = (map.get? key).map (update key) :=
  lookup_map_value update map.entries key

theorem mapValues_congr
    {Result : Type}
    {left right : Text → Value → Result}
    {map : OrderedMap Value}
    (same : ∀ entry ∈ map.entries, left entry.1 entry.2 = right entry.1 entry.2) :
    map.mapValues left = map.mapValues right := by
  have entries : (map.mapValues left).entries = (map.mapValues right).entries :=
    List.map_congr_left fun entry member => by rw [same entry member]
  cases leftMap : map.mapValues left
  cases rightMap : map.mapValues right
  rw [leftMap, rightMap] at entries
  cases entries
  rfl

theorem mapValues_mapValues
    {Middle Result : Type}
    (first : Text → Value → Middle)
    (second : Text → Middle → Result)
    (map : OrderedMap Value) :
    (map.mapValues first).mapValues second =
      map.mapValues fun key value => second key (first key value) := by
  simp [mapValues, List.map_map, Function.comp_def]

theorem mapValues_self (map : OrderedMap Value) :
    (map.mapValues fun _ value => value) = map := by
  simp [mapValues]

end OrderedMap
end LessTheme
