import LessTheme.Proofs.Collection.LastValue

/-!
# Filtered and equal maps

A sorted map is known by the values of its keys: filtering it filters these
values, the first value is that of the least key, and two maps with the same
values are equal.
-/

namespace LessTheme
namespace SortedMap

variable {Value : Type} {map : SortedMap Value}

theorem mem_entries_iff
    {entry : Text × Value} :
    entry ∈ map.entries ↔ map.get? entry.1 = some entry.2 := by
  constructor
  · exact get?_of_mem_entries
  · intro found
    rw [← lastValue?_entries] at found
    exact mem_of_lastValue?_eq_some found

theorem mem_keys_iff
    {key : Text} :
    key ∈ map.keys ↔ map.contains key = true := by
  rw [keys, List.mem_map, contains, Option.isSome_iff_exists]
  constructor
  · rintro ⟨entry, member, rfl⟩
    exact ⟨entry.2, mem_entries_iff.1 member⟩
  · rintro ⟨value, found⟩
    exact ⟨(key, value), mem_entries_iff.2 found, rfl⟩

theorem get?_filter
    (test : Text → Value → Bool)
    (map : SortedMap Value)
    (key : Text) :
    (map.filter test).get? key = (map.get? key).filter (test key) := by
  apply Option.ext
  intro value
  have member : ∀ map : SortedMap Value,
      (key, value) ∈ map.entries ↔ map.get? key = some value := fun map => mem_entries_iff
  rw [Option.filter_eq_some_iff, ← member, ← member]
  exact List.mem_filter

theorem get?_erase
    (map : SortedMap Value)
    (key other : Text) :
    (map.erase key).get? other = if other = key then none else map.get? other := by
  rw [erase, get?_filter]
  by_cases same : other = key
  · simp [same]
  · have kept : (other != key) = true := bne_iff_ne.2 same
    rw [if_neg same, kept]
    cases map.get? other <;> rfl

/-- Two maps that give every key the same value are equal. -/
theorem eq_of_get?
    {left right : SortedMap Value}
    (same : ∀ key, left.get? key = right.get? key) :
    left = right := by
  have antisymmetric : ∀ first second : Text × Value,
      first ∈ left.entries → second ∈ right.entries → first.1 < second.1 →
        second.1 < first.1 → first = second := by
    intro first second _ _ before after
    exact absurd (List.lt_trans before after) (List.lt_irrefl _)
  have nodupEntries : ∀ map : SortedMap Value, map.entries.Nodup := by
    intro map
    apply map.sorted.imp
    rintro first second before rfl
    exact List.lt_irrefl _ before
  have permuted : left.entries.Perm right.entries := by
    refine (List.perm_ext_iff_of_nodup (nodupEntries left) (nodupEntries right)).2 fun entry => ?_
    rw [mem_entries_iff, mem_entries_iff, same]
  have entriesEq := permuted.eq_of_pairwise antisymmetric left.sorted right.sorted
  cases left
  cases right
  cases entriesEq
  rfl

theorem ofList_entries (map : SortedMap Value) : ofList map.entries = map := by
  apply eq_of_get?
  intro key
  rw [get?_ofList, lastValue?_entries]

theorem erase_of_contains_eq_false
    {key : Text}
    (absent : ¬map.contains key = true) :
    map.erase key = map := by
  apply eq_of_get?
  intro other
  rw [get?_erase]
  split
  case isTrue same =>
    rw [contains, Bool.not_eq_true, Option.isSome_eq_false_iff] at absent
    rw [same, Option.isNone_iff_eq_none.1 absent]
  case isFalse => rfl

theorem get?_eq_none_of_isEmpty
    (isEmpty : map.isEmpty = true)
    (key : Text) :
    map.get? key = none := by
  rw [get?, List.isEmpty_iff.1 isEmpty]
  rfl

/-- The first value that a test accepts is that of the least key whose value it accepts. -/
theorem findSome?_values_eq_some_iff
    {Result : Type}
    {test : Value → Option Result}
    {result : Result} :
    (map.entries.map Prod.snd).findSome? test = some result ↔
      ∃ key, (map.get? key).bind test = some result ∧
        ∀ before, before < key → (map.get? before).bind test = none := by
  rw [List.findSome?_map, List.findSome?_eq_some_iff]
  constructor
  · rintro ⟨front, entry, back, split, accepted, refused⟩
    have sorted := map.sorted
    rw [split, List.pairwise_append, List.pairwise_cons] at sorted
    have found : map.get? entry.1 = some entry.2 := get?_of_mem_entries (by simp [split])
    refine ⟨entry.1, by rw [found]; exact accepted, fun before isBefore => ?_⟩
    rw [Option.bind_eq_none_iff]
    intro value foundBefore
    have inside : (before, value) ∈ front ++ entry :: back :=
      split ▸ mem_entries_iff.2 foundBefore
    obtain inFront | inBack := List.mem_append.1 inside
    · exact refused _ inFront
    · obtain rfl | behind := List.mem_cons.1 inBack
      · exact absurd isBefore (List.lt_irrefl _)
      · exact absurd (sorted.2.1.1 _ behind) (List.lt_asymm isBefore)
  · rintro ⟨key, accepted, refused⟩
    obtain ⟨value, found, accepted⟩ := Option.bind_eq_some_iff.1 accepted
    have member : (key, value) ∈ map.entries := mem_entries_iff.2 found
    obtain ⟨front, back, split⟩ := List.append_of_mem member
    have sorted := map.sorted
    rw [split, List.pairwise_append] at sorted
    refine ⟨front, (key, value), back, split, accepted, fun entry inFront => ?_⟩
    have notBefore := refused entry.1 (sorted.2.2 entry inFront _ List.mem_cons_self)
    rwa [get?_of_mem_entries (by simp [split, inFront])] at notBefore

end SortedMap
end LessTheme
