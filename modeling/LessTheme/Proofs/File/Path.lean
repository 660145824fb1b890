import Mathlib.Data.List.Basic
import Mathlib.Data.List.TakeWhile
import LessTheme.File.Path
import LessTheme.Proofs.Text.Pieces

/-!
# Entries of folders

An entry of a folder is named by the path of the folder and a name behind it.
The place that this path leads to is the entry of the place of the folder, and
the name can be read back from it.
-/

namespace LessTheme

namespace Path

/-- A name that an entry of a folder may have. -/
structure IsName (name : Text) : Prop where
  nonempty : name ≠ []
  noSlash : '/' ∉ name
  notPoint : name ≠ ['.']
  notPoints : name ≠ ['.', '.']

theorem isAbsolute_eq_false_of_not_mem
    {path : Text}
    (noSlash : '/' ∉ path) :
    isAbsolute path = false := by
  rw [isAbsolute, Bool.eq_false_iff]
  intro begins
  obtain ⟨rest, rfl⟩ := List.isPrefixOf_iff_prefix.1 begins
  exact noSlash List.mem_cons_self

theorem endsInSlash_iff
    {path : Text} :
    endsInSlash path = true ↔ ∃ front, path = front ++ ['/'] := by
  rw [endsInSlash, List.isSuffixOf_iff_suffix]
  constructor
  · rintro ⟨front, same⟩
    exact ⟨front, same.symm⟩
  · rintro ⟨front, rfl⟩
    exact List.suffix_append _ _

theorem endsInSlash_append
    (front : Text)
    {back : Text}
    (nonempty : back ≠ []) :
    endsInSlash (front ++ back) = endsInSlash back := by
  rw [Bool.eq_iff_iff, endsInSlash_iff, endsInSlash_iff]
  obtain rfl | ⟨start, last, rfl⟩ := List.eq_nil_or_concat back
  · contradiction
  rw [List.concat_eq_append, ← List.append_assoc]
  constructor
  · rintro ⟨other, same⟩
    exact ⟨start, by rw [(List.append_inj' same rfl).2]⟩
  · rintro ⟨other, same⟩
    exact ⟨front ++ start, by rw [(List.append_inj' same rfl).2]⟩

theorem child_eq_child_nil_append
    (folder name : Text) :
    child folder name = child folder [] ++ name := by
  unfold child
  split <;> simp

theorem join_of_relative
    (folder : Text)
    {path : Text}
    (relative : isAbsolute path = false) :
    join folder path = child folder path := by
  rw [join, relative]
  rfl

theorem isAbsolute_child
    (folder : Text)
    {name : Text}
    (relative : isAbsolute name = false) :
    isAbsolute (child folder name) = isAbsolute folder := by
  cases folder with
  | nil => exact relative
  | cons char rest =>
      unfold child
      split <;> rfl

theorem child_child
    (folder : Text)
    {middle : Text}
    (nonempty : middle ≠ [])
    (name : Text) :
    child folder (child middle name) = child (child folder middle) name := by
  have isEmpty : (child folder middle).isEmpty = false := by
    rw [child_eq_child_nil_append]
    simp [nonempty]
  have ends : endsInSlash (child folder middle) = endsInSlash middle := by
    rw [child_eq_child_nil_append, endsInSlash_append _ nonempty]
  rw [child_eq_child_nil_append folder (child middle name)]
  unfold child at isEmpty ends ⊢
  rw [isEmpty, ends, List.isEmpty_eq_false_iff.2 nonempty]
  split <;> split <;> simp

/-- Paths are joined in any order. -/
theorem join_assoc
    (folder middle : Text)
    {path : Text}
    (relative : isAbsolute path = false) :
    join folder (join middle path) = join (join folder middle) path := by
  rw [join_of_relative middle relative, join_of_relative (join folder middle) relative]
  cases absolute : isAbsolute middle with
  | true =>
      have still : isAbsolute (child middle path) = true := by
        rw [isAbsolute_child middle relative, absolute]
      rw [join, join, still, absolute]
      rfl
  | false =>
      have still : isAbsolute (child middle path) = false := by
        rw [isAbsolute_child middle relative, absolute]
      rw [join_of_relative folder still, join_of_relative folder absolute]
      cases middle with
      | nil =>
          change child folder path = child (child folder []) path
          unfold child
          split
          case isTrue ends => simp [ends]
          case isFalse => simp [endsInSlash_iff]
      | cons char rest => exact child_child folder (List.cons_ne_nil _ _) path

/-! ## Places -/

theorem IsName.isAbsolute
    {name : Text}
    (isName : IsName name) :
    Path.isAbsolute name = false :=
  isAbsolute_eq_false_of_not_mem isName.noSlash

theorem IsName.bne_slash
    {name : Text}
    (isName : IsName name) :
    ∀ char ∈ name, (char != '/') = true :=
  fun _ member => bne_iff_ne.2 fun same => isName.noSlash (same ▸ member)

theorem parts_append_cons
    (front back : Text) :
    parts (front ++ '/' :: back) = parts front ++ parts back := by
  rw [parts, Text.splitWhere_append_cons (by rfl), List.filter_append]
  rfl

theorem IsName.parts
    {name : Text}
    (isName : IsName name) :
    Path.parts name = [name] := by
  have unbroken : ∀ char ∈ name, (char == '/') = false := by
    intro char member
    simpa using isName.bne_slash char member
  rw [Path.parts, Text.splitWhere_eq_singleton unbroken]
  simp [isName.nonempty, isName.notPoint]

theorem parts_child
    (folder : Text)
    {name : Text}
    (isName : IsName name) :
    parts (child folder name) = parts folder ++ [name] := by
  unfold child
  split
  case isTrue ends =>
    obtain isEmpty | ends := (Bool.or_eq_true _ _).mp ends
    · rw [List.isEmpty_iff.1 isEmpty, List.nil_append, isName.parts]
      rfl
    · obtain ⟨front, rfl⟩ := endsInSlash_iff.1 ends
      rw [List.append_assoc, List.singleton_append, parts_append_cons, parts_append_cons,
        isName.parts]
      simp [parts, Text.splitWhere]
  case isFalse => rw [parts_append_cons, isName.parts]

theorem origin_child
    (folder : Text)
    {name : Text}
    (isName : IsName name) :
    origin (child folder name) = origin folder := by
  rw [origin, origin, isAbsolute_child folder isName.isAbsolute]

theorem beginsWithPoint_child
    (folder : Text)
    {name : Text}
    (isName : IsName name) :
    beginsWithPoint (child folder name) = beginsWithPoint folder := by
  obtain ⟨nonempty, noSlash, notPoint, -⟩ := isName
  match folder with
  | [] =>
      match name with
      | [] => contradiction
      | [first] => simpa [beginsWithPoint, child, List.isPrefixOf] using notPoint
      | first :: second :: rest =>
          have different : second ≠ '/' := by
            rintro rfl
            exact noSlash (by simp)
          simp [beginsWithPoint, child, List.isPrefixOf, different.symm]
  | [first] =>
      by_cases slash : first = '/'
      · subst slash
        simp [beginsWithPoint, child, endsInSlash, List.isPrefixOf]
      · have noEnd : endsInSlash [first] = false :=
          isAbsolute_eq_false_of_not_mem fun member => slash (List.mem_singleton.1 member).symm
        simp [beginsWithPoint, child, noEnd, List.isPrefixOf, Bool.beq_eq_decide_eq, eq_comm]
  | first :: second :: rest =>
      unfold child
      split <;> simp [beginsWithPoint, List.isPrefixOf]

/-- The place of an entry is the entry of the place of its folder. -/
theorem place_child
    (folder : Text)
    {name : Text}
    (isName : IsName name) :
    place (child folder name) = child (place folder) name := by
  unfold place
  rw [parts_child folder isName, beginsWithPoint_child folder isName, origin_child folder isName,
    List.foldl_append]
  rfl

theorem isPrefix_child
    (folder name : Text) :
    folder <+: child folder name := by
  unfold child
  split <;> exact List.prefix_append _ _

theorem below?_eq_some_iff
    {folder place rest : Text} :
    below? folder place = some rest ↔
      place ≠ folder ∧ isAbsolute folder = isAbsolute place ∧ child folder [] ++ rest = place := by
  unfold below?
  split
  case isTrue outside =>
    simp only [Bool.or_eq_true, beq_iff_eq, bne_iff_ne] at outside
    simp only [reduceCtorEq, false_iff]
    rintro ⟨different, same, -⟩
    exact outside.elim different (· same)
  case isFalse inside =>
    simp only [Bool.or_eq_true, beq_iff_eq, bne_iff_ne, not_or, not_not] at inside
    rw [List.isPrefixOf?_eq_some_iff_append_eq]
    exact ⟨fun same => ⟨inside.1, inside.2, same⟩, fun parts => parts.2.2⟩

theorem child_ne_folder
    (folder : Text)
    {name : Text}
    (nonempty : name ≠ []) :
    child folder name ≠ folder := by
  intro same
  have lengths := congrArg List.length same
  have positive := List.length_pos_iff.2 nonempty
  have grows : folder.length ≤ (child folder []).length := (isPrefix_child folder []).length_le
  rw [child_eq_child_nil_append, List.length_append] at lengths
  omega

theorem below?_child
    (folder : Text)
    {name : Text}
    (nonempty : name ≠ [])
    (relative : isAbsolute name = false) :
    below? folder (child folder name) = some name :=
  below?_eq_some_iff.2 ⟨child_ne_folder folder nonempty, (isAbsolute_child folder relative).symm,
    (child_eq_child_nil_append folder name).symm⟩

/-- The name of an entry is read back from its place. -/
theorem entryToward?_child
    (folder : Text)
    {name : Text}
    (isName : IsName name) :
    entryToward? folder (child folder name) = some name := by
  rw [entryToward?, below?_child folder isName.nonempty isName.isAbsolute, Option.map_some,
    List.takeWhile_eq_self_iff.2 isName.bne_slash]

theorem IsName.endsInSlash_child
    (folder : Text)
    {name : Text}
    (isName : IsName name) :
    endsInSlash (child folder name) = false := by
  rw [child_eq_child_nil_append, endsInSlash_append _ isName.nonempty, Bool.eq_false_iff]
  intro ends
  obtain ⟨front, rfl⟩ := endsInSlash_iff.1 ends
  exact isName.noSlash (List.mem_append_right _ (List.mem_singleton_self _))

/-- An entry leads to its own place and to the places below it. -/
theorem eq_child_or_below_of_entryToward?_eq_some
    {folder place name : Text}
    (isName : IsName name)
    (leads : entryToward? folder place = some name) :
    place = child folder name ∨ (below? (child folder name) place).isSome = true := by
  obtain ⟨rest, isBelow, isHead⟩ := Option.map_eq_some_iff.1 leads
  obtain ⟨-, sameOrigin, rfl⟩ := below?_eq_some_iff.1 isBelow
  obtain ⟨tail, rfl⟩ : ∃ tail, rest = name ++ tail :=
    ⟨_, (isHead ▸ List.takeWhile_append_dropWhile).symm⟩
  rw [← List.append_assoc, ← child_eq_child_nil_append]
  cases tail with
  | nil => exact .inl (List.append_nil _)
  | cons first deeper =>
      have stops : first = '/' := by
        by_contra different
        rw [List.takeWhile_append_of_pos isName.bne_slash] at isHead
        simp [different] at isHead
      subst stops
      have isFolder : child (child folder name) [] = child folder name ++ ['/'] := by
        have nonempty : child folder name ≠ [] := by
          rw [child_eq_child_nil_append]
          exact List.append_ne_nil_of_right_ne_nil _ isName.nonempty
        rw [child, isName.endsInSlash_child, List.isEmpty_eq_false_iff.2 nonempty]
        rfl
      refine .inr (Option.isSome_iff_exists.2 ⟨deeper, below?_eq_some_iff.2 ⟨?_, ?_, ?_⟩⟩)
      · simp
      · rw [isAbsolute_child folder isName.isAbsolute, sameOrigin, ← List.append_assoc,
          ← child_eq_child_nil_append]
      · rw [isFolder, List.append_assoc]
        rfl

/-- The path of an entry does not say of itself that it names a folder. -/
theorem IsName.namesFolder_child
    (folder : Text)
    {name : Text}
    (isName : IsName name) :
    namesFolder (child folder name) = false := by
  rw [namesFolder, isName.endsInSlash_child, Bool.false_or, Bool.eq_false_iff]
  intro ends
  rw [List.isSuffixOf_iff_suffix] at ends
  have nameEnds : name <:+ child folder name := by
    rw [child_eq_child_nil_append]
    exact List.suffix_append _ _
  obtain inside | isSuffix := List.suffix_or_suffix_of_suffix ends nameEnds
  · exact isName.noSlash (inside.subset List.mem_cons_self)
  · obtain same | isPoint := List.suffix_cons_iff.1 isSuffix
    · exact isName.noSlash (same ▸ List.mem_cons_self)
    · obtain same | isNothing := List.suffix_cons_iff.1 isPoint
      · exact isName.notPoint same
      · exact isName.nonempty (List.suffix_nil.1 isNothing)

theorem stem?_eq_some_iff
    {extension name stem : Text} :
    stem? extension name = some stem ↔ stem ≠ [] ∧ name = stem ++ '.' :: extension := by
  constructor
  · intro isStem
    dsimp only [stem?] at isStem
    split at isStem
    case isFalse => contradiction
    case isTrue found =>
      obtain ⟨longer, ends⟩ := (Bool.and_eq_true _ _).mp found
      obtain ⟨front, rfl⟩ := List.isSuffixOf_iff_suffix.1 ends
      rw [List.length_append, Nat.add_sub_cancel, List.take_left] at isStem
      obtain rfl := Option.some.inj isStem
      refine ⟨?_, rfl⟩
      rintro rfl
      simp at longer
  · rintro ⟨nonempty, rfl⟩
    have positive := List.length_pos_iff.2 nonempty
    have ends : List.isSuffixOf ('.' :: extension) (stem ++ '.' :: extension) = true :=
      List.isSuffixOf_iff_suffix.2 (List.suffix_append _ _)
    simp [stem?, ends, positive]

end Path
end LessTheme
