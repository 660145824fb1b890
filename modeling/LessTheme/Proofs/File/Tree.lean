import LessTheme.File.Tree
import LessTheme.Proofs.Collection.SortedMap
import LessTheme.Proofs.File.Path
import LessTheme.Proofs.Theme.Outcome

/-!
# Entries that are listed

A file that is found under the path of a folder and a name is listed among the
entries of the folder.  On a disk the path of the folder must not be empty:
an empty path leads nowhere there, although a name alone is a path.  An entry
that is listed is a file or a folder, unless a disk refuses the way to it.
-/

namespace LessTheme
namespace FileTree

variable {tree : FileTree}

theorem follow_append
    (here : Text)
    (front back : List Text) :
    tree.follow here (front ++ back) =
      tree.follow here front >>= fun there => tree.follow there back := by
  induction front generalizing here with
  | nil => rfl
  | cons part rest inductionHypothesis =>
      rw [List.cons_append, follow, follow]
      cases tree.checkFolder here with
      | error fault => rfl
      | ok =>
          change (if _ then _ else tree.follow _ _) = (if _ then _ else tree.follow _ _) >>= _
          split
          · rfl
          · exact inductionHypothesis (Path.enter here part)

theorem checkFolder_eq_ok_iff
    {place : Text} :
    tree.checkFolder place = .ok () ↔
      tree.files.contains place = false ∧ tree.holdsFolder place = true := by
  unfold checkFolder
  split
  case isTrue isFile => simp [isFile]
  case isFalse unfiled =>
    rw [Bool.not_eq_true] at unfiled
    split
    case isTrue isFolder => simp [unfiled, isFolder]
    case isFalse missing => simp [missing]

/-- Following one name leads from a folder to its entry. -/
theorem follow_singleton_eq_ok_iff
    {here name place : Text}
    (isName : Path.IsName name) :
    tree.follow here [name] = .ok place ↔
      tree.checkFolder here = .ok () ∧ name.byteLength ≤ longestName ∧
        place = Path.child here name := by
  have entered : Path.enter here name = Path.child here name := by
    unfold Path.enter
    exact if_pos (bne_iff_ne.2 isName.notPoints)
  simp only [follow, entered, Outcome.bind_eq_ok_iff]
  split
  case isTrue long => simp [Nat.not_le.2 long]
  case isFalse short =>
    rw [Except.ok.injEq, eq_comm (a := place)]
    exact ⟨fun ⟨_, isFolder, same⟩ => ⟨isFolder, Nat.not_lt.1 short, same⟩,
      fun ⟨isFolder, _, same⟩ => ⟨(), isFolder, same⟩⟩

theorem checkPath_eq_ok_iff
    {path : Text} :
    checkPath path = .ok () ↔
      '\x00' ∉ path ∧ path ≠ [] ∧ path.byteLength ≤ longestPath := by
  unfold checkPath
  simp only [List.contains_eq_mem, decide_eq_true_eq, List.isEmpty_iff]
  split
  case isTrue zero => simp [zero]
  case isFalse noZero =>
    split
    case isTrue isEmpty => simp [isEmpty]
    case isFalse nonempty =>
      split
      case isTrue long => simp [Nat.not_le.2 long]
      case isFalse short => simp [noZero, nonempty, Nat.not_lt.1 short]

theorem checkPath_of_child
    {folder name : Text}
    (nonempty : folder ≠ [])
    (accepted : checkPath (Path.child folder name) = .ok ()) :
    checkPath folder = .ok () := by
  obtain ⟨rest, same⟩ := Path.isPrefix_child folder name
  rw [checkPath_eq_ok_iff, ← same, Text.byteLength_append, List.mem_append, not_or] at accepted
  obtain ⟨⟨noZero, -⟩, -, short⟩ := accepted
  exact checkPath_eq_ok_iff.2 ⟨noZero, nonempty, (Nat.le_add_right _ _).trans short⟩

theorem locate_eq_ok_iff
    {path place : Text} :
    tree.locate path = .ok place ↔
      checkPath path = .ok () ∧ tree.follow (Path.origin path) (Path.parts path) = .ok place ∧
        (Path.namesFolder path && tree.files.contains place) = false := by
  simp only [locate, Outcome.bind_eq_ok_iff]
  constructor
  · rintro ⟨⟨⟩, accepted, found, follows, located⟩
    split at located
    case isTrue => contradiction
    case isFalse isOpen =>
      obtain rfl := Except.ok.inj located
      exact ⟨accepted, follows, Bool.eq_false_iff.2 isOpen⟩
  · rintro ⟨accepted, follows, isOpen⟩
    exact ⟨(), accepted, place, follows, by rw [isOpen]; rfl⟩

/-- On a disk the way to an entry leads through its folder. -/
theorem locate_child_eq_ok_iff
    {folder name place : Text}
    (isName : Path.IsName name)
    (nonempty : folder ≠ []) :
    tree.locate (Path.child folder name) = .ok place ↔
      ∃ there, tree.locate folder = .ok there ∧ tree.checkFolder there = .ok () ∧
        checkPath (Path.child folder name) = .ok () ∧ name.byteLength ≤ longestName ∧
        place = Path.child there name := by
  simp only [locate_eq_ok_iff, Path.parts_child folder isName, Path.origin_child folder isName,
    follow_append, Outcome.bind_eq_ok_iff, follow_singleton_eq_ok_iff isName,
    isName.namesFolder_child, Bool.false_and, and_true]
  constructor
  · rintro ⟨accepted, there, toFolder, isFolder, short, isChild⟩
    refine ⟨there, ⟨checkPath_of_child nonempty accepted, toFolder, ?_⟩, isFolder, accepted,
      short, isChild⟩
    rw [(checkFolder_eq_ok_iff.1 isFolder).1, Bool.and_false]
  · rintro ⟨there, ⟨-, toFolder, -⟩, isFolder, accepted, short, isChild⟩
    exact ⟨accepted, there, toFolder, isFolder, short, isChild⟩

theorem resolve?_eq_some_iff_of_disk
    (onDisk : tree.medium = .disk)
    {path place : Text} :
    tree.resolve? path = some place ↔ tree.locate path = .ok place := by
  rw [resolve?, onDisk]
  cases tree.locate path <;> simp [Except.toOption]

theorem resolve?_eq_some_of_memory
    (inMemory : tree.medium = .memory)
    (path : Text) :
    tree.resolve? path = some (Path.place path) := by
  rw [resolve?, inMemory]

theorem isFile_eq_contains
    {path place : Text}
    (resolved : tree.resolve? path = some place) :
    tree.isFile path = tree.files.contains place := by
  rw [isFile, resolved]
  rfl

theorem isFolder_eq_holdsFolder
    {path place : Text}
    (resolved : tree.resolve? path = some place) :
    tree.isFolder path = tree.holdsFolder place := by
  rw [isFolder, resolved]
  rfl

/-- The way to an entry leads through its folder, whatever the tree is kept in. -/
theorem resolve?_child_eq_some
    {folder name place : Text}
    (isName : Path.IsName name)
    (reachable : tree.medium = .memory ∨ folder ≠ [])
    (resolved : tree.resolve? (Path.child folder name) = some place) :
    ∃ there, tree.resolve? folder = some there ∧ place = Path.child there name := by
  cases medium : tree.medium with
  | memory =>
      rw [resolve?_eq_some_of_memory medium, Option.some_inj] at resolved
      exact ⟨Path.place folder, resolve?_eq_some_of_memory medium folder,
        resolved.symm.trans (Path.place_child folder isName)⟩
  | disk =>
      have nonempty : folder ≠ [] := reachable.resolve_left (by simp [medium])
      obtain ⟨there, located, -, -, -, isChild⟩ :=
        (locate_child_eq_ok_iff isName nonempty).1
          ((resolve?_eq_some_iff_of_disk medium).1 resolved)
      exact ⟨there, (resolve?_eq_some_iff_of_disk medium).2 located, isChild⟩

theorem mem_entries_iff
    {folder name : Text} :
    name ∈ tree.entries folder ↔
      ∃ there, tree.resolve? folder = some there ∧
        ∃ place ∈ tree.places, Path.entryToward? there place = some name := by
  simp [entries]

/-- A file is listed among the entries of its folder. -/
theorem mem_entries_of_isFile
    {folder name : Text}
    (isName : Path.IsName name)
    (reachable : tree.medium = .memory ∨ folder ≠ [])
    (isFile : tree.isFile (Path.child folder name) = true) :
    name ∈ tree.entries folder := by
  obtain ⟨place, resolved, isThere⟩ := (Option.any_eq_true _ _).1 isFile
  obtain ⟨there, toFolder, rfl⟩ := resolve?_child_eq_some isName reachable resolved
  have isPlace : Path.child there name ∈ tree.places :=
    List.mem_append_left _ (SortedMap.mem_keys_iff.2 isThere)
  exact mem_entries_iff.2 ⟨there, toFolder, _, isPlace, Path.entryToward?_child there isName⟩

/-! ## What a listed entry is -/

theorem holdsFolder_of_below
    {folder place : Text}
    (isPlace : place ∈ tree.places)
    (isBelow : (Path.below? folder place).isSome = true) :
    tree.holdsFolder folder = true := by
  rw [holdsFolder, Bool.or_eq_true]
  exact .inr (List.any_eq_true.2 ⟨place, isPlace, isBelow⟩)

/-- What an entry leads to is a file or a folder. -/
theorem contains_or_holdsFolder_child
    {there name place : Text}
    (isName : Path.IsName name)
    (isPlace : place ∈ tree.places)
    (leads : Path.entryToward? there place = some name) :
    tree.files.contains (Path.child there name) = true ∨
      tree.holdsFolder (Path.child there name) = true := by
  obtain rfl | isBelow := Path.eq_child_or_below_of_entryToward?_eq_some isName leads
  · obtain isFile | isMade := List.mem_append.1 isPlace
    · exact .inl (SortedMap.mem_keys_iff.1 isFile)
    · have isMade := SortedMap.mem_keys_iff.1 isMade
      exact .inr (by simp [holdsFolder, isMade])
  · exact .inr (holdsFolder_of_below isPlace isBelow)

/--
A disk refuses the way to an entry: a file stands where the folder should be,
or the name or the path of the entry is too long.
-/
def Refuses (tree : FileTree) (folder name : Text) : Prop :=
  tree.medium = .disk ∧
    (tree.isFile folder = true ∨ longestName < name.byteLength ∨
      longestPath < (Path.child folder name).byteLength)

theorem not_refuses_of_resolve?_child_eq_some
    {folder name place : Text}
    (isName : Path.IsName name)
    (nonempty : folder ≠ [])
    (resolved : tree.resolve? (Path.child folder name) = some place) :
    ¬tree.Refuses folder name := by
  rintro ⟨onDisk, reason⟩
  obtain ⟨there, located, isFolder, accepted, short, -⟩ :=
    (locate_child_eq_ok_iff isName nonempty).1 ((resolve?_eq_some_iff_of_disk onDisk).1 resolved)
  obtain isFile | longName | longPath := reason
  · rw [isFile_eq_contains ((resolve?_eq_some_iff_of_disk onDisk).2 located),
      (checkFolder_eq_ok_iff.1 isFolder).1] at isFile
    contradiction
  · exact Nat.not_le.2 longName short
  · exact Nat.not_le.2 longPath (checkPath_eq_ok_iff.1 accepted).2.2

/-- There is a way to a listed entry that is not refused. -/
theorem resolve?_child_of_mem_entries
    {folder there name place : Text}
    (isName : Path.IsName name)
    (noZero : '\x00' ∉ name)
    (resolved : tree.resolve? folder = some there)
    (isPlace : place ∈ tree.places)
    (leads : Path.entryToward? there place = some name)
    (accepted : ¬tree.Refuses folder name) :
    tree.resolve? (Path.child folder name) = some (Path.child there name) := by
  cases medium : tree.medium with
  | memory =>
      rw [resolve?_eq_some_of_memory medium, Option.some_inj] at resolved ⊢
      rw [Path.place_child folder isName, resolved]
  | disk =>
      have fits : tree.isFile folder = false ∧ name.byteLength ≤ longestName ∧
          (Path.child folder name).byteLength ≤ longestPath := by
        simpa [Refuses, medium] using accepted
      obtain ⟨unfiled, shortName, shortPath⟩ := fits
      rw [isFile_eq_contains resolved] at unfiled
      have located := (resolve?_eq_some_iff_of_disk medium).1 resolved
      obtain ⟨folderNoZero, nonempty, -⟩ := checkPath_eq_ok_iff.1 (locate_eq_ok_iff.1 located).1
      -- Nothing but the listed entry says that its folder exists.
      have isBelow : (Path.below? there place).isSome = true := by
        obtain ⟨rest, isBelow, -⟩ := Option.map_eq_some_iff.1 leads
        exact Option.isSome_of_eq_some isBelow
      have isFolder : tree.checkFolder there = .ok () :=
        checkFolder_eq_ok_iff.2 ⟨unfiled, holdsFolder_of_below isPlace isBelow⟩
      have pathNoZero : '\x00' ∉ Path.child folder name := by
        unfold Path.child
        split <;> simp [folderNoZero, noZero]
      have pathNonempty : Path.child folder name ≠ [] := by
        rw [Path.child_eq_child_nil_append]
        exact List.append_ne_nil_of_right_ne_nil _ isName.nonempty
      exact (resolve?_eq_some_iff_of_disk medium).2 ((locate_child_eq_ok_iff isName nonempty).2
        ⟨there, located, isFolder,
          checkPath_eq_ok_iff.2 ⟨pathNoZero, pathNonempty, shortPath⟩, shortName, rfl⟩)

/-- A listed entry that is no file is a folder, unless the way to it is refused. -/
theorem isFile_child_eq_false_iff
    {folder name : Text}
    (isName : Path.IsName name)
    (noZero : '\x00' ∉ name)
    (isListed : name ∈ tree.entries folder) :
    tree.isFile (Path.child folder name) = false ↔
      tree.Refuses folder name ∨
        (tree.isFolder (Path.child folder name) = true ∧
          tree.isFile (Path.child folder name) = false) := by
  obtain ⟨there, resolved, place, isPlace, leads⟩ := mem_entries_iff.1 isListed
  by_cases accepted : tree.Refuses folder name
  · have noWay : tree.resolve? (Path.child folder name) = none := by
      by_contra way
      obtain ⟨found, way⟩ := Option.ne_none_iff_exists'.1 way
      refine not_refuses_of_resolve?_child_eq_some isName ?_ way accepted
      exact (checkPath_eq_ok_iff.1
        (locate_eq_ok_iff.1 ((resolve?_eq_some_iff_of_disk accepted.1).1 resolved)).1).2.1
    simp [isFile, noWay, accepted]
  · have way := resolve?_child_of_mem_entries isName noZero resolved isPlace leads accepted
    rw [isFile_eq_contains way, isFolder_eq_holdsFolder way]
    obtain isFile | isFolder := contains_or_holdsFolder_child isName isPlace leads
    · simp [isFile, accepted]
    · simp [isFolder, accepted]

end FileTree
end LessTheme
