import LessTheme.Proofs.File.Tree

/-!
# Files that are written

A file can be written on a disk if the folder that its path lies in is there
and no folder stands in its place.  The file is there afterwards, holds what
was written and can be written again.  The folders that are made for it move
no other file.
-/

namespace LessTheme

/-! ## The folder that a path lies in -/

namespace Path

theorem parts_child_nil (folder : Text) :
    parts (child folder []) = parts folder := by
  unfold child
  split
  · rw [List.append_nil]
  · rw [parts_append_cons]
    exact List.append_nil _

theorem endsInName_append
    {front name : Text}
    (isFolder : front = [] ∨ endsInSlash front = true)
    (nonempty : name ≠ [])
    (noSlash : '/' ∉ name) :
    endsInName (front ++ name) = (name != ['.'] && name != ['.', '.']) := by
  have isPiece : (Text.splitWhere (· == '/') name).filter (fun part => !part.isEmpty) = [name] := by
    rw [Text.splitWhere_eq_singleton fun char member => by
      simpa using fun same : char = '/' => noSlash (same ▸ member)]
    simp [nonempty]
  unfold endsInName
  obtain rfl | ends := isFolder
  · rw [List.nil_append, isPiece]
    rfl
  · obtain ⟨start, rfl⟩ := endsInSlash_iff.1 ends
    rw [List.append_assoc, List.singleton_append, Text.splitWhere_append_cons (by rfl),
      List.filter_append, isPiece, List.getLast?_append]
    rfl

/-- A path that ends in a name names an entry of some folder. -/
theorem exists_eq_child
    {path : Text}
    (isName : endsInName path = true)
    (noSlash : endsInSlash path = false) :
    ∃ folder name, IsName name ∧ path = child folder name := by
  obtain ⟨front, name, rfl, isFolder, clean⟩ :
      ∃ front name, path = front ++ name ∧ (front = [] ∨ endsInSlash front = true) ∧
        '/' ∉ name := by
    by_cases slash : '/' ∈ path
    · obtain ⟨after, before, split, clean⟩ :=
        List.eq_append_cons_of_mem (List.mem_reverse.2 slash)
      refine ⟨before.reverse ++ ['/'], after.reverse, ?_, .inr (endsInSlash_iff.2 ⟨_, rfl⟩), ?_⟩
      · rw [← List.reverse_reverse path, split]
        simp
      · rwa [List.mem_reverse]
    · exact ⟨[], path, rfl, .inl rfl, slash⟩
  have nonempty : name ≠ [] := by
    rintro rfl
    rw [List.append_nil] at isName noSlash
    obtain rfl | ends := isFolder
    · contradiction
    · rw [ends] at noSlash
      contradiction
  rw [endsInName_append isFolder nonempty clean, Bool.and_eq_true, bne_iff_ne, bne_iff_ne] at isName
  refine ⟨front, name, ⟨nonempty, clean, isName.1, isName.2⟩, ?_⟩
  rw [child, if_pos (by simpa using isFolder)]

theorem IsName.endsInName_child
    (folder : Text)
    {name : Text}
    (isName : IsName name) :
    endsInName (child folder name) = true := by
  have isFolder : child folder [] = [] ∨ endsInSlash (child folder []) = true := by
    unfold child
    split
    case isTrue ends => simpa using ends
    case isFalse => exact .inr (endsInSlash_iff.2 ⟨folder, rfl⟩)
  rw [child_eq_child_nil_append, endsInName_append isFolder isName.nonempty isName.noSlash]
  simp [isName.notPoint, isName.notPoints]

theorem parts_dropEmptyEnd (reversed : Text) :
    parts (dropEmptyEnd reversed).reverse = parts reversed.reverse := by
  induction reversed using dropEmptyEnd.induct with
  | case1 rest inductionHypothesis =>
      rw [dropEmptyEnd, inductionHypothesis, List.reverse_cons, parts_append_cons]
      exact (List.append_nil _).symm
  | case2 rest inductionHypothesis =>
      rw [dropEmptyEnd, inductionHypothesis, List.reverse_cons, List.reverse_cons,
        List.append_assoc, List.singleton_append, parts_append_cons]
      exact (List.append_nil _).symm
  | case3 rest noSlash noPoint => rw [dropEmptyEnd] <;> assumption

theorem dropEmptyEnd_suffix (reversed : Text) :
    dropEmptyEnd reversed <:+ reversed := by
  induction reversed using dropEmptyEnd.induct with
  | case1 rest inductionHypothesis =>
      rw [dropEmptyEnd]
      exact inductionHypothesis.trans (List.suffix_cons _ _)
  | case2 rest inductionHypothesis =>
      rw [dropEmptyEnd]
      exact inductionHypothesis.trans ((List.suffix_cons _ _).trans (List.suffix_cons _ _))
  | case3 rest noSlash noPoint =>
      have stays : dropEmptyEnd rest = rest := by rw [dropEmptyEnd] <;> assumption
      exact ⟨[], stays⟩

theorem IsName.dropEmptyEnd_append
    {name : Text}
    (isName : IsName name)
    (back : Text) :
    dropEmptyEnd (name.reverse ++ back) = name.reverse ++ back := by
  have noSlash : '/' ∉ name.reverse := fun member => isName.noSlash (List.mem_reverse.1 member)
  cases reversed : name.reverse with
  | nil => exact absurd (List.reverse_eq_nil_iff.1 reversed) isName.nonempty
  | cons last front =>
      rw [reversed] at noSlash
      rw [dropEmptyEnd]
      · rintro rest same
        obtain ⟨rfl, -⟩ := List.cons.inj same
        exact noSlash List.mem_cons_self
      · rintro rest same
        obtain ⟨rfl, behind⟩ := List.cons.inj same
        cases front with
        | nil =>
            refine isName.notPoint ?_
            rw [← List.reverse_reverse name, reversed]
            rfl
        | cons second front =>
            obtain ⟨rfl, -⟩ := List.cons.inj behind
            exact noSlash (List.mem_cons_of_mem _ List.mem_cons_self)

/-- What is left of a path without the name of the entry and without empty parts before it. -/
theorem folderOf_child
    (folder : Text)
    {name : Text}
    (isName : IsName name) :
    folderOf (child folder name) =
      if (dropEmptyEnd (child folder []).reverse).isEmpty then origin folder
      else (dropEmptyEnd (child folder []).reverse).reverse := by
  have before : (child folder name).reverse = name.reverse ++ (child folder []).reverse := by
    rw [child_eq_child_nil_append, List.reverse_append]
  have cut : (name.reverse ++ (child folder []).reverse).dropWhile (· != '/') =
      (child folder []).reverse := by
    rw [List.dropWhile_append_of_pos fun char member => by
      simpa using isName.bne_slash char (List.mem_reverse.1 member)]
    unfold child
    split
    case isTrue ends =>
      rw [List.append_nil]
      obtain isEmpty | ends := (Bool.or_eq_true _ _).mp ends
      · rw [List.isEmpty_iff.1 isEmpty]
        rfl
      · obtain ⟨front, rfl⟩ := endsInSlash_iff.1 ends
        simp
    case isFalse => simp
  rw [folderOf, before, isName.dropEmptyEnd_append, cut, origin_child folder isName]
  simp only [List.isEmpty_reverse]

theorem parts_folderOf_child
    (folder : Text)
    {name : Text}
    (isName : IsName name) :
    parts (folderOf (child folder name)) = parts folder := by
  have same := parts_dropEmptyEnd (child folder []).reverse
  rw [List.reverse_reverse, parts_child_nil] at same
  rw [folderOf_child folder isName]
  split
  case isTrue isEmpty =>
    rw [List.isEmpty_iff.1 isEmpty] at same
    rw [← same, origin]
    split <;> rfl
  case isFalse => exact same

theorem folderOf_child_prefix
    (folder : Text)
    {name : Text}
    (isName : IsName name) :
    folderOf (child folder name) <+: child folder name := by
  rw [folderOf_child folder isName]
  split
  case isTrue =>
    rw [← origin_child folder isName, origin]
    split
    case isTrue absolute => exact List.isPrefixOf_iff_prefix.1 absolute
    case isFalse => exact List.nil_prefix
  case isFalse =>
    rw [child_eq_child_nil_append folder name]
    refine List.IsPrefix.trans ?_ (List.prefix_append _ _)
    simpa using List.reverse_prefix.2 (dropEmptyEnd_suffix (child folder []).reverse)

theorem origin_eq_of_prefix
    {front path : Text}
    (isPrefix : front <+: path)
    (nonempty : front ≠ []) :
    origin front = origin path := by
  obtain ⟨rest, rfl⟩ := isPrefix
  cases front with
  | nil => contradiction
  | cons char front => simp [origin, isAbsolute, List.isPrefixOf]

end Path

namespace FileTree

variable {tree : FileTree} {path folder name there : Text} {bytes : Bytes}

/-! ## Places -/

/-- The place that a path names, whether or not there is a way to it. -/
def placeOf
    (tree : FileTree)
    (path : Text) : Text :=
  match tree.medium with
  | .memory => Path.place path
  | .disk => (Path.parts path).foldl Path.enter (Path.origin path)

theorem eq_foldl_enter_of_follow_eq_ok
    {here : Text}
    {parts : List Text}
    (follows : tree.follow here parts = .ok there) :
    there = parts.foldl Path.enter here := by
  induction parts generalizing here with
  | nil => exact (Except.ok.inj follows).symm
  | cons part rest inductionHypothesis =>
      obtain ⟨-, -, follows⟩ := Outcome.bind_eq_ok_iff.1 follows
      split at follows
      · contradiction
      · exact inductionHypothesis follows

/-- The folder that a path lies in is there, or none is needed. -/
def HasFolderOf
    (tree : FileTree)
    (path : Text) : Prop :=
  tree.medium = .memory ∨ (Path.folderOf path).isEmpty = true ∨
    tree.isFolder (Path.folderOf path) = true

/-! ## Writing on a disk -/

/-- An entry with some name can be written in a folder, to which a path leads. -/
structure TakesFile
    (tree : FileTree)
    (folder name there : Text) : Prop where
  isName : Path.IsName name
  accepted : checkPath (Path.child folder name) = .ok ()
  leads : tree.follow (Path.origin folder) (Path.parts folder) = .ok there
  isFolder : tree.checkFolder there = .ok ()
  short : name.byteLength ≤ longestName
  isFree : tree.holdsFolder (Path.child there name) = false

namespace TakesFile

theorem follow_child (takes : tree.TakesFile folder name there) :
    tree.follow (Path.origin (Path.child folder name)) (Path.parts (Path.child folder name)) =
      .ok (Path.child there name) := by
  rw [Path.parts_child folder takes.isName, Path.origin_child folder takes.isName, follow_append,
    takes.leads]
  exact (follow_singleton_eq_ok_iff takes.isName).2 ⟨takes.isFolder, takes.short, rfl⟩

theorem locate (takes : tree.TakesFile folder name there) :
    tree.locate (Path.child folder name) = .ok (Path.child there name) :=
  locate_eq_ok_iff.2 ⟨takes.accepted, takes.follow_child, by
    rw [takes.isName.namesFolder_child, Bool.false_and]⟩

theorem placeOf
    (takes : tree.TakesFile folder name there)
    (onDisk : tree.medium = .disk) :
    tree.placeOf (Path.child folder name) = Path.child there name := by
  rw [FileTree.placeOf, onDisk]
  exact (eq_foldl_enter_of_follow_eq_ok takes.follow_child).symm

theorem hasFolderOf
    (takes : tree.TakesFile folder name there)
    (onDisk : tree.medium = .disk) :
    tree.HasFolderOf (Path.child folder name) := by
  by_cases isEmpty : Path.folderOf (Path.child folder name) = []
  · exact .inr (.inl (List.isEmpty_iff.2 isEmpty))
  refine .inr (.inr ?_)
  have isPrefix := Path.folderOf_child_prefix folder takes.isName
  have accepted : checkPath (Path.folderOf (Path.child folder name)) = .ok () := by
    obtain ⟨noZero, -, short⟩ := checkPath_eq_ok_iff.1 takes.accepted
    obtain ⟨rest, same⟩ := isPrefix
    rw [← same, Text.byteLength_append] at short
    refine checkPath_eq_ok_iff.2 ⟨fun member => noZero ?_, isEmpty, by omega⟩
    exact same ▸ List.mem_append_left rest member
  obtain ⟨unfiled, isFolder⟩ := checkFolder_eq_ok_iff.1 takes.isFolder
  have located : tree.locate (Path.folderOf (Path.child folder name)) = .ok there := by
    refine locate_eq_ok_iff.2 ⟨accepted, ?_, by rw [unfiled, Bool.and_false]⟩
    rw [Path.parts_folderOf_child folder takes.isName, Path.origin_eq_of_prefix isPrefix isEmpty,
      Path.origin_child folder takes.isName, takes.leads]
  rw [isFolder_eq_holdsFolder ((resolve?_eq_some_iff_of_disk onDisk).2 located), isFolder]

end TakesFile

/-- How a file is written whose path ends in a name. -/
theorem writeDisk_child
    (isName : Path.IsName name) :
    tree.writeDisk (Path.child folder name) bytes = (do
      checkPath (Path.child folder name)
      let there ← tree.follow (Path.origin folder) (Path.parts folder)
      tree.checkFolder there
      let place ← tree.follow there [name]
      if tree.holdsFolder place then .error .isFolder else .ok (tree.put place bytes)) := by
  unfold writeDisk
  simp only [isName.endsInName_child folder, isName.endsInSlash_child folder,
    Path.parts_child folder isName, Path.origin_child folder isName, List.dropLast_concat,
    List.drop_left, if_true, Bool.not_true, Bool.or_self, Bool.false_eq_true, if_false]

theorem endsInName_of_writeDisk_eq_ok
    {later : FileTree}
    (written : tree.writeDisk path bytes = .ok later) :
    Path.endsInName path = true ∧ Path.endsInSlash path = false := by
  simp only [writeDisk, Outcome.bind_eq_ok_iff] at written
  obtain ⟨⟨⟩, -, folder, -, ⟨⟩, -, written⟩ := written
  split at written
  case isTrue => contradiction
  case isFalse ends => simpa using ends

/-- A file is written exactly if there is a folder for it. -/
theorem writeDisk_eq_ok_iff
    {later : FileTree} :
    tree.writeDisk path bytes = .ok later ↔
      ∃ folder name there, path = Path.child folder name ∧ tree.TakesFile folder name there ∧
        later = tree.put (Path.child there name) bytes := by
  constructor
  · intro written
    obtain ⟨ends, noSlash⟩ := endsInName_of_writeDisk_eq_ok written
    obtain ⟨folder, name, isName, rfl⟩ := Path.exists_eq_child ends noSlash
    rw [writeDisk_child isName] at written
    simp only [Outcome.bind_eq_ok_iff] at written
    obtain ⟨⟨⟩, accepted, there, leads, ⟨⟩, isFolder, place, enters, written⟩ := written
    obtain ⟨-, short, rfl⟩ := (follow_singleton_eq_ok_iff isName).1 enters
    split at written
    case isTrue => contradiction
    case isFalse isFree =>
      exact ⟨folder, name, there, rfl,
        ⟨isName, accepted, leads, isFolder, short, Bool.eq_false_iff.2 isFree⟩,
        (Except.ok.inj written).symm⟩
  · rintro ⟨folder, name, there, rfl, takes, rfl⟩
    rw [writeDisk_child takes.isName]
    simp only [Outcome.bind_eq_ok_iff]
    refine ⟨(), takes.accepted, there, takes.leads, (), takes.isFolder, Path.child there name,
      (follow_singleton_eq_ok_iff takes.isName).2 ⟨takes.isFolder, takes.short, rfl⟩, ?_⟩
    rw [takes.isFree]
    rfl

/-! ## What a written file leaves as it is -/

theorem get?_files_put
    (tree : FileTree)
    (place other : Text)
    (bytes : Bytes) :
    (tree.put place bytes).files.get? other =
      if place = other then some bytes else tree.files.get? other :=
  SortedMap.get?_insert _ _ _ _

/-- A written file makes the folders above it. -/
theorem holdsFolder_put
    (tree : FileTree)
    (here place : Text)
    (bytes : Bytes) :
    (tree.put place bytes).holdsFolder here =
      (tree.holdsFolder here || (Path.below? here place).isSome) := by
  have isPlace : ∀ other, other ∈ (tree.put place bytes).places ↔
      other = place ∨ other ∈ tree.places := by
    intro other
    have isKept : (tree.put place bytes).folders = tree.folders := rfl
    simp only [places, List.mem_append, SortedMap.mem_keys_iff, SortedMap.contains,
      get?_files_put, isKept]
    by_cases here : place = other
    · simp [here]
    · simp [here, Ne.symm here]
  have below : ((tree.put place bytes).places.any fun other => (Path.below? here other).isSome) =
      ((tree.places.any fun other => (Path.below? here other).isSome) ||
        (Path.below? here place).isSome) := by
    rw [Bool.eq_iff_iff, Bool.or_eq_true, List.any_eq_true, List.any_eq_true]
    simp only [isPlace, or_and_right, exists_or, exists_eq_left]
    exact or_comm
  have isKept : (tree.put place bytes).folders = tree.folders := rfl
  rw [holdsFolder, below, isKept, holdsFolder]
  simp only [Bool.or_assoc]

theorem checkFolder_put
    {here place : Text}
    (isFree : tree.holdsFolder place = false)
    (isFolder : tree.checkFolder here = .ok ()) :
    (tree.put place bytes).checkFolder here = .ok () := by
  obtain ⟨unfiled, isFolder⟩ := checkFolder_eq_ok_iff.1 isFolder
  have different : place ≠ here := by
    rintro rfl
    rw [isFree] at isFolder
    contradiction
  refine checkFolder_eq_ok_iff.2 ⟨?_, ?_⟩
  · rw [SortedMap.contains, get?_files_put, if_neg different]
    exact unfiled
  · rw [holdsFolder_put, isFolder, Bool.true_or]

theorem follow_put
    {here place : Text}
    {parts : List Text}
    (isFree : tree.holdsFolder place = false)
    (follows : tree.follow here parts = .ok there) :
    (tree.put place bytes).follow here parts = .ok there := by
  induction parts generalizing here with
  | nil => exact follows
  | cons part rest inductionHypothesis =>
      obtain ⟨⟨⟩, isFolder, follows⟩ := Outcome.bind_eq_ok_iff.1 follows
      refine Outcome.bind_eq_ok_iff.2 ⟨(), checkFolder_put isFree isFolder, ?_⟩
      split at follows
      case isTrue => contradiction
      case isFalse short =>
        rw [if_neg short]
        exact inductionHypothesis follows

/-- A file that is written can be written again. -/
theorem TakesFile.put
    (takes : tree.TakesFile folder name there)
    (bytes : Bytes) :
    (tree.put (Path.child there name) bytes).TakesFile folder name there where
  isName := takes.isName
  accepted := takes.accepted
  leads := follow_put takes.isFree takes.leads
  isFolder := checkFolder_put takes.isFree takes.isFolder
  short := takes.short
  isFree := by
    rw [holdsFolder_put, takes.isFree, Bool.false_or, Path.below?, beq_self_eq_true]
    rfl

/-! ## Changes -/

theorem run_bind
    {Result Next : Type}
    (change : ExceptT FileFault (StateM FileTree) Result)
    (next : Result → ExceptT FileFault (StateM FileTree) Next)
    (tree : FileTree) :
    (change >>= next).run.run tree =
      match change.run.run tree with
      | (.ok result, later) => (next result).run.run later
      | (.error fault, later) => (.error fault, later) := by
  change StateT.run (ExceptT.run change >>= ExceptT.bindCont next) tree = _
  rw [StateT.run_bind]
  cases StateT.run (ExceptT.run change) tree with
  | mk outcome later => cases outcome <;> rfl

theorem run_bind_of_ok
    {Result Next : Type}
    {change : ExceptT FileFault (StateM FileTree) Result}
    {next : Result → ExceptT FileFault (StateM FileTree) Next}
    {tree later : FileTree}
    {result : Result}
    (runs : change.run.run tree = (.ok result, later)) :
    (change >>= next).run.run tree = (next result).run.run later := by
  rw [run_bind, runs]

theorem run_changeDisk
    (change : FileTree → Except SystemFault FileTree)
    (tree : FileTree) :
    (changeDisk change).run.run tree =
      match change tree with
      | .ok later => (.ok (), later)
      | .error fault => (.error (.system fault), tree) := by
  unfold changeDisk
  rw [run_bind]
  change (match change tree with
    | .ok later => (set later : Change)
    | .error fault => throw (FileFault.system fault)).run.run tree = _
  cases change tree <;> rfl

theorem run_tryCatch
    (change : Change)
    (rescue : FileFault → Change)
    (tree : FileTree) :
    (tryCatch change rescue).run.run tree =
      match change.run.run tree with
      | (.ok (), later) => (.ok (), later)
      | (.error fault, later) => (rescue fault).run.run later := by
  rw [ExceptT.run_tryCatch, StateT.run_bind]
  cases StateT.run (ExceptT.run change) tree with
  | mk outcome later => cases outcome <;> rfl

/-- Two trees hold the same files, in the same medium. -/
structure SameFiles (tree other : FileTree) : Prop where
  medium : other.medium = tree.medium
  files : other.files = tree.files
  locked : other.locked = tree.locked

theorem SameFiles.refl (tree : FileTree) :
    SameFiles tree tree :=
  ⟨rfl, rfl, rfl⟩

theorem SameFiles.trans
    {first second third : FileTree}
    (front : SameFiles first second)
    (back : SameFiles second third) :
    SameFiles first third :=
  ⟨back.medium.trans front.medium, back.files.trans front.files, back.locked.trans front.locked⟩

theorem sameFiles_bind
    {change : Change}
    {next : Change}
    (tree : FileTree)
    (front : SameFiles tree (change.run.run tree).2)
    (back : ∀ later, SameFiles later (next.run.run later).2) :
    SameFiles tree ((change >>= fun _ => next).run.run tree).2 := by
  rw [run_bind]
  cases ran : change.run.run tree with
  | mk outcome later =>
      rw [ran] at front
      cases outcome with
      | error fault => exact front
      | ok result => exact front.trans (back later)

theorem sameFiles_makeFolder
    (tree : FileTree)
    (origin : Text)
    (parts : List Text) :
    SameFiles tree ((changeDisk fun tree => tree.makeFolder origin parts).run.run tree).2 := by
  rw [run_changeDisk]
  cases made : tree.makeFolder origin parts with
  | error fault => exact .refl tree
  | ok later =>
      obtain ⟨place, -, made⟩ := Outcome.bind_eq_ok_iff.1 made
      split at made
      · obtain rfl := Except.ok.inj made
        exact .refl tree
      · split at made
        · contradiction
        · obtain rfl := Except.ok.inj made
          exact ⟨rfl, rfl, rfl⟩

/-- Making folders changes no file, whether it fails or not. -/
theorem sameFiles_makeFolders
    (tree : FileTree)
    (origin : Text)
    (parts : List Text) :
    SameFiles tree ((makeFolders origin parts).run.run tree).2 := by
  induction parts generalizing tree with
  | nil => exact .refl tree
  | cons part above inductionHypothesis =>
      unfold makeFolders
      dsimp only
      rw [run_tryCatch]
      have made := sameFiles_makeFolder tree origin (part :: above).reverse
      split
      case h_1 ran => rwa [ran] at made
      case h_2 fault later ran =>
        rw [ran] at made
        refine made.trans ?_
        split
        · exact sameFiles_bind later (inductionHypothesis later)
            fun again => sameFiles_makeFolder again origin _
        · exact .refl later

theorem sameFiles_makeParent
    (tree : FileTree)
    (path : Text) :
    SameFiles tree ((makeParent path).run.run tree).2 := by
  unfold makeParent
  dsimp only
  rw [run_bind]
  change SameFiles tree ((if _ then _ else _ : Change).run.run tree).2
  split
  · exact .refl tree
  · refine sameFiles_bind tree ?_ fun later => sameFiles_makeFolders later _ _
    rw [run_changeDisk]
    cases checkPath (Path.folderOf path) <;> exact .refl tree

theorem HasFolderOf.run_makeParent
    (hasFolder : tree.HasFolderOf path) :
    (makeParent path).run.run tree = (.ok (), tree) := by
  unfold makeParent
  dsimp only
  rw [run_bind]
  change ((if _ then _ else _ : Change).run.run tree) = _
  rw [if_pos (by simpa [HasFolderOf, or_assoc] using hasFolder)]
  rfl

theorem run_write_memory
    (inMemory : tree.medium = .memory)
    (path : Text)
    (bytes : Bytes) :
    (write path bytes).run.run tree = (.ok (), tree.put (Path.place path) bytes) := by
  cases tree
  cases inMemory
  rfl

theorem run_write_disk
    (onDisk : tree.medium = .disk)
    (path : Text)
    (bytes : Bytes) :
    (write path bytes).run.run tree =
      match tree.writeDisk path bytes with
      | .ok later => (.ok (), later)
      | .error fault => (.error (.system fault), tree) := by
  rw [← run_changeDisk fun tree => tree.writeDisk path bytes]
  cases tree
  cases onDisk
  rfl

end FileTree
end LessTheme
