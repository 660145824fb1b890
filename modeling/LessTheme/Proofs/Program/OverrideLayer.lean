import LessTheme.Declaration
import LessTheme.Program.Layer
import LessTheme.Proofs.Declaration.Last
import LessTheme.Proofs.Declaration.Line
import LessTheme.Proofs.Program.Assembly
import LessTheme.Proofs.Text.Lines
import LessTheme.Proofs.Text.Pieces

/-!
# The layer of overrides

The overrides are written as the last layer of a program, one declaration on
each line.  Read back from the whole source they are the last declarations of
their variables, and nothing else is declared by them.
-/

namespace LessTheme

/-- Whether a name may begin the way a declared name does. -/
def isDeclarable (name : Text) : Bool := name.head?.any isNameStart

/-!
## The source of a program

A blank line stands between two layers of a program, so the declarations of a
further layer are read behind those of the layers before it.
-/

theorem declarationsOf_append
    (front back : List Text) :
    declarationsOf (front ++ back) = declarationsOf front ++ declarationsOf back :=
  List.filterMap_append

namespace Program

/-- The texts that the source of a program is made of. -/
def written
    (layers : List (Layer × Text)) : List Text :=
  (layers.map fun layer => trimLineFeeds layer.2).filter fun text => !text.isBlank

theorem source_eq
    (program : Program) :
    program.source =
      if (written program.layers).isEmpty then []
      else List.intercalate "\n\n" (written program.layers) ++ ['\n'] := rfl

theorem written_append_singleton
    (front : List (Layer × Text))
    (layer : Layer)
    (text : Text) :
    written (front ++ [(layer, text)]) =
      written front ++ if (trimLineFeeds text).isBlank then [] else [trimLineFeeds text] := by
  rw [written, List.map_append, List.filter_append]
  cases blank : (trimLineFeeds text).isBlank <;> simp [written, blank]

section Append

variable {unit : Text} {front : List (Layer × Text)} {layer : Layer} {text : Text}

/-- A layer that is blank does not change the source. -/
theorem source_append_of_isBlank
    (blank : (trimLineFeeds text).isBlank = true) :
    source ⟨unit, front ++ [(layer, text)]⟩ = source ⟨unit, front⟩ := by
  rw [source_eq, written_append_singleton, if_pos blank, List.append_nil, source_eq]

/-- The declarations of the last layer are read last. -/
theorem declarations_source_append
    (shown : (trimLineFeeds text).isBlank = false)
    (noMark : (trimLineFeeds text).withoutByteOrderMark = trimLineFeeds text) :
    declarations (source ⟨unit, front ++ [(layer, text)]⟩) =
      declarations (source ⟨unit, front⟩) ++
        declarationsOf (Text.lines (trimLineFeeds text ++ ['\n'])) := by
  rw [source_eq, source_eq, written_append_singleton, shown]
  cases before : written front with
  | nil =>
      simp only [List.nil_append, Bool.false_eq_true, if_false, List.isEmpty_cons,
        List.intercalate_singleton, List.isEmpty_nil, if_true]
      rw [declarations, Text.withoutByteOrderMark_append_lineFeed, noMark]
      rfl
  | cons first others =>
      simp only [Bool.false_eq_true, if_false, List.cons_append, List.isEmpty_cons]
      rw [← List.cons_append, Text.intercalate_concat (List.cons_ne_nil _ _)]
      -- The first of the two line feeds ends the front, the second is an empty line.
      change declarations (List.intercalate "\n\n" (first :: others) ++
        '\n' :: ('\n' :: trimLineFeeds text) ++ ['\n']) = _
      rw [List.append_assoc, List.cons_append, declarations,
        Text.withoutByteOrderMark_append_lineFeed, Text.lines_append_lineFeed,
        declarationsOf_append, List.cons_append, Text.lines_lineFeed_cons, declarations,
        Text.withoutByteOrderMark_append_lineFeed]
      rfl

end Append
end Program

namespace Overrides

/-! ## Kept overrides -/

theorem kept?_eq_some_iff
    {name value : Text}
    {kept : Text × Text} :
    kept? name value = some kept ↔
      (cleanName name, value.trim) = kept ∧ cleanName name ≠ [] ∧ value.trim ≠ [] ∧
        breaksStatement value.trim = false := by
  unfold kept?
  split
  case isTrue dropped =>
    simp only [Bool.or_eq_true, List.isEmpty_iff] at dropped
    constructor
    · intro absurd
      contradiction
    · rintro ⟨-, named, valued, unbroken⟩
      rw [unbroken] at dropped
      simp [named, valued] at dropped
  case isFalse notDropped =>
    simp only [Bool.or_eq_true, List.isEmpty_iff, not_or, Bool.not_eq_true] at notDropped
    simp [notDropped]

/-- What an override that is written looks like. -/
structure IsKept (entry : Text × Text) : Prop where
  clean : ∀ char ∈ entry.1, isNameChar char = true
  trimmed : entry.2.trim = entry.2
  unbroken : breaksStatement entry.2 = false

/-- An override that is written on one line. -/
structure IsWritable (entry : Text × Text) : Prop extends IsKept entry where
  oneLine : '\n' ∉ entry.2

theorem IsKept.not_mem
    {entry : Text × Text}
    (kept : IsKept entry)
    {mark : Char}
    (isMark : isStatementMark mark = true) :
    mark ∉ entry.2 := by
  intro inside
  have breaks : breaksStatement entry.2 = true := List.any_eq_true.2 ⟨mark, inside, isMark⟩
  rw [kept.unbroken] at breaks
  contradiction

theorem isKept_of_mem_assigned
    {overrides : Overrides}
    {entry : Text × Text}
    (member : entry ∈ overrides.assigned) :
    IsKept entry := by
  obtain ⟨source, -, kept⟩ := List.mem_filterMap.1 member
  obtain ⟨rfl, -, -, unbroken⟩ := kept?_eq_some_iff.1 kept
  exact ⟨fun char inside => (List.mem_filter.1 inside).2, Text.trim_trim _, unbroken⟩

theorem isWritable_of_mem_assigned
    {overrides : Overrides}
    (oneLine : ∀ entry ∈ overrides.entries, '\n' ∉ entry.2)
    {entry : Text × Text}
    (member : entry ∈ overrides.assigned) :
    IsWritable entry := by
  refine ⟨isKept_of_mem_assigned member, ?_⟩
  obtain ⟨source, isSource, kept⟩ := List.mem_filterMap.1 member
  obtain ⟨rfl, -⟩ := kept?_eq_some_iff.1 kept
  exact fun inside => oneLine source isSource (Text.trim_subset _ inside)

/-! ## The written lines -/

theorem lineFeed_not_mem_declarationLine
    {entry : Text × Text}
    (writable : IsWritable entry) :
    '\n' ∉ declarationLine entry.1 entry.2 := by
  have cleanFeed : '\n' ∉ entry.1 := not_mem_of_forall_isNameChar writable.clean rfl
  simp [declarationLine, cleanFeed, writable.oneLine]

theorem getLast?_declarationLine
    (name value : Text) :
    (declarationLine name value).getLast? = some ';' := by
  have split : declarationLine name value = ('@' :: (name ++ ": " ++ value)) ++ [';'] := rfl
  rw [split, List.getLast?_append]
  rfl

theorem declarationsOf_map_declarationLine
    {entries : List (Text × Text)}
    (writable : ∀ entry ∈ entries, IsWritable entry) :
    (declarationsOf (entries.map fun entry => declarationLine entry.1 entry.2)).map
        Declaration.entry =
      entries.filter fun entry => isDeclarable entry.1 := by
  induction entries with
  | nil => rfl
  | cons entry rest inductionHypothesis =>
      have here := writable entry List.mem_cons_self
      have readBack := declaration?_declarationLine here.clean here.trimmed (here.not_mem rfl)
      have others := inductionHypothesis fun found member =>
        writable found (List.mem_cons_of_mem _ member)
      unfold declarationsOf at others ⊢
      rw [List.map_cons, List.filterMap_cons, readBack, List.filter_cons, ← others]
      cases declarable : isDeclarable entry.1 with
      | true =>
          rw [if_pos (show entry.1.head?.any isNameStart = true from declarable), if_pos rfl]
          rfl
      | false =>
          rw [if_neg, if_neg Bool.false_ne_true]
          simpa [isDeclarable] using declarable

/-! ## The layer -/

section Layer

variable {overrides : Overrides}

theorem isKept_of_mem_written
    {entry : Text × Text}
    (member : entry ∈ (SortedMap.ofList overrides.assigned).entries) :
    IsKept entry :=
  isKept_of_mem_assigned (SortedMap.mem_of_mem_entries_ofList member)

theorem isWritable_of_mem_written
    (oneLine : ∀ entry ∈ overrides.entries, '\n' ∉ entry.2)
    {entry : Text × Text}
    (member : entry ∈ (SortedMap.ofList overrides.assigned).entries) :
    IsWritable entry :=
  isWritable_of_mem_assigned oneLine (SortedMap.mem_of_mem_entries_ofList member)

theorem layer_eq_nil
    (unwritten : (SortedMap.ofList overrides.assigned).entries = []) :
    overrides.layer = [] := by
  rw [layer_eq_intercalate, unwritten]
  rfl

/-- A layer that is not empty begins with an at sign and ends with a semicolon. -/
theorem head?_layer_and_getLast?_layer
    (written : (SortedMap.ofList overrides.assigned).entries ≠ []) :
    overrides.layer.head? = some '@' ∧ overrides.layer.getLast? = some ';' := by
  rw [layer_eq_intercalate]
  constructor
  · cases entriesEq : (SortedMap.ofList overrides.assigned).entries with
    | nil => contradiction
    | cons entry rest =>
        have nonempty : declarationLine entry.1 entry.2 ≠ [] := List.cons_ne_nil _ _
        rw [List.map_cons, Text.head?_intercalate nonempty]
        rfl
  · apply Text.getLast?_intercalate
    · simpa using written
    · intro line isLine
      obtain ⟨entry, -, rfl⟩ := List.mem_map.1 isLine
      exact getLast?_declarationLine _ _

theorem trimLineFeeds_layer :
    Program.trimLineFeeds overrides.layer = overrides.layer := by
  by_cases written : (SortedMap.ofList overrides.assigned).entries = []
  · rw [layer_eq_nil written]
    rfl
  · obtain ⟨first, last⟩ := head?_layer_and_getLast?_layer written
    apply Text.dropAround_eq_self
    · intro char isFirst
      obtain rfl := Option.some.inj (first.symm.trans isFirst)
      rfl
    · intro char isLast
      obtain rfl := Option.some.inj (last.symm.trans isLast)
      rfl

/-- The layer declares the kept overrides whose names may be declared. -/
theorem lastDeclaredIn?_lines_layer
    (oneLine : ∀ entry ∈ overrides.entries, '\n' ∉ entry.2)
    (written : (SortedMap.ofList overrides.assigned).entries ≠ [])
    (name : Text) :
    lastDeclaredIn? (declarationsOf (Text.lines (overrides.layer ++ ['\n']))) name =
      if isDeclarable name then lastValue? overrides.assigned name else none := by
  have writable : ∀ entry ∈ (SortedMap.ofList overrides.assigned).entries, IsWritable entry :=
    fun _ => isWritable_of_mem_written oneLine
  have linesEq : Text.lines (overrides.layer ++ ['\n']) =
      (SortedMap.ofList overrides.assigned).entries.map fun entry =>
        declarationLine entry.1 entry.2 := by
    rw [layer_eq_intercalate]
    apply Text.lines_intercalate_append_lineFeed
    · simpa using written
    · intro line isLine
      obtain ⟨entry, isEntry, rfl⟩ := List.mem_map.1 isLine
      exact lineFeed_not_mem_declarationLine (writable entry isEntry)
    · intro line isLine
      obtain ⟨entry, -, rfl⟩ := List.mem_map.1 isLine
      rw [getLast?_declarationLine]
      simp
  rw [linesEq, lastDeclaredIn?, declarationsOf_map_declarationLine writable,
    lastValue?_filter isDeclarable, SortedMap.lastValue?_entries, SortedMap.get?_ofList]

end Layer
end Overrides

namespace Theme

/-! ## The whole program -/

theorem Reading.lastDeclared?_program
    {theme : Theme}
    {files : FileTree}
    {unit : Text}
    (reading : theme.Reading files unit)
    {overrides : Overrides}
    (oneLine : ∀ entry ∈ overrides.entries, '\n' ∉ entry.2)
    (name : Text) :
    lastDeclared? (reading.program overrides).source name =
      ((if isDeclarable name then lastValue? overrides.assigned name else none).or
        (lastDeclared? (reading.program .empty).source name)) := by
  have plain : (reading.program .empty).source = Program.source ⟨unit, reading.layers⟩ :=
    Program.source_append_of_isBlank rfl
  by_cases written : (SortedMap.ofList overrides.assigned).entries = []
  · have unassigned : lastValue? overrides.assigned name = none := by
      rw [← SortedMap.get?_ofList, SortedMap.get?, written]
      rfl
    have same : (reading.program overrides).source = Program.source ⟨unit, reading.layers⟩ := by
      apply Program.source_append_of_isBlank
      rw [Overrides.layer_eq_nil written]
      rfl
    rw [plain, same, unassigned, ite_self, Option.none_or]
  · obtain ⟨first, -⟩ := Overrides.head?_layer_and_getLast?_layer written
    obtain ⟨rest, split⟩ := List.head?_eq_some_iff.1 first
    have shown : (Program.trimLineFeeds overrides.layer).isBlank = false := by
      rw [Overrides.trimLineFeeds_layer, split]
      rfl
    have noMark : (Program.trimLineFeeds overrides.layer).withoutByteOrderMark =
        Program.trimLineFeeds overrides.layer := by
      rw [Overrides.trimLineFeeds_layer, split]
      rfl
    have seam : declarations (reading.program overrides).source =
        declarations (Program.source ⟨unit, reading.layers⟩) ++
          declarationsOf (Text.lines (Program.trimLineFeeds overrides.layer ++ ['\n'])) :=
      Program.declarations_source_append shown noMark
    rw [plain, lastDeclared?, lastDeclared?, seam, lastDeclaredIn?_append,
      Overrides.trimLineFeeds_layer, Overrides.lastDeclaredIn?_lines_layer oneLine written]

/--
An override that is kept is the last declaration of its variable in the program
of any unit, and every other variable has the last declaration that it has
without overrides.
-/
theorem lastDeclared?_assemble
    {theme : Theme}
    {files : FileTree}
    {unit : Text}
    {overrides : Overrides}
    {program : Program}
    (assembles : theme.assemble files unit overrides = .ok program)
    (oneLine : ∀ entry ∈ overrides.entries, '\n' ∉ entry.2) :
    ∃ plain, theme.assemble files unit .empty = .ok plain ∧
      (∀ name value, lastValue? overrides.assigned name = some value →
        isDeclarable name = true → lastDeclared? program.source name = some value) ∧
      (∀ name, lastValue? overrides.assigned name = none ∨ isDeclarable name = false →
        lastDeclared? program.source name = lastDeclared? plain.source name) := by
  obtain ⟨reading, rfl⟩ := assemble_eq_ok_iff.1 assembles
  refine ⟨reading.program .empty, assemble_eq_ok_iff.2 ⟨reading, rfl⟩, ?_, ?_⟩
  · intro name value kept declarable
    rw [reading.lastDeclared?_program oneLine, if_pos declarable, kept]
    rfl
  · intro name other
    rw [reading.lastDeclared?_program oneLine]
    obtain unassigned | undeclarable := other
    · rw [unassigned, ite_self, Option.none_or]
    · rw [undeclarable]
      rfl

/-- Of two names that are cleaned to one the later wins, and a value that breaks out is left out. -/
theorem lastDeclared?_assemble_sample :
    ∃ program plain,
      Sample.theme.assemble Sample.files "button"
          (.ofList [("card", "red;"), ("text", " 1px"), ("text!", "2px ")]) = .ok program ∧
      Sample.theme.assemble Sample.files "button" .empty = .ok plain ∧
      lastDeclared? program.source "text" = some "2px" ∧
      lastDeclared? program.source "card" = lastDeclared? plain.source "card" := by
  have assembles : ∃ program, Sample.theme.assemble Sample.files "button"
      (.ofList [("card", "red;"), ("text", " 1px"), ("text!", "2px ")]) = .ok program := ⟨_, rfl⟩
  obtain ⟨program, assembles⟩ := assembles
  obtain ⟨plain, plainAssembles, wins, keeps⟩ := lastDeclared?_assemble assembles (by decide)
  refine ⟨program, plain, assembles, plainAssembles, ?_, ?_⟩
  · exact wins "text" "2px" (by decide) (by decide)
  · exact keeps "card" (Or.inl (by decide))

end Theme
end LessTheme
