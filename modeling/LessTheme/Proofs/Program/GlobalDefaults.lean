import LessTheme.Proofs.Declaration.Block
import LessTheme.Proofs.Program.Assembly
import LessTheme.Proofs.Text.Utf8

/-!
# The layer of global defaults

The layer holds the declarations of the global unit whose names the base layer
does not declare.  Its lines are read with the byte-order mark, so a
declaration on the first line behind a mark does not get into the layer.
-/

namespace LessTheme

/-- Whether a text declares no variable of the name of a declaration. -/
def isUndeclaredIn (text : Text) (declaration : Declaration) : Bool :=
  !((declarations text).map Declaration.name).contains declaration.name

/-! ## Lines behind a byte-order mark -/

/-- A line declares nothing if a byte-order mark stands in front of it. -/
theorem declarationsOf_lines_mark (rest : Text) :
    declarationsOf (Text.lines ('\ufeff' :: rest)) = declarationsOf rest.lines.tail := by
  have dark : isWhiteSpace '\ufeff' = false := by decide
  have notReturn : '\ufeff' = '\r' → rest.head? ≠ some '\n' := fun isReturn =>
    absurd isReturn (by decide)
  have noDeclaration : declaration? ('\ufeff' :: rest.lines.headD []) = none :=
    declaration?_of_ne_sign dark (by decide) _
  rw [Text.lines_cons (by decide) notReturn, declarationsOf,
    List.filterMap_cons_none noDeclaration]
  rfl

/-- The declarations of the first line are those that come before the others. -/
theorem declarationsOf_eq_head?_append (lines : List Text) :
    declarationsOf lines = (lines.head?.bind declaration?).toList ++ declarationsOf lines.tail := by
  cases lines with
  | nil => rfl
  | cons line rest =>
      change (line :: rest).filterMap declaration? = (declaration? line).toList ++ _
      cases declared : declaration? line with
      | none => exact List.filterMap_cons_none declared
      | some declaration => exact List.filterMap_cons_some declared

/--
The lines of a text declare what the text declares, unless a byte-order mark
stands in front of a declaration that matters.
-/
theorem filter_declarationsOf_lines_eq_iff
    {matters : Declaration → Bool}
    {source : Text} :
    (declarationsOf source.lines).filter matters = (declarations source).filter matters ↔
      (source.head? = some '\ufeff' →
        ∀ line ∈ source.withoutByteOrderMark.lines.head?,
          ∀ declaration ∈ declaration? line, matters declaration = false) := by
  by_cases mark : source.head? = some '\ufeff'
  · obtain ⟨rest, rfl⟩ := List.head?_eq_some_iff.1 mark
    have first : declarations ('\ufeff' :: rest) =
        ((Text.lines rest).head?.bind declaration?).toList ++
          declarationsOf (Text.lines rest).tail :=
      declarationsOf_eq_head?_append (Text.lines rest)
    rw [declarationsOf_lines_mark, first, List.filter_append, List.self_eq_append_left,
      List.filter_eq_nil_iff]
    simp only [Option.mem_toList, Option.mem_def, Option.bind_eq_some_iff, forall_exists_index,
      and_imp, Bool.not_eq_true, List.head?_cons, forall_const, Text.withoutByteOrderMark]
    exact forall_comm.trans (forall_congr' fun line => forall_comm)
  · rw [declarations, Text.withoutByteOrderMark_eq_self mark]
    exact iff_of_true rfl fun isMark => absurd isMark mark

/-! ## The layer -/

namespace Theme

variable {theme : Theme} {files : FileTree} {unit : Text}

/--
Every program has a layer of global defaults, which declares what the lines of
the global unit declare beyond the base layer, in order and with repetitions.
These are the declarations of the global unit beyond the base layer exactly if
no byte-order mark stands in front of one of them.
-/
theorem declarations_globalDefaults_eq_iff
    {overrides : Overrides}
    {program : Program}
    {base globals : Text}
    (assembles : theme.assemble files unit overrides = .ok program)
    (baseRead : theme.base files = .ok base)
    (globalsRead : theme.globals files = .ok globals) :
    ∃ layer, program.layer? .globalDefaults = some layer ∧
      declarations layer = (declarationsOf globals.lines).filter (isUndeclaredIn base) ∧
      (declarations layer = (declarations globals).filter (isUndeclaredIn base) ↔
        (globals.head? = some '\ufeff' →
          ∀ line ∈ globals.withoutByteOrderMark.lines.head?,
            ∀ declaration ∈ declaration? line, isUndeclaredIn base declaration = false)) := by
  obtain ⟨reading, rfl⟩ := assemble_eq_ok_iff.1 assembles
  obtain rfl := Except.ok.inj (baseRead.symm.trans reading.baseRead)
  obtain rfl := Except.ok.inj (globalsRead.symm.trans reading.globalsRead)
  have declared : declarations (List.intercalate ['\n'] (newDeclarationLines
        ((declarations reading.base).map Declaration.name) reading.globals)) =
      (declarationsOf reading.globals.lines).filter (isUndeclaredIn reading.base) := by
    rw [declarations_intercalate fun line => isDeclarationLine_of_mem_newDeclarationLines,
      declarationsOf_newDeclarationLines]
    rfl
  refine ⟨_, rfl, declared, ?_⟩
  rw [declared]
  exact filter_declarationsOf_lines_eq_iff

end Theme

/-! ## Themes with a byte-order mark -/

namespace Sample

/-- The files of a theme whose global unit is the given text. -/
def globalFiles (globals : Text) : FileTree :=
  { FileTree.empty .memory with
    files := .ofList [
      ("t/base/variables.less", Utf8.encode "@size: 1px;\n"),
      ("t/components/global.less", Utf8.encode globals),
      ("t/components/button.less", Utf8.encode "@button: @size;\n")] }

theorem globals_globalFiles (globals : Text) :
    theme.globals (globalFiles globals) = .ok globals := by
  have fileRead : (globalFiles globals).readText "t/components/global.less" =
      (Utf8.decode (Utf8.encode globals)).mapError
        (.notText "t/components/global.less") := rfl
  have layerRead : theme.globals (globalFiles globals) =
      ((((globalFiles globals).readText "t/components/global.less").map some).mapError
        ThemeError.ofFile).map fun text => text.getD [] := rfl
  rw [layerRead, fileRead, Utf8.decode_encode]
  rfl

end Sample

namespace Theme

/-- Behind a byte-order mark, the name of the base layer is left out in either reading. -/
theorem declarations_globalDefaults_eq_iff_base_name :
    ∃ program layer,
      Sample.theme.assemble (Sample.globalFiles "\ufeff@size: 2px;\n@gap: 3px;\n@gap: 4px;")
        "button" .empty = .ok program ∧
      program.layer? .globalDefaults = some layer ∧
      declarations layer = [⟨"gap", "3px"⟩, ⟨"gap", "4px"⟩] ∧
      declarations layer =
        (declarations "\ufeff@size: 2px;\n@gap: 3px;\n@gap: 4px;").filter
          (isUndeclaredIn "@size: 1px;\n") := by
  have assembles : ∃ program,
      Sample.theme.assemble (Sample.globalFiles "\ufeff@size: 2px;\n@gap: 3px;\n@gap: 4px;")
        "button" .empty = .ok program := ⟨_, rfl⟩
  obtain ⟨program, assembles⟩ := assembles
  have baseRead : Sample.theme.base
      (Sample.globalFiles "\ufeff@size: 2px;\n@gap: 3px;\n@gap: 4px;") =
        .ok "@size: 1px;\n" := rfl
  obtain ⟨layer, isLayer, declared, same⟩ :=
    declarations_globalDefaults_eq_iff assembles baseRead (Sample.globals_globalFiles _)
  exact ⟨program, layer, assembles, isLayer, declared.trans (by decide +kernel),
    same.2 (by decide +kernel)⟩

/-- A declaration behind a byte-order mark is in the global unit and not in the layer. -/
theorem declarations_globalDefaults_ne_behind_mark :
    ∃ program,
      Sample.theme.assemble (Sample.globalFiles "\ufeff@gap: 3px;\n") "button" .empty =
        .ok program ∧
      program.layer? .globalDefaults = some [] ∧
      (declarations "\ufeff@gap: 3px;\n").filter (isUndeclaredIn "@size: 1px;\n") =
        [⟨"gap", "3px"⟩] :=
  ⟨_, rfl, rfl, by decide⟩

end Theme
end LessTheme
