import LessTheme.Proofs.Program.OverrideLayer
import LessTheme.Proofs.Source.Closed
import LessTheme.Proofs.Source.Segment

/-!
# Where overrides end

An override is written with a semicolon behind its value.  The semicolon ends
the declaration only if it is read as code.  The values hold no semicolon, so
no override ends early; but a value may leave a string or a comment open, and
then the semicolon behind it, and with a block comment those behind the
following values too, are no code.
-/

namespace LessTheme
namespace Source

/-- What the code segments of a text hold. -/
def codeText (text : Text) : Text :=
  ((segments text).filter (·.kind == .code)).flatMap Segment.text

theorem count_codeText
    (text : Text)
    (mark : Char) :
    (codeText text).count mark = (cells text).countP (·.isCode mark) := by
  rw [codeText, segments, flatMap_text_filter_segmentsOfCells, List.count, chars, List.countP_map,
    List.countP_filter]
  refine List.countP_congr fun cell _ => ?_
  simp [Cell.isCode, and_comm]

theorem countP_isCode_eq_zero
    {cells : List Cell}
    {mark : Char}
    (noMark : mark ∉ chars cells) :
    cells.countP (·.isCode mark) = 0 := by
  rw [List.countP_eq_zero]
  intro cell member isCode
  exact noMark (Cell.char_of_isCode isCode ▸ List.mem_map_of_mem member)

namespace Mode

/-! ## Lines of overrides -/

/-- Where a line of overrides begins, at most parentheses or a block comment are open. -/
inductive IsLineStart : Mode → Prop
  | code (depth : Nat) : IsLineStart (.code depth false)
  | comment (depth : Nat) : IsLineStart (.comment depth false)

/-- The end of an override closes everything but parentheses and a block comment. -/
theorem isLineStart_after_terminator
    (mode : Mode)
    (next : Option Char) :
    IsLineStart (mode.after ";\n" next) := by
  change IsLineStart (mode.after [';', '\n'] next)
  cases mode with
  | code depth afterColon => simpa [after, read, parenthesisDepth] using IsLineStart.code depth
  | string quote depth =>
      by_cases isQuote : ';' = quote
      · subst isQuote
        simpa [after, read, parenthesisDepth] using IsLineStart.code depth
      · simpa [after, read, isQuote] using IsLineStart.code depth
  | escape quote depth => simpa [after, read] using IsLineStart.code depth
  | commentOpening depth => simpa [after, read] using IsLineStart.comment depth
  | comment depth afterStar => simpa [after, read] using IsLineStart.comment depth
  | lineComment => simpa [after, read] using IsLineStart.code 0

theorem after_comment_of_not_mem
    {text : Text}
    (noStar : '*' ∉ text)
    (depth : Nat)
    (next : Option Char) :
    (comment depth false).after text next = comment depth false := by
  induction text with
  | nil => rfl
  | cons char rest inductionHypothesis =>
      obtain ⟨here, others⟩ := not_or.1 (mt List.mem_cons.2 noStar)
      have step : ((comment depth false).read char (rest.head?.or next)).2 =
          comment depth false := by
        simp [read, Ne.symm here]
      rw [after, step, inductionHypothesis others]

/-- The name of a variable leaves open what is open at the start of the line. -/
theorem IsLineStart.after_opening
    {mode : Mode}
    (isLineStart : IsLineStart mode)
    {name : Text}
    (clean : ∀ char ∈ name, isNameChar char = true)
    (next : Option Char) :
    mode.after ('@' :: (name ++ ": ")) next = mode := by
  cases isLineStart with
  | code depth =>
      have inert : IsInert ('@' :: name) :=
        List.forall_mem_cons.2 ⟨by decide, isInert_of_forall_isNameChar clean⟩
      change (Mode.code depth false).after (('@' :: name) ++ [':', ' ']) next = _
      rw [after_append, (inert.read depth false _).2.2]
      rfl
  | comment depth =>
      refine after_comment_of_not_mem ?_ depth next
      have noStar : '*' ∉ name := not_mem_of_forall_isNameChar clean rfl
      change '*' ∉ '@' :: (name ++ [':', ' '])
      simp [noStar]

/--
The modes in which some values end that are written one after the other, each
with a semicolon and a line end behind it.
-/
def behindValues : Mode → List Text → List Mode
  | _, [] => []
  | mode, value :: rest =>
      mode.after value none :: behindValues ((mode.after value none).after ";\n" none) rest

@[simp] theorem length_behindValues
    (mode : Mode)
    (values : List Text) :
    (mode.behindValues values).length = values.length := by
  induction values generalizing mode with
  | nil => rfl
  | cons value rest inductionHypothesis =>
      exact congrArg Nat.succ (inductionHypothesis _)

/-! ## Counting the ends -/

/-- Of a line and what follows, the semicolon behind the value is code if the value ends in code. -/
theorem IsLineStart.countP_cells_declarationLine
    {mode : Mode}
    (isLineStart : IsLineStart mode)
    {entry : Text × Text}
    (kept : Overrides.IsKept entry)
    (rest : Text) :
    (mode.cells (Overrides.declarationLine entry.1 entry.2 ++ rest)).countP (·.isCode ';') =
      (mode.after entry.2 none).isCode.toNat +
        (((mode.after entry.2 none).read ';' rest.head?).2.cells rest).countP (·.isCode ';') := by
  have isLine : Overrides.declarationLine entry.1 entry.2 ++ rest =
      ('@' :: (entry.1 ++ ": ")) ++ (entry.2 ++ ';' :: rest) := by
    simp [Overrides.declarationLine]
  have noneInName : ';' ∉ '@' :: (entry.1 ++ ": ") := by
    have noneInside : ';' ∉ entry.1 := not_mem_of_forall_isNameChar kept.clean rfl
    change ';' ∉ '@' :: (entry.1 ++ [':', ' '])
    simp [noneInside]
  have noneInValue : ';' ∉ entry.2 := kept.not_mem rfl
  have sameMode := (mode.reads_of_joins
    (joins_of_ne (show ';' ≠ '/' by decide) (by decide) entry.2)).2.1
  have terminator := (mode.after entry.2 none).isCode_read_of_not_mem_specialChars
    (show ';' ∉ specialChars by decide) (by decide) rest.head?
  rw [isLine, cells_append, isLineStart.after_opening kept.clean, cells_append, List.head?_cons,
    sameMode, cells, List.countP_append, List.countP_append, List.countP_cons, terminator,
    countP_isCode_eq_zero (by rwa [chars_cellsBefore]),
    countP_isCode_eq_zero (by rwa [chars_cellsBefore])]
  cases (mode.after entry.2 none).isCode <;> simp [Nat.add_comm]

theorem countP_cells_behind_terminator
    (mode : Mode)
    (rest : Text) :
    ((mode.read ';' (some '\n')).2.cells ('\n' :: rest)).countP (·.isCode ';') =
      ((mode.after ";\n" none).cells rest).countP (·.isCode ';') := by
  have joins : Joins ";\n" rest.head? := joins_of_getLast?_ne (by decide) rest.head?
  have isNoTerminator (next : Option Char) :
      ((mode.read ';' (some '\n')).2.read '\n' next).1.isCode ';' = false := by
    simp [Cell.isCode]
  rw [← (mode.reads_of_joins joins).2.1, cells, List.countP_cons, isNoTerminator]
  rfl

/-- Of several lines, as many semicolons are code as values end in code. -/
theorem IsLineStart.countP_cells_lines
    {mode : Mode}
    (isLineStart : IsLineStart mode)
    {entries : List (Text × Text)}
    (kept : ∀ entry ∈ entries, Overrides.IsKept entry) :
    (mode.cells (List.intercalate ['\n']
        (entries.map fun entry => Overrides.declarationLine entry.1 entry.2))).countP
          (·.isCode ';') =
      (mode.behindValues (entries.map Prod.snd)).countP isCode := by
  -- The mode is generalized: a comment that a value opens goes on in the lines behind it.
  induction entries generalizing mode with
  | nil => rfl
  | cons entry rest inductionHypothesis =>
      obtain ⟨here, others⟩ := List.forall_mem_cons.1 kept
      have line := isLineStart.countP_cells_declarationLine here
      have counted : (mode.behindValues ((entry :: rest).map Prod.snd)).countP isCode =
          (mode.after entry.2 none).isCode.toNat +
            (((mode.after entry.2 none).after ";\n" none).behindValues
              (rest.map Prod.snd)).countP isCode := by
        rw [List.map_cons, behindValues, List.countP_cons]
        cases (mode.after entry.2 none).isCode <;> simp [Nat.add_comm]
      rw [counted, List.map_cons]
      cases rest with
      | nil =>
          rw [List.map_nil, List.intercalate_singleton,
            ← List.append_nil (Overrides.declarationLine _ _), line]
          rfl
      | cons second later =>
          rw [List.map_cons, List.intercalate_cons_cons, List.append_assoc, line,
            ← inductionHypothesis (isLineStart_after_terminator _ none) others]
          exact congrArg _ (countP_cells_behind_terminator _ _)

/-! ## Values that close what they open -/

/-- By itself a value begins no line comment, breaks no string at a line end and ends in code. -/
structure IsSelfContained (value : Text) : Prop where
  isPlain : initial.isPlain value none = true
  endsInCode : (initial.after value none).isCode = true

/-- Values that are self-contained end in code wherever they are written. -/
theorem isCode_of_mem_behindValues
    {values : List Text}
    (contained : ∀ value ∈ values, IsSelfContained value)
    {depth : Nat}
    {behind : Mode}
    (member : behind ∈ (code depth false).behindValues values) :
    behind.isCode = true := by
  induction values generalizing depth with
  | nil => contradiction
  | cons value rest inductionHypothesis =>
      obtain ⟨⟨isPlain, endsInCode⟩, others⟩ := List.forall_mem_cons.1 contained
      -- The values in front may leave parentheses open, in which plain text is read the same.
      have deepens : Deepens initial (code depth false) := .code (Nat.zero_le depth) nofun
      have here : ((code depth false).after value none).isCode = true := by
        rw [← (deepens.reads isPlain).2.2.isCode_eq, endsInCode]
      rw [behindValues, List.mem_cons] at member
      obtain rfl | later := member
      · exact here
      · obtain ⟨afterColon, isCode⟩ := exists_eq_code_of_isCode here
        rw [isCode] at later
        exact inductionHypothesis others later

end Mode
end Source

namespace Overrides

open Source

/-- The values that are written, in the order of the clean names. -/
def writtenValues (overrides : Overrides) : List Text :=
  (SortedMap.ofList overrides.assigned).entries.map Prod.snd

theorem count_declarationLine
    {entry : Text × Text}
    (kept : IsKept entry) :
    (declarationLine entry.1 entry.2).count ';' = 1 := by
  have noneInName : ';' ∉ entry.1 := not_mem_of_forall_isNameChar kept.clean rfl
  have noneInValue : ';' ∉ entry.2 := kept.not_mem rfl
  simp [declarationLine, List.count_eq_zero_of_not_mem noneInName,
    List.count_eq_zero_of_not_mem noneInValue]

/-- Every written override has one semicolon, the one behind its value. -/
theorem count_layer (overrides : Overrides) :
    overrides.layer.count ';' = overrides.writtenValues.length := by
  rw [layer_eq_intercalate, writtenValues, List.length_map]
  have kept : ∀ entry ∈ (SortedMap.ofList overrides.assigned).entries, IsKept entry :=
    fun _ member => isKept_of_mem_written member
  generalize (SortedMap.ofList overrides.assigned).entries = entries at kept ⊢
  induction entries with
  | nil => rfl
  | cons entry rest inductionHypothesis =>
      obtain ⟨here, others⟩ := List.forall_mem_cons.1 kept
      have later := inductionHypothesis others
      cases rest with
      | nil =>
          rw [List.map_cons, List.map_nil, List.intercalate_singleton, count_declarationLine here]
          rfl
      | cons second others =>
          rw [List.map_cons] at later
          rw [List.map_cons, List.map_cons, List.intercalate_cons_cons, List.count_append,
            List.count_append, later, count_declarationLine here]
          simp [Nat.add_comm]

/--
The layer holds one semicolon for each written value.  As code stand as many of
them as values end in code, read one after the other; so all of them do exactly
if each value ends in code, and they do if each value is self-contained.
-/
theorem count_codeText_layer (overrides : Overrides) :
    overrides.layer.count ';' = overrides.writtenValues.length ∧
      (codeText overrides.layer).count ';' =
        (Mode.initial.behindValues overrides.writtenValues).countP Mode.isCode ∧
      ((codeText overrides.layer).count ';' = overrides.writtenValues.length ↔
        ∀ behind ∈ Mode.initial.behindValues overrides.writtenValues, behind.isCode = true) ∧
      ((∀ value ∈ overrides.writtenValues, Mode.IsSelfContained value) →
        (codeText overrides.layer).count ';' = overrides.writtenValues.length) := by
  have counted : (codeText overrides.layer).count ';' =
      (Mode.initial.behindValues overrides.writtenValues).countP Mode.isCode := by
    rw [count_codeText, layer_eq_intercalate]
    exact (Mode.IsLineStart.code 0).countP_cells_lines fun _ member => isKept_of_mem_written member
  have complete : (codeText overrides.layer).count ';' = overrides.writtenValues.length ↔
      ∀ behind ∈ Mode.initial.behindValues overrides.writtenValues, behind.isCode = true := by
    rw [counted, ← Mode.length_behindValues Mode.initial, List.countP_eq_length]
  exact ⟨count_layer overrides, counted, complete,
    fun contained => complete.2 fun _ member =>
      Mode.isCode_of_mem_behindValues contained member⟩

end Overrides

namespace Sample

/-- Overrides with a parenthesis, a quoted comment and a comment. -/
def containedOverrides : Overrides :=
  .ofList [("a", "(1px"), ("b", "\"/*//\""), ("c", "2px /* x */")]

/-- An override that opens a comment, and one behind it. -/
def openOverrides : Overrides := .ofList [("a", "/*"), ("b", "1px")]

end Sample

namespace Overrides

/-- All three values are self-contained, so all three semicolons are code. -/
theorem count_codeText_layer_contained :
    (∀ value ∈ Sample.containedOverrides.writtenValues, Source.Mode.IsSelfContained value) ∧
      (Source.codeText Sample.containedOverrides.layer).count ';' = 3 := by
  have values : Sample.containedOverrides.writtenValues = ["(1px", "\"/*//\"", "2px /* x */"] := by
    decide +kernel
  have contained :
      ∀ value ∈ Sample.containedOverrides.writtenValues, Source.Mode.IsSelfContained value := by
    rw [values]
    intro value member
    obtain rfl | rfl | rfl : value = "(1px" ∨ value = "\"/*//\"" ∨ value = "2px /* x */" := by
      simpa using member
    all_goals exact ⟨rfl, rfl⟩
  refine ⟨contained, ?_⟩
  rw [(count_codeText_layer Sample.containedOverrides).2.2.2 contained, values]
  rfl

/-- A value that opens a comment is written, and no semicolon of the layer is code. -/
theorem count_codeText_layer_ne_length :
    Sample.openOverrides.layer = "@a: /*;\n@b: 1px;" ∧
      Sample.openOverrides.writtenValues.length = 2 ∧
      (Source.codeText Sample.openOverrides.layer).count ';' = 0 := by
  decide +kernel

end Overrides
end LessTheme
