import LessTheme.Proofs.Lowering.AtRule
import LessTheme.Proofs.Program.Unit
import LessTheme.Proofs.Source.Closed

/-!
# Declarations that are live

A unit file is divided line by line, so a line that reads as a declaration is
taken out wherever it stands.  Its at sign is code outside all blocks exactly if
the text in front of the line leaves nothing open, and so it is if every line
before it closes what it opens.
-/

namespace LessTheme

open Source
open Lowering (blockDepth foldl_blockDepth_of_no_brace)

/-- At a place of a source stands an at sign that is code outside all blocks. -/
def IsLiveSign (source : Text) (place : Nat) : Prop :=
  ∃ cell ∈ (cells source)[place]?, cell.isCode '@' = true ∧
    ((cells source).take place).foldl blockDepth 0 = 0

instance (source : Text) (place : Nat) : Decidable (IsLiveSign source place) :=
  inferInstanceAs (Decidable (∃ cell ∈ (cells source)[place]?, _ ∧ _))

/-- A text leaves no string, no comment and no block open. -/
def IsSettled (text : Text) : Prop :=
  (Mode.initial.after text none).isCode = true ∧ (cells text).foldl blockDepth 0 = 0

instance (text : Text) : Decidable (IsSettled text) := inferInstanceAs (Decidable (_ ∧ _))

/-- Behind a text everything is read as at its start: no parenthesis is open either. -/
def ClosesAll (text : Text) : Prop :=
  Mode.initial.after text none = .initial ∧ (cells text).foldl blockDepth 0 = 0

instance (text : Text) : Decidable (ClosesAll text) := inferInstanceAs (Decidable (_ ∧ _))

/-- The text of a unit file in front of a line, given the number of lines before it. -/
def textBefore (source : Text) (count : Nat) : Text :=
  source.take (source.length - (Text.behindLines count source.withoutByteOrderMark).length)

/-- The place of the first character of a line that is no white space. -/
def signPlace (front line : Text) : Nat :=
  front.length + (line.takeWhile isWhiteSpace).length

/-! ## White space in front of the sign -/

namespace Source.Mode

/-- White space within a line begins and ends neither a string nor a comment. -/
theorem HasQuote.isCode_read
    {mode : Mode}
    (hasQuote : mode.HasQuote)
    {char : Char}
    (blank : isWhiteSpace char = true)
    (noFeed : char ≠ '\n')
    (next : Option Char) :
    (mode.read char next).2.isCode = mode.isCode := by
  have noQuote : ¬(char = '"' ∨ char = '\'') := by
    rintro (rfl | rfl) <;> contradiction
  have noSlash : char ≠ '/' := ne_of_isWhiteSpace blank rfl
  have noBackslash : char ≠ '\\' := ne_of_isWhiteSpace blank rfl
  cases mode with
  | code | comment | lineComment => simp [Mode.read, isCode, noQuote, noSlash, noFeed]
  | string quote depth =>
      have inside : char ≠ quote := by
        rintro rfl
        exact noQuote hasQuote
      simp [Mode.read, isCode, noBackslash, noFeed, inside]
  | escape | commentOpening => rfl

theorem HasQuote.isCode_after
    {mode : Mode}
    (hasQuote : mode.HasQuote)
    {spaces : Text}
    (blank : ∀ char ∈ spaces, isWhiteSpace char = true)
    (noFeed : '\n' ∉ spaces)
    (next : Option Char) :
    (mode.after spaces next).isCode = mode.isCode := by
  induction spaces generalizing mode with
  | nil => rfl
  | cons char rest inductionHypothesis =>
      obtain ⟨space, spaces⟩ := List.forall_mem_cons.1 blank
      obtain ⟨notFeed, noFeed⟩ := not_or.1 (mt List.mem_cons.2 noFeed)
      rw [Mode.after, inductionHypothesis (hasQuote.read char _) spaces noFeed,
        hasQuote.isCode_read space (Ne.symm notFeed)]

/-- A carriage return in front of a line feed changes nothing in what the line leaves open. -/
theorem after_return_lineFeed
    {mode : Mode}
    (closes : mode.after ['\n'] none = .initial) :
    mode.after ['\r', '\n'] none = .initial := by
  cases mode with
  | code => simpa [after, read, initial, parenthesisDepth] using closes
  | lineComment => rfl
  | string quote depth =>
      have isDepth : depth = 0 := by simpa [after, read, initial] using closes
      by_cases isQuote : '\r' = quote
      · subst isQuote isDepth
        rfl
      · simp [after, read, initial, isDepth, isQuote]
  | escape | commentOpening => simp [after, read, initial] at closes
  | comment => simp [after, read, initial] at closes

end Source.Mode

theorem foldl_blockDepth_cellsBefore_spaces
    (mode : Mode)
    {spaces : Text}
    (blank : ∀ char ∈ spaces, isWhiteSpace char = true)
    (next : Option Char)
    (depth : Nat) :
    (mode.cellsBefore spaces next).foldl blockDepth depth = depth := by
  refine foldl_blockDepth_of_no_brace (fun cell member => ?_) depth
  have isSpace : isWhiteSpace cell.char = true := by
    refine blank cell.char ?_
    rw [← mode.chars_cellsBefore spaces next]
    exact List.mem_map_of_mem member
  have noOpening : cell.char ≠ '\x7b' := ne_of_isWhiteSpace isSpace rfl
  have noClosing : cell.char ≠ '\x7d' := ne_of_isWhiteSpace isSpace rfl
  simp [Cell.isCode, noOpening, noClosing]

/-! ## At signs and what stands in front of them -/

/-- An at sign is live if it is read in code and no block is open there. -/
theorem isLiveSign_append_sign_iff (front rest : Text) :
    IsLiveSign (front ++ '@' :: rest) front.length ↔
      (Mode.initial.after front (some '@')).isCode = true ∧
        (Mode.initial.cellsBefore front (some '@')).foldl blockDepth 0 = 0 := by
  have whole : cells (front ++ '@' :: rest) = Mode.initial.cellsBefore front (some '@') ++
      (Mode.initial.after front (some '@')).cells ('@' :: rest) :=
    Mode.initial.cells_append front ('@' :: rest)
  have size : (Mode.initial.cellsBefore front (some '@')).length = front.length := by
    rw [← length_chars, Mode.chars_cellsBefore]
  rw [IsLiveSign, whole, ← size, List.getElem?_append_right (Nat.le_refl _), Nat.sub_self,
    List.take_left, Mode.cells]
  have sign := (Mode.initial.after front (some '@')).isCode_read_of_not_mem_specialChars
    (show '@' ∉ specialChars by decide) (by decide) rest.head?
  simp [sign]

/-- White space behind a settled text leaves it settled. -/
theorem isSettled_iff_append_spaces
    {front spaces : Text}
    (noSlash : front.getLast? ≠ some '/')
    (blank : ∀ char ∈ spaces, isWhiteSpace char = true)
    (noFeed : '\n' ∉ spaces)
    (next : Option Char) :
    (Mode.initial.after (front ++ spaces) next).isCode = true ∧
        (Mode.initial.cellsBefore (front ++ spaces) next).foldl blockDepth 0 = 0 ↔
      IsSettled front := by
  obtain ⟨frontCells, frontMode, -⟩ :=
    Mode.initial.reads_of_joins (Mode.joins_of_getLast?_ne noSlash (spaces.head?.or next))
  have beginsQuoted : Mode.initial.HasQuote := trivial
  rw [Mode.after_append, frontMode,
    (beginsQuoted.after front none).isCode_after blank noFeed, Mode.cellsBefore_append, frontCells,
    List.foldl_append, foldl_blockDepth_cellsBefore_spaces _ blank]
  rfl

/--
The at sign of a line is live exactly if the text in front of the line leaves
nothing open.
-/
theorem isLiveSign_signPlace_iff
    {front line : Text}
    (noSlash : front.getLast? ≠ some '/')
    (noFeed : '\n' ∉ line)
    (declared : declares line = true)
    (back : Text) :
    IsLiveSign (front ++ (line ++ back)) (signPlace front line) ↔ IsSettled front := by
  obtain ⟨rest, behindSpaces⟩ := exists_trimStart_eq_sign_cons declared
  have lineEq : line = line.takeWhile isWhiteSpace ++ '@' :: rest := by
    rw [← behindSpaces]
    exact List.takeWhile_append_dropWhile.symm
  have blank : ∀ char ∈ line.takeWhile isWhiteSpace, isWhiteSpace char = true :=
    fun char member => List.mem_takeWhile_imp member
  have noFeedInside : '\n' ∉ line.takeWhile isWhiteSpace := fun member =>
    noFeed (List.takeWhile_subset _ member)
  have sourceEq : front ++ (line ++ back) =
      (front ++ line.takeWhile isWhiteSpace) ++ '@' :: (rest ++ back) := by
    conv_lhs => rw [lineEq]
    simp
  rw [sourceEq, signPlace, ← List.length_append, isLiveSign_append_sign_iff]
  exact isSettled_iff_append_spaces noSlash blank noFeedInside (some '@')

/-! ## Lines that close what they open -/

theorem ClosesAll.isSettled
    {text : Text}
    (closes : ClosesAll text) :
    IsSettled text := by
  refine ⟨?_, closes.2⟩
  rw [closes.1]
  rfl

theorem ClosesAll.append
    {front back : Text}
    (frontCloses : ClosesAll front)
    (backCloses : ClosesAll back)
    (noSlash : front.getLast? ≠ some '/') :
    ClosesAll (front ++ back) := by
  obtain ⟨frontCells, frontMode, -⟩ :=
    Mode.initial.reads_of_joins (Mode.joins_of_getLast?_ne noSlash back.head?)
  constructor
  · rw [Mode.after_append, Option.or_none, frontMode, frontCloses.1]
    exact backCloses.1
  · rw [cells, Mode.cells_append, frontCells, frontMode, frontCloses.1, List.foldl_append]
    change (cells back).foldl blockDepth ((cells front).foldl blockDepth 0) = 0
    rw [frontCloses.2]
    exact backCloses.2

/-- What a line leaves open does not depend on the form of its end. -/
theorem ClosesAll.append_return
    {line : Text}
    (closes : ClosesAll (line ++ ['\n'])) :
    ClosesAll (line ++ ['\r', '\n']) := by
  have joinsFeed : Mode.Joins line (some '\n') := Mode.joins_of_ne (by decide) (by decide) line
  have joinsReturn : Mode.Joins line (some '\r') := Mode.joins_of_ne (by decide) (by decide) line
  obtain ⟨feedCells, feedMode, -⟩ := Mode.initial.reads_of_joins joinsFeed
  obtain ⟨returnCells, returnMode, -⟩ := Mode.initial.reads_of_joins joinsReturn
  have endStays : ∀ (mode : Mode) (ending : Text), ending.isBlank = true →
      ∀ depth, (mode.cells ending).foldl blockDepth depth = depth := by
    intro mode ending blank depth
    rw [← Mode.cellsBefore_none]
    exact foldl_blockDepth_cellsBefore_spaces mode (List.all_eq_true.1 blank) none depth
  obtain ⟨modeCloses, depthCloses⟩ := closes
  constructor
  · rw [Mode.after_append] at modeCloses ⊢
    change (Mode.initial.after line (some '\n')).after ['\n'] none = _ at modeCloses
    change (Mode.initial.after line (some '\r')).after ['\r', '\n'] none = _
    rw [feedMode] at modeCloses
    rw [returnMode]
    exact Mode.after_return_lineFeed modeCloses
  · rw [cells, Mode.cells_append, List.foldl_append, endStays _ _ rfl] at depthCloses ⊢
    change (Mode.initial.cellsBefore line (some '\n')).foldl blockDepth 0 = 0 at depthCloses
    change (Mode.initial.cellsBefore line (some '\r')).foldl blockDepth 0 = 0
    rwa [returnCells, ← feedCells]

/-- A text of whole lines closes what it opens if each of its lines does. -/
theorem closesAll_of_lines
    {text : Text}
    (isWhole : text = [] ∨ text.getLast? = some '\n')
    (closes : ∀ line ∈ text.lines, ClosesAll (line ++ ['\n'])) :
    ClosesAll text := by
  -- By induction on the text: behind each line the mode is the initial one again.
  induction length : text.length using Nat.strong_induction_on generalizing text with
  | _ count inductionHypothesis =>
  subst length
  by_cases nonempty : text = []
  · subst nonempty
    exact ⟨rfl, rfl⟩
  · obtain ⟨line, ending, rest, rfl, linesEq, noFeed, isEnding⟩ :=
      Text.exists_first_line nonempty
    have last : (line ++ (ending ++ rest)).getLast? = some '\n' := isWhole.resolve_left nonempty
    rw [linesEq] at closes
    obtain ⟨lineCloses, restCloses⟩ := List.forall_mem_cons.1 closes
    obtain ⟨firstCloses, isFeed⟩ :
        ClosesAll (line ++ ending) ∧ (line ++ ending).getLast? = some '\n' := by
      obtain ⟨rfl, rfl⟩ | rfl | rfl := isEnding
      · exact absurd (List.mem_of_getLast? (by simpa using last)) noFeed
      · exact ⟨lineCloses, by simp⟩
      · exact ⟨lineCloses.append_return, by simp⟩
    have restIsWhole : rest = [] ∨ rest.getLast? = some '\n' := by
      by_cases isEmpty : rest = []
      · exact .inl isEmpty
      · right
        rwa [← List.append_assoc, List.getLast?_append_of_ne_nil _ isEmpty] at last
    have shorter : rest.length < (line ++ (ending ++ rest)).length := by
      have nonemptyFirst : line ++ ending ≠ [] := by
        intro isEmpty
        rw [isEmpty] at isFeed
        contradiction
      rw [← List.append_assoc, List.length_append]
      have positive := List.length_pos_iff.2 nonemptyFirst
      omega
    rw [← List.append_assoc]
    exact firstCloses.append (inductionHypothesis _ shorter restIsWhole restCloses rfl)
      (by rw [isFeed]; decide)

/-! ## The text in front of a line -/

theorem textBefore_eq
    {source front : Text}
    {count : Nat}
    (split : source = front ++ Text.behindLines count source.withoutByteOrderMark) :
    textBefore source count = front := by
  have size : source.length =
      front.length + (Text.behindLines count source.withoutByteOrderMark).length := by
    conv_lhs => rw [split]
    exact List.length_append
  rw [textBefore, size, Nat.add_sub_cancel]
  conv_lhs => rw [split]
  exact List.take_left

/-- The text in front of a line, the line and what follows make up the source. -/
theorem textBefore_append
    {source : Text}
    {before after : List Text}
    (split : source.withoutByteOrderMark.lines = before ++ after) :
    source = textBefore source before.length ++
        Text.behindLines before.length source.withoutByteOrderMark ∧
      Text.lines (Text.behindLines before.length source.withoutByteOrderMark) = after ∧
      (after ≠ [] → (textBefore source before.length).getLast? ≠ some '/') := by
  obtain ⟨mark, markEq, isMark⟩ := Text.exists_eq_mark_append source
  obtain ⟨front, frontEq, -, behindEq, isStart⟩ := Text.exists_append_behindLines split
  have whole : source = (mark ++ front) ++
      Text.behindLines before.length source.withoutByteOrderMark := by
    rw [List.append_assoc, ← frontEq, ← markEq]
  rw [textBefore_eq whole]
  refine ⟨whole, behindEq, fun nonempty => ?_⟩
  obtain rfl | isFeed | isEnd := isStart
  · obtain rfl | rfl := isMark <;> simp
  · simp [isFeed]
  · rw [isEnd] at behindEq
    exact absurd behindEq.symm nonempty

/-- Between the texts in front of two lines stand the lines between them. -/
theorem exists_textBefore_add
    {source : Text}
    {before between after : List Text}
    (split : source.withoutByteOrderMark.lines = before ++ (between ++ after))
    (nonempty : after ≠ []) :
    ∃ middle : Text,
      textBefore source (before.length + between.length) =
        textBefore source before.length ++ middle ∧
      middle.lines = between ∧ (middle = [] ∨ middle.getLast? = some '\n') := by
  obtain ⟨whole, behindEq, -⟩ := textBefore_append split
  obtain ⟨middle, middleEq, middleLines, restLines, isStart⟩ :=
    Text.exists_append_behindLines behindEq
  refine ⟨middle, textBefore_eq ?_, middleLines, ?_⟩
  · rw [Text.behindLines_add, List.append_assoc, ← middleEq]
    exact whole
  · obtain isEmpty | isFeed | isEnd := isStart
    · exact .inl isEmpty
    · exact .inr isFeed
    · rw [isEnd] at restLines
      exact absurd restLines.symm nonempty

/--
The at sign of a line that declares a variable is live exactly if the text in
front of the line leaves nothing open.
-/
theorem isLiveSign_iff_isSettled_textBefore
    {source line : Text}
    {before after : List Text}
    (split : source.withoutByteOrderMark.lines = before ++ line :: after)
    (declared : declares line = true) :
    ∃ back, source = textBefore source before.length ++ (line ++ back) ∧
      (IsLiveSign source (signPlace (textBefore source before.length) line) ↔
        IsSettled (textBefore source before.length)) := by
  obtain ⟨whole, behindEq, noSlash⟩ := textBefore_append split
  obtain ⟨back, isLine⟩ := Text.exists_eq_line_append behindEq
  have noFeed : '\n' ∉ line :=
    Text.lineFeed_not_mem_of_mem_lines (behindEq ▸ List.mem_cons_self)
  have isLive := isLiveSign_signPlace_iff (noSlash (List.cons_ne_nil _ _)) noFeed declared back
  rw [isLine] at whole
  rw [← whole] at isLive
  exact ⟨back, whole, isLive⟩

/-- Lines that close what they open leave nothing open behind a text that leaves nothing open. -/
theorem closesAll_textBefore_add
    {source : Text}
    {before between after : List Text}
    (split : source.withoutByteOrderMark.lines = before ++ (between ++ after))
    (nonempty : after ≠ [])
    (frontCloses : ClosesAll (textBefore source before.length))
    (linesClose : ∀ line ∈ between, ClosesAll (line ++ ['\n'])) :
    ClosesAll (textBefore source (before.length + between.length)) := by
  obtain ⟨-, -, noSlash⟩ := textBefore_append split
  obtain ⟨middle, isMiddle, middleLines, isWhole⟩ := exists_textBefore_add split nonempty
  have middleCloses : ClosesAll middle := by
    rw [← middleLines] at linesClose
    exact closesAll_of_lines isWhole linesClose
  rw [isMiddle]
  exact frontCloses.append middleCloses (noSlash (List.append_ne_nil_of_right_ne_nil _ nonempty))

/-! ## Lines that are taken out -/

/-- Only lines that do not open a block stand between the marker and a line that is taken out. -/
theorem exists_lines_between
    {source line : Text}
    {before after : List (Text × Bool)}
    (taken : markedLines source = before ++ (line, true) :: after) :
    ∃ between, before.map Prod.fst =
        linesThroughMarker source.withoutByteOrderMark.lines ++ between ∧
      between ⊆ openingLines source.withoutByteOrderMark.lines := by
  have notUntaken : ∀ lines : List Text, (line, true) ∉ lines.map (·, false) := by
    intro lines member
    obtain ⟨other, -, isSame⟩ := List.mem_map.1 member
    exact Bool.false_ne_true (Prod.mk.inj isSame).2
  rw [markedLines, List.append_eq_append_iff] at taken
  obtain ⟨passed, rfl, behindMarker⟩ | ⟨others, throughEq, restEq⟩ := taken
  · refine ⟨passed.map Prod.fst, by simp [Function.comp_def], ?_⟩
    rw [List.append_eq_append_iff] at behindMarker
    obtain ⟨further, rfl, blockEq⟩ | ⟨others, openingEq, -⟩ := behindMarker
    · exact absurd (blockEq ▸ List.mem_append_cons_self) (notUntaken _)
    · have sectionEq : openingLines source.withoutByteOrderMark.lines =
          passed.map Prod.fst ++ others.map Prod.fst := by
        simpa [Function.comp_def] using congrArg (List.map Prod.fst) openingEq
      rw [sectionEq]
      exact List.subset_append_left _ _
  · cases others with
    | nil =>
        rw [List.append_nil] at throughEq
        exact ⟨[], by simp [← throughEq, Function.comp_def], List.nil_subset _⟩
    | cons first others =>
        obtain ⟨rfl, -⟩ := List.cons.inj restEq
        exact absurd (throughEq ▸ List.mem_append_cons_self) (notUntaken _)

/--
The at sign of a line that is taken out is live exactly if the text in front of
the line leaves nothing open.  So it is if the text through the marker closes
all that it opens, and so does each line from there to the first one that opens
a block.
-/
theorem isLiveSign_of_markedLines_eq
    {source line : Text}
    {before after : List (Text × Bool)}
    (taken : markedLines source = before ++ (line, true) :: after) :
    (splitUnit source).declarations =
        (before.filter Prod.snd).map (fun marked => marked.1.trim) ++
          line.trim :: (after.filter Prod.snd).map (fun marked => marked.1.trim) ∧
      ∃ back, source = textBefore source before.length ++ (line ++ back) ∧
        (IsLiveSign source (signPlace (textBefore source before.length) line) ↔
          IsSettled (textBefore source before.length)) ∧
        (ClosesAll (textBefore source
            (linesThroughMarker source.withoutByteOrderMark.lines).length) →
          (∀ earlier ∈ openingLines source.withoutByteOrderMark.lines,
            ClosesAll (earlier ++ ['\n'])) →
          IsLiveSign source (signPlace (textBefore source before.length) line)) := by
  have linesEq : source.withoutByteOrderMark.lines =
      before.map Prod.fst ++ line :: after.map Prod.fst := by
    rw [← map_fst_markedLines, taken, List.map_append, List.map_cons]
  have declared : declares line = true :=
    declares_of_mem_markedLines (taken ▸ List.mem_append_cons_self)
  obtain ⟨back, whole, isLive⟩ := isLiveSign_iff_isSettled_textBefore linesEq declared
  rw [List.length_map] at whole isLive
  refine ⟨?_, back, whole, isLive, fun throughCloses linesClose => isLive.2 ?_⟩
  · rw [declarations_splitUnit, taken, List.filter_append, List.filter_cons_of_pos rfl,
      List.map_append, List.map_cons]
  · obtain ⟨between, beforeEq, inSection⟩ := exists_lines_between taken
    rw [beforeEq, List.append_assoc] at linesEq
    have size : before.length =
        (linesThroughMarker source.withoutByteOrderMark.lines).length + between.length := by
      rw [← List.length_append, ← beforeEq, List.length_map]
    rw [size]
    exact (closesAll_textBefore_add linesEq (List.cons_ne_nil _ _) throughCloses
      fun earlier member => linesClose earlier (inSection member)).isSettled

namespace Sample

/-- A unit file with a rule in front of the marker. -/
def liveUnit : Text :=
  ".a \x7b\n\x7d\n// Variables\n@b: 1px; // (\n  @c: 2px;\n.d \x7b\n@e: 3px;\n\x7d"

/-- The second declaration of the unit. -/
def liveLine : Text := "  @c: 2px;"

/-- The lines of the unit in front of its second declaration. -/
def liveBefore : List (Text × Bool) :=
  [(".a \x7b", false), ("\x7d", false), ("// Variables", false), ("@b: 1px; // (", true)]

/-- The lines of the unit behind its second declaration. -/
def liveAfter : List (Text × Bool) := [(".d \x7b", false), ("@e: 3px;", false), ("\x7d", false)]

/-- A unit file with a comment and a rule that begin on lines which go on. -/
def deadUnit : Text := "/*\n@a: 1px;\n*/\n.b \x7b color: red;\n  @c: 2px;\n\x7d"

end Sample

/-- The at sign of the second line behind the marker is live. -/
theorem isLiveSign_of_markedLines_eq_behind_marker :
    (splitUnit Sample.liveUnit).declarations = ["@b: 1px; // (", "@c: 2px;"] ∧
      IsLiveSign Sample.liveUnit
        (signPlace (textBefore Sample.liveUnit Sample.liveBefore.length) Sample.liveLine) := by
  have taken : markedLines Sample.liveUnit =
      Sample.liveBefore ++ (Sample.liveLine, true) :: Sample.liveAfter := by decide +kernel
  have throughCloses : ClosesAll (textBefore Sample.liveUnit
      (linesThroughMarker Sample.liveUnit.withoutByteOrderMark.lines).length) := by
    decide +kernel
  have linesClose : ∀ earlier ∈ openingLines Sample.liveUnit.withoutByteOrderMark.lines,
      ClosesAll (earlier ++ ['\n']) := by
    decide +kernel
  obtain ⟨-, -, -, -, isLive⟩ := isLiveSign_of_markedLines_eq taken
  exact ⟨by decide +kernel, isLive throughCloses linesClose⟩

/-- Both declarations are taken out, and no at sign of the source is live. -/
theorem splitUnit_takes_dead_lines :
    splitUnit Sample.deadUnit =
        ⟨["@a: 1px;", "@c: 2px;"], "/*\n*/\n.b \x7b color: red;\n\x7d"⟩ ∧
      ∀ place < Sample.deadUnit.length, ¬IsLiveSign Sample.deadUnit place := by
  decide +kernel

end LessTheme
