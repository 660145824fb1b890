import LessTheme.Proofs.Declaration.Line
import LessTheme.Proofs.Text.Lines
import LessTheme.Proofs.Text.Pieces
import LessTheme.Program.Unit

/-!
# The lines of a unit

Dividing a unit file loses no line: each is a declaration or stays in the body.
The lines that stay are divided the same way, since neither the marker nor the
first line that opens a block moves, so no declaration is left in the body.
-/

namespace LessTheme

/-! ## White space behind a line -/

section Behind

variable {spaces : Text}

theorem opensBlock_append_spaces
    (blank : ∀ char ∈ spaces, isWhiteSpace char = true)
    (line : Text) :
    opensBlock (line ++ spaces) = opensBlock line := by
  rw [opensBlock, Text.trim_append_spaces blank, opensBlock]

theorem isVariablesMarker_of_slashes
    {line rest : Text}
    (slashes : line.trimStart = '/' :: '/' :: rest) :
    isVariablesMarker line = isVariablesWord rest.trim := by
  rw [isVariablesMarker, slashes]
  rfl

theorem isVariablesMarker_of_no_slashes
    {line : Text}
    (noSlashes : ∀ rest, line.trimStart ≠ '/' :: '/' :: rest) :
    isVariablesMarker line =
      (blockCommentBody? line.trimStart).any fun body => isVariablesWord body.trim := by
  rw [isVariablesMarker]
  split
  case h_1 rest slashes => exact absurd slashes (noSlashes rest)
  case h_2 => rfl

theorem isVariablesMarker_append_spaces
    (blank : ∀ char ∈ spaces, isWhiteSpace char = true)
    (line : Text) :
    isVariablesMarker (line ++ spaces) = isVariablesMarker line := by
  obtain ⟨left, right⟩ | ⟨kept, nonempty⟩ := Text.trimStart_append_spaces blank line
  · rw [isVariablesMarker, left, isVariablesMarker, right]
  · by_cases slashes : ∃ rest, line.trimStart = '/' :: '/' :: rest
    · obtain ⟨rest, slashes⟩ := slashes
      have slashesBehind : Text.trimStart (line ++ spaces) = '/' :: '/' :: (rest ++ spaces) := by
        rw [kept, slashes]
        rfl
      rw [isVariablesMarker_of_slashes slashes, isVariablesMarker_of_slashes slashesBehind,
        Text.trim_append_spaces blank]
    · have noSlashes : ∀ rest, line.trimStart ≠ '/' :: '/' :: rest := not_exists.1 slashes
      have noSlashesBehind : ∀ rest, Text.trimStart (line ++ spaces) ≠ '/' :: '/' :: rest := by
        rw [kept]
        intro rest front
        cases start : line.trimStart with
        | nil => exact nonempty start
        | cons first others =>
            rw [start, List.cons_append] at front
            obtain ⟨rfl, behind⟩ := List.cons.inj front
            cases others with
            | nil =>
                -- The second slash would be one of the spaces.
                rw [List.nil_append] at behind
                have isSpace := blank '/' (behind ▸ List.mem_cons_self)
                contradiction
            | cons second others =>
                obtain ⟨rfl, -⟩ := List.cons.inj behind
                exact noSlashes others start
      rw [isVariablesMarker_of_no_slashes noSlashes,
        isVariablesMarker_of_no_slashes noSlashesBehind, kept,
        blockCommentBody?_append_spaces blank]

end Behind

/-- Nothing that the division asks about a line depends on carriage returns at its end. -/
theorem withoutReturns_asked (line : Text) :
    isVariablesMarker (Text.withoutReturns line) = isVariablesMarker line ∧
      opensBlock (Text.withoutReturns line) = opensBlock line ∧
      declaration? (Text.withoutReturns line) = declaration? line := by
  obtain ⟨returns, split, areReturns⟩ := Text.exists_eq_withoutReturns_append line
  have blank : ∀ char ∈ returns, isWhiteSpace char = true := by
    intro char member
    rw [areReturns char member]
    rfl
  have noFeed : '\n' ∉ returns := fun member => absurd (areReturns '\n' member) (by decide)
  refine ⟨?_, ?_, ?_⟩
  · conv_rhs => rw [split]
    exact (isVariablesMarker_append_spaces blank _).symm
  · conv_rhs => rw [split]
    exact (opensBlock_append_spaces blank _).symm
  · conv_rhs => rw [split]
    exact (declaration?_append_spaces blank noFeed _).symm

/-! ## The parts of a file -/

/-- Whether a line declares a variable. -/
def declares (line : Text) : Bool := (declaration? line).isSome

/-- The lines behind the first marker; all lines if there is no marker. -/
def linesBehindMarker (lines : List Text) : List Text :=
  lines.drop (linesThroughMarker lines).length

/-- The lines behind the marker and before the first one that opens a block. -/
def openingLines (lines : List Text) : List Text :=
  (linesBehindMarker lines).takeWhile fun line => !opensBlock line

/-- The lines from the first one behind the marker that opens a block. -/
def linesFromBlock (lines : List Text) : List Text :=
  (linesBehindMarker lines).dropWhile fun line => !opensBlock line

/-- The lines that stay in the body. -/
def bodyLines (lines : List Text) : List Text :=
  linesThroughMarker lines ++
    ((openingLines lines).filter (fun line => !declares line) ++ linesFromBlock lines)

/-- Either no line is a marker, or there is a first one. -/
theorem exists_first_marker (lines : List Text) :
    (∀ line ∈ lines, isVariablesMarker line = false) ∨
      ∃ before marker behind, lines = before ++ marker :: behind ∧
        (∀ line ∈ before, isVariablesMarker line = false) ∧ isVariablesMarker marker = true := by
  cases found : lines.find? isVariablesMarker with
  | none =>
      left
      simpa using List.find?_eq_none.1 found
  | some marker =>
      right
      obtain ⟨isMarker, before, behind, split, noMarker⟩ :=
        List.find?_eq_some_iff_append.1 found
      exact ⟨before, marker, behind, split, by simpa using noMarker, isMarker⟩

theorem linesThroughMarker_eq_nil
    {lines : List Text}
    (noMarker : ∀ line ∈ lines, isVariablesMarker line = false) :
    linesThroughMarker lines = [] := by
  have noneTaken : lines.takeWhile (fun line => !isVariablesMarker line) = lines :=
    List.takeWhile_eq_self_iff.2 fun line member => by rw [noMarker line member, Bool.not_false]
  rw [linesThroughMarker, noneTaken, if_neg (Nat.lt_irrefl _)]

theorem linesThroughMarker_append
    {before : List Text}
    {marker : Text}
    (noMarker : ∀ line ∈ before, isVariablesMarker line = false)
    (isMarker : isVariablesMarker marker = true)
    (behind : List Text) :
    linesThroughMarker (before ++ marker :: behind) = before ++ [marker] := by
  have taken : (before ++ marker :: behind).takeWhile (fun line => !isVariablesMarker line) =
      before := by
    have passes : ∀ line ∈ before, (!isVariablesMarker line) = true := by
      intro line member
      rw [noMarker line member, Bool.not_false]
    rw [List.takeWhile_append_of_pos passes, List.takeWhile_cons_of_neg (by simp [isMarker]),
      List.append_nil]
  rw [linesThroughMarker, taken, if_pos (by simp), List.append_cons]
  exact List.take_left' (by simp)

theorem linesBehindMarker_eq_self
    {lines : List Text}
    (noMarker : ∀ line ∈ lines, isVariablesMarker line = false) :
    linesBehindMarker lines = lines := by
  rw [linesBehindMarker, linesThroughMarker_eq_nil noMarker]
  rfl

theorem linesBehindMarker_append
    {before : List Text}
    {marker : Text}
    (noMarker : ∀ line ∈ before, isVariablesMarker line = false)
    (isMarker : isVariablesMarker marker = true)
    (behind : List Text) :
    linesBehindMarker (before ++ marker :: behind) = behind := by
  have split := List.append_cons before marker behind
  rw [linesBehindMarker, linesThroughMarker_append noMarker isMarker, split, List.drop_left]

theorem linesThroughMarker_append_linesBehindMarker (lines : List Text) :
    linesThroughMarker lines ++ linesBehindMarker lines = lines := by
  obtain noMarker | ⟨before, marker, behind, rfl, noMarker, isMarker⟩ := exists_first_marker lines
  · rw [linesThroughMarker_eq_nil noMarker, linesBehindMarker_eq_self noMarker]
    rfl
  · rw [linesThroughMarker_append noMarker isMarker, linesBehindMarker_append noMarker isMarker]
    exact (List.append_cons before marker behind).symm

/-- Lines behind the first marker stay behind it when others of them are left out. -/
theorem linesBehindMarker_linesThroughMarker_append
    {lines kept : List Text}
    (areBehind : kept ⊆ linesBehindMarker lines) :
    linesBehindMarker (linesThroughMarker lines ++ kept) = kept := by
  obtain noMarker | ⟨before, marker, behind, rfl, noMarker, isMarker⟩ := exists_first_marker lines
  · rw [linesThroughMarker_eq_nil noMarker]
    rw [linesBehindMarker_eq_self noMarker] at areBehind
    exact linesBehindMarker_eq_self fun line member => noMarker line (areBehind member)
  · rw [linesThroughMarker_append noMarker isMarker, ← List.append_cons]
    exact linesBehindMarker_append noMarker isMarker kept

theorem openingLines_append_linesFromBlock (lines : List Text) :
    openingLines lines ++ linesFromBlock lines = linesBehindMarker lines :=
  List.takeWhile_append_dropWhile

theorem lines_eq_append (lines : List Text) :
    lines = linesThroughMarker lines ++ (openingLines lines ++ linesFromBlock lines) := by
  rw [openingLines_append_linesFromBlock, linesThroughMarker_append_linesBehindMarker]

theorem splitUnit_eq (source : Text) :
    splitUnit source =
      ⟨((openingLines source.withoutByteOrderMark.lines).filter declares).map Text.trim,
        List.intercalate ['\n'] (bodyLines source.withoutByteOrderMark.lines)⟩ := by
  have behindSection : ∀ lines : List Text,
      lines.drop ((linesThroughMarker lines).length + (openingLines lines).length) =
        linesFromBlock lines := by
    intro lines
    rw [← List.drop_drop]
    change (linesBehindMarker lines).drop (openingLines lines).length = linesFromBlock lines
    rw [← openingLines_append_linesFromBlock, List.drop_left]
  rw [bodyLines, ← behindSection, ← List.append_assoc]
  rfl

/-! ## The lines of the body -/

/-- Leaving out the declarations moves neither the marker nor the first block. -/
theorem openingLines_bodyLines (lines : List Text) :
    openingLines (bodyLines lines) = (openingLines lines).filter fun line => !declares line := by
  have areBehind : (openingLines lines).filter (fun line => !declares line) ++
      linesFromBlock lines ⊆ linesBehindMarker lines := by
    rw [← openingLines_append_linesFromBlock, List.append_subset]
    exact ⟨fun line member => List.mem_append_left _ (List.mem_filter.1 member).1,
      List.subset_append_right _ _⟩
  have noneOpens : ∀ line ∈ (openingLines lines).filter fun line => !declares line,
      (!opensBlock line) = true := by
    intro line member
    have inSection := (List.mem_filter.1 member).1
    rw [openingLines] at inSection
    have staysOut := List.mem_takeWhile_imp inSection
    exact staysOut
  have stops : (linesFromBlock lines).takeWhile (fun line => !opensBlock line) = [] :=
    List.takeWhile_eq_nil_iff.2 (List.dropWhile_get_zero_not _ _)
  rw [openingLines, bodyLines, linesBehindMarker_linesThroughMarker_append areBehind,
    List.takeWhile_append_of_pos noneOpens, stops, List.append_nil]

theorem linesBehindMarker_map
    {change : Text → Text}
    (sameMarkers : ∀ line, isVariablesMarker (change line) = isVariablesMarker line)
    (lines : List Text) :
    linesBehindMarker (lines.map change) = (linesBehindMarker lines).map change := by
  have noMarkerInMap : ∀ {before : List Text},
      (∀ line ∈ before, isVariablesMarker line = false) →
        ∀ line ∈ before.map change, isVariablesMarker line = false := by
    intro before noMarker line member
    obtain ⟨line, isLine, rfl⟩ := List.mem_map.1 member
    rw [sameMarkers, noMarker line isLine]
  obtain noMarker | ⟨before, marker, behind, rfl, noMarker, isMarker⟩ := exists_first_marker lines
  · rw [linesBehindMarker_eq_self noMarker, linesBehindMarker_eq_self (noMarkerInMap noMarker)]
  · rw [List.map_append, List.map_cons, linesBehindMarker_append noMarker isMarker,
      linesBehindMarker_append (noMarkerInMap noMarker) ((sameMarkers marker).trans isMarker)]

/-- Lines are divided alike with and without carriage returns at their ends. -/
theorem openingLines_map_withoutReturns (lines : List Text) :
    openingLines (lines.map Text.withoutReturns) =
      (openingLines lines).map Text.withoutReturns := by
  have sameBlocks : (fun line => !opensBlock line) ∘ Text.withoutReturns =
      fun line => !opensBlock line :=
    funext fun line => congrArg not (withoutReturns_asked line).2.1
  rw [openingLines, linesBehindMarker_map fun line => (withoutReturns_asked line).1,
    List.takeWhile_map, sameBlocks, openingLines]

/-- A blank line behind others is no marker, so it takes none of them out of the section. -/
theorem openingLines_isPrefix (lines : List Text) :
    openingLines lines <+: openingLines (lines ++ [[]]) := by
  have blankBehind : linesBehindMarker (lines ++ [[]]) = linesBehindMarker lines ++ [[]] := by
    obtain noMarker | ⟨before, marker, behind, rfl, noMarker, isMarker⟩ :=
      exists_first_marker lines
    · rw [linesBehindMarker_eq_self noMarker]
      refine linesBehindMarker_eq_self fun line member => ?_
      obtain isLine | isBlank := List.mem_append.1 member
      · exact noMarker line isLine
      · rw [List.mem_singleton.1 isBlank]
        rfl
    · rw [List.append_assoc, List.cons_append, linesBehindMarker_append noMarker isMarker,
        linesBehindMarker_append noMarker isMarker]
  rw [openingLines, openingLines, blankBehind, List.takeWhile_append]
  split
  · exact (List.takeWhile_prefix _).trans (List.prefix_append _ _)
  · exact List.prefix_refl _

theorem declares_openingLines_lines_intercalate
    {texts : List Text}
    (noFeed : ∀ text ∈ texts, '\n' ∉ text)
    (noneDeclares : ∀ line ∈ openingLines texts, declares line = false) :
    ∀ line ∈ openingLines (Text.lines (List.intercalate ['\n'] texts)),
      declares line = false := by
  have sameDeclares : ∀ line, declares (Text.withoutReturns line) = declares line :=
    fun line => congrArg Option.isSome (withoutReturns_asked line).2.2
  -- The lines that are read back may have lost returns at their ends and a blank last line.
  obtain ⟨blank, isBlank, same⟩ := Text.exists_map_withoutReturns_lines_intercalate noFeed
  generalize Text.lines (List.intercalate ['\n'] texts) = lines at same ⊢
  intro line member
  have inMap : Text.withoutReturns line ∈ openingLines (lines.map Text.withoutReturns) := by
    rw [openingLines_map_withoutReturns]
    exact List.mem_map_of_mem member
  have inTexts : Text.withoutReturns line ∈ (openingLines texts).map Text.withoutReturns := by
    rw [← openingLines_map_withoutReturns, ← same]
    obtain rfl | rfl := isBlank
    · rwa [List.append_nil]
    · exact (openingLines_isPrefix _).subset inMap
  obtain ⟨text, isText, sameText⟩ := List.mem_map.1 inTexts
  rw [← sameDeclares, ← sameText, sameDeclares, noneDeclares text isText]

/-! ## The division -/

/-- The lines of a unit file, each with whether it is taken out as a declaration. -/
def markedLines (source : Text) : List (Text × Bool) :=
  let lines := source.withoutByteOrderMark.lines
  (linesThroughMarker lines).map (·, false) ++
    ((openingLines lines).map (fun line => (line, declares line)) ++
      (linesFromBlock lines).map (·, false))

/-- The lines of a unit file that stay. -/
def keptLines (source : Text) : List Text :=
  ((markedLines source).filter fun marked => !marked.2).map Prod.fst

theorem map_fst_markedLines (source : Text) :
    (markedLines source).map Prod.fst = source.withoutByteOrderMark.lines := by
  conv_rhs => rw [lines_eq_append source.withoutByteOrderMark.lines]
  simp [markedLines, Function.comp_def]

theorem bodyLines_eq_keptLines (source : Text) :
    bodyLines source.withoutByteOrderMark.lines = keptLines source := by
  simp [bodyLines, keptLines, markedLines, List.filter_map, Function.comp_def]

theorem declarations_splitUnit (source : Text) :
    (splitUnit source).declarations =
      ((markedLines source).filter Prod.snd).map fun marked => marked.1.trim := by
  rw [splitUnit_eq]
  simp [markedLines, List.filter_map, Function.comp_def]

theorem body_splitUnit (source : Text) :
    (splitUnit source).body = List.intercalate ['\n'] (keptLines source) := by
  rw [splitUnit_eq, bodyLines_eq_keptLines]

theorem declares_of_mem_markedLines
    {source line : Text}
    (member : (line, true) ∈ markedLines source) :
    declares line = true := by
  simp only [markedLines, List.mem_append, List.mem_map, Prod.mk.injEq, and_false, exists_false,
    false_or, or_false, Bool.false_eq_true] at member
  obtain ⟨found, -, rfl, declared⟩ := member
  exact declared

theorem mem_lines_of_mem_markedLines
    {source line : Text}
    {isTaken : Bool}
    (member : (line, isTaken) ∈ markedLines source) :
    line ∈ source.withoutByteOrderMark.lines := by
  rw [← map_fst_markedLines]
  exact List.mem_map_of_mem member

theorem mem_lines_of_mem_keptLines
    {source line : Text}
    (member : line ∈ keptLines source) :
    line ∈ source.withoutByteOrderMark.lines := by
  obtain ⟨⟨line, isTaken⟩, isMarked, rfl⟩ := List.mem_map.1 member
  exact mem_lines_of_mem_markedLines (List.mem_filter.1 isMarked).1

theorem lineFeed_not_mem_of_mem_keptLines
    {source line : Text}
    (member : line ∈ keptLines source) :
    '\n' ∉ line :=
  Text.lineFeed_not_mem_of_mem_lines (mem_lines_of_mem_keptLines member)

theorem mark_not_mem_body
    {source : Text}
    (noMark : '\ufeff' ∉ source) :
    '\ufeff' ∉ (splitUnit source).body := by
  rw [body_splitUnit]
  intro member
  obtain isFeed | ⟨line, isKept, inside⟩ := Text.mem_separator_or_mem_of_mem_intercalate member
  · exact absurd (List.mem_singleton.1 isFeed) (by decide)
  · have inLine := Text.subset_of_mem_lines (mem_lines_of_mem_keptLines isKept) inside
    rw [Text.withoutByteOrderMark_of_not_mem noMark] at inLine
    exact noMark inLine

/-- Nothing is taken out of a body. -/
theorem declarations_splitUnit_body
    {source : Text}
    (noMark : '\ufeff' ∉ source) :
    (splitUnit (splitUnit source).body).declarations = [] := by
  have noMarkHere := Text.withoutByteOrderMark_of_not_mem (mark_not_mem_body noMark)
  have noneDeclares : ∀ line ∈ openingLines (keptLines source), declares line = false := by
    rw [← bodyLines_eq_keptLines, openingLines_bodyLines]
    intro line member
    simpa using (List.mem_filter.1 member).2
  rw [splitUnit_eq, noMarkHere, body_splitUnit, List.map_eq_nil_iff, List.filter_eq_nil_iff]
  intro line member
  rw [declares_openingLines_lines_intercalate (fun _ => lineFeed_not_mem_of_mem_keptLines)
    noneDeclares line member]
  exact Bool.false_ne_true

/--
Every line of a unit file without byte-order marks is either taken out, trimmed,
or stays as it is, in order.  What is taken out declares what the line declared,
and nothing is taken out of the body when it is divided again.
-/
theorem splitUnit_keeps_every_line
    {source : Text}
    (noMark : '\ufeff' ∉ source) :
    (markedLines source).map Prod.fst = source.lines ∧
      (splitUnit source).declarations =
        ((markedLines source).filter Prod.snd).map (fun marked => marked.1.trim) ∧
      (splitUnit source).body = List.intercalate ['\n'] (keptLines source) ∧
      (keptLines source ≠ [] →
        Text.splitWhere (· == '\n') (splitUnit source).body = keptLines source) ∧
      (∀ line, (line, true) ∈ markedLines source →
        ∃ declaration, declaration? line = some declaration ∧
          declaration? line.trim = some declaration) ∧
      (splitUnit (splitUnit source).body).declarations = [] := by
  refine ⟨?_, declarations_splitUnit source, body_splitUnit source, fun nonempty => ?_,
    fun line member => ?_, declarations_splitUnit_body noMark⟩
  · rw [map_fst_markedLines, Text.withoutByteOrderMark_of_not_mem noMark]
  · rw [body_splitUnit]
    exact Text.splitWhere_intercalate nonempty fun _ => lineFeed_not_mem_of_mem_keptLines
  · obtain ⟨declaration, declared⟩ :=
      Option.isSome_iff_exists.1 (declares_of_mem_markedLines member)
    have noFeed : '\n' ∉ line :=
      Text.lineFeed_not_mem_of_mem_lines (mem_lines_of_mem_markedLines member)
    exact ⟨declaration, declared, (declaration?_trim noFeed).trans declared⟩

namespace Sample

/-- A unit file with a marker, in which carriage returns stand before the line feeds. -/
def markedUnit : Text :=
  "@a: 1px;\r\n// Variables\r\n@b: 2px; // c\r\n\r\n.d \x7b\r\n@e: 3px;\r\n\x7d"

end Sample

/-- Only the declaration between the marker and the rule is taken out. -/
theorem splitUnit_keeps_every_line_behind_marker :
    splitUnit Sample.markedUnit =
        ⟨["@b: 2px; // c"], "@a: 1px;\n// Variables\n\n.d \x7b\n@e: 3px;\n\x7d"⟩ ∧
      Text.splitWhere (· == '\n') (splitUnit Sample.markedUnit).body =
        keptLines Sample.markedUnit ∧
      (splitUnit (splitUnit Sample.markedUnit).body).declarations = [] := by
  have noMark : '\ufeff' ∉ Sample.markedUnit := by decide
  obtain ⟨-, -, -, isBody, -, nothingLeft⟩ := splitUnit_keeps_every_line noMark
  exact ⟨by decide +kernel, isBody (by decide +kernel), nothingLeft⟩

end LessTheme
