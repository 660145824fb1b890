import LessTheme.Proofs.Lowering.CustomColor
import LessTheme.Proofs.Source.ByteSearch
import LessTheme.Proofs.Source.Edit

/-!
# Colours made literal one after the other

The calls of colour functions may be found first and gone through then.  A call
that begins in front of the end of the last one that was made literal lies
inside of it and is passed over.  So the edits stand apart from each other, and
they are those of the patch.
-/

namespace LessTheme
namespace Lowering

open Source

/-! ## The edits for some calls -/

/-- The edit that makes a call literal, if it is over a custom property and has a literal form. -/
def literalEdit? (source : Text) (call : CallRange) : Option (Option Edit) := do
  let arguments ← source.slice? (call.opening + 1) call.closing
  if arguments.includes "var(--" then
    let text ← source.slice? call.start (call.closing + 1)
    return text.literal?.map fun literal => ⟨call.start, call.closing + 1, literal⟩
  else return none

/-- The edits that make some calls literal, the text being covered up to the given byte. -/
def literalEditsFrom? (source : Text) : Nat → List CallRange → Option (List Edit)
  | _, [] => some []
  | covered, call :: rest =>
      if call.start < covered then literalEditsFrom? source covered rest
      else do
        match ← literalEdit? source call with
        | some edit => (literalEditsFrom? source edit.stop rest).map (edit :: ·)
        | none => literalEditsFrom? source covered rest

/-- The edits that make the outermost colours over custom properties literal. -/
def customColorEdits? (source : Text) : Option (List Edit) := do
  let calls ← callRanges? source colorFunctions
  literalEditsFrom? source 0 calls

/-- A call that stands in a text is sliced out of it with its arguments. -/
theorem literalEdit?_range
    {source front behind : Text}
    {call : Call}
    (whole : source = front ++ (call.text ++ behind))
    (isStart : call.start = front.length) :
    literalEdit? source (call.range source) =
      some (if call.arguments.includes "var(--" then
        call.text.literal?.map fun literal =>
          ⟨front.byteLength, Text.byteLength (front ++ call.text), literal⟩
      else none) := by
  obtain ⟨start, name, arguments⟩ := call
  obtain rfl : start = front.length := isStart
  have parted : source = front ++ (name ++ '(' :: (arguments ++ ')' :: behind)) := by
    simp [whole, Call.text]
  have isStop : Text.byteLength (front ++ Call.text ⟨front.length, name, arguments⟩) =
      Text.byteLength (front ++ name) + 1 + arguments.byteLength + 1 := by
    simp only [Call.text, Text.byteLength_append, Text.byteLength]
    change _ + (_ + (1 + (_ + (1 + 0)))) = _
    omega
  have isArguments : source.slice? (Text.byteLength (front ++ name) + 1)
      (Text.byteLength (front ++ name) + 1 + arguments.byteLength) = some arguments := by
    refine Text.slice?_eq_some_iff.2 ⟨front ++ name ++ ['('], ')' :: behind, ?_, ?_, ?_⟩
    · simp [parted]
    · rw [Text.byteLength_append _ ['(']]
      rfl
    · rw [Text.byteLength_append, Text.byteLength_append _ ['(']]
      rfl
  have isText : source.slice? front.byteLength
      (Text.byteLength (front ++ name) + 1 + arguments.byteLength + 1) =
        some (Call.text ⟨front.length, name, arguments⟩) :=
    Text.slice?_eq_some_iff.2 ⟨front, behind, whole, rfl, isStop⟩
  rw [literalEdit?, Call.range_eq parted]
  dsimp only
  rw [isArguments, isText, isStop]
  change (if arguments.includes "var(--" then _ else _) = _
  split_ifs <;> rfl

/-! ## Calls inside of a call -/

theorem byteLength_take_lt
    {text : Text}
    {first last : Nat}
    (before : first < last)
    (inside : last ≤ text.length) :
    Text.byteLength (text.take first) < Text.byteLength (text.take last) := by
  have split := List.take_append_drop first (text.take last)
  rw [List.take_take, Nat.min_eq_left (Nat.le_of_lt before)] at split
  have nonempty : (text.take last).drop first ≠ [] := by
    rw [← List.length_pos_iff, List.length_drop, List.length_take, Nat.min_eq_left inside]
    omega
  have positive := Text.byteLength_pos nonempty
  rw [← split, Text.byteLength_append]
  omega

/-- The calls among some cells are those that begin in front of a place and those behind it. -/
theorem exists_callsFrom_append
    (start : Nat)
    (before : Option Cell)
    (front behind : List Cell) :
    ∃ inner, callsFrom start before (front ++ behind) =
        inner ++ callsFrom (start + front.length) (front.getLast?.or before) behind ∧
      ∀ call ∈ inner, call.start < start + front.length := by
  induction front generalizing start before with
  | nil => exact ⟨[], by simp, List.forall_mem_nil _⟩
  | cons cell rest inductionHypothesis =>
      obtain ⟨inner, split, isInside⟩ := inductionHypothesis (start + 1) (some cell)
      refine ⟨(callAt? start before (cell :: (rest ++ behind))).toList ++ inner, ?_, ?_⟩
      · rw [List.cons_append, callsFrom, split, List.length_cons, getLast?_cons_or,
          List.append_assoc, Nat.add_right_comm, Nat.add_assoc]
      · intro call member
        rw [List.length_cons]
        obtain here | later := List.mem_append.1 member
        · have isStart := start_of_callAt?_eq_some (Option.mem_toList.1 here)
          omega
        · have further := isInside call later
          omega

/-- A call comes first, then those that begin inside of it, then those that begin behind it. -/
theorem exists_callsFrom_callParts_append
    {before : Option Cell}
    (mayStart : mayStartCall before = true)
    (parts : CallParts)
    (start : Nat)
    (behind : List Cell) :
    ∃ inner, callsFrom start before (parts.cells ++ behind) = parts.call start ::
        (inner ++ callsFrom (start + parts.cells.length) (some parts.closing) behind) ∧
      ∀ call ∈ inner, call.start < start + parts.cells.length := by
  obtain ⟨cell, others, isCells, -⟩ := parts.exists_cells_eq_cons
  obtain ⟨ahead, isConcat⟩ := parts.exists_cells_eq_concat
  have found := parts.callAt?_append start before behind
  rw [if_pos mayStart] at found
  obtain ⟨inner, split, isInside⟩ := exists_callsFrom_append (start + 1) (some cell) others behind
  have isLast : others.getLast?.or (some cell) = some parts.closing := by
    rw [← getLast?_cons_or cell others none, Option.or_none, ← isCells, isConcat,
      List.getLast?_concat]
  have isLength : start + 1 + others.length = start + parts.cells.length := by
    rw [isCells, List.length_cons, Nat.add_assoc, Nat.add_comm 1]
  rw [isLast, isLength] at split
  rw [isLength] at isInside
  refine ⟨inner, ?_, isInside⟩
  rw [isCells, List.cons_append] at found ⊢
  rw [callsFrom, found, split, ← isCells]
  rfl

/-- Calls in front of the byte up to which a text is covered are passed over. -/
theorem literalEditsFrom?_append_of_lt
    {source : Text}
    {covered : Nat}
    {inner : List CallRange}
    (isCovered : ∀ call ∈ inner, call.start < covered)
    (behind : List CallRange) :
    literalEditsFrom? source covered (inner ++ behind) =
      literalEditsFrom? source covered behind := by
  induction inner with
  | nil => rfl
  | cons call rest inductionHypothesis =>
      obtain ⟨here, later⟩ := List.forall_mem_cons.1 isCovered
      rw [List.cons_append, literalEditsFrom?, if_pos here, inductionHypothesis later]

/-! ## The course of the search -/

section Search

variable {source : Text}

/-- The calls among some cells to the colour functions, at their bytes. -/
def colorRanges
    (source : Text)
    (start : Nat)
    (before : Option Cell)
    (cells : List Cell) : List CallRange :=
  ((callsFrom start before cells).filter (Call.isNamed colorFunctions)).map (Call.range source)

theorem colorRanges_cons
    (start : Nat)
    (before : Option Cell)
    (cell : Cell)
    (rest : List Cell) :
    colorRanges source start before (cell :: rest) =
      (((callAt? start before (cell :: rest)).filter (Call.isNamed colorFunctions)).map
        (Call.range source)).toList ++ colorRanges source (start + 1) (some cell) rest := by
  rw [colorRanges, callsFrom, List.filter_append, List.map_append]
  congr 1
  cases callAt? start before (cell :: rest) with
  | none => rfl
  | some call => cases named : call.isNamed colorFunctions <;> simp [Option.filter_some, named]

theorem callAt?_congr
    {before previous : Option Cell}
    (mayStart : mayStartCall previous = mayStartCall before)
    (start : Nat)
    (cells : List Cell) :
    callAt? start previous cells = callAt? start before cells := by
  rw [callAt?, mayStart]
  rfl

/-- A call that the rule keeps gets no edit. -/
theorem literalEditsFrom?_cons_of_eq_none
    {before previous : Option Cell}
    (mayStart : mayStartCall previous = mayStartCall before)
    {cell : Cell}
    {rest : List Cell}
    (noLiteral : literalColor? before (cell :: rest) = none)
    {front : Text}
    (whole : source = front ++ chars (cell :: rest))
    {covered : Nat}
    (isCovered : covered ≤ front.byteLength) :
    literalEditsFrom? source covered (colorRanges source front.length previous (cell :: rest)) =
      literalEditsFrom? source covered
        (colorRanges source (front.length + 1) (some cell) rest) := by
  rw [colorRanges_cons]
  cases found : callAt? front.length previous (cell :: rest) with
  | none => rfl
  | some call =>
      rw [Option.filter_some]
      cases named : call.isNamed colorFunctions with
      | false => rfl
      | true =>
          obtain ⟨behind, isBehind⟩ := text_isPrefix_of_callAt?_eq_some found
          rw [← isBehind] at whole
          have isStart := start_of_callAt?_eq_some found
          rw [callAt?_congr mayStart, callAt?_eq_map_start] at found
          obtain ⟨placed, isPlaced, rfl⟩ := Option.map_eq_some_iff.1 found
          have notCovered : ¬(Call.range source { placed with start := front.length }).start <
              covered := by
            change ¬Text.byteLength (source.take front.length) < covered
            rw [whole, List.take_left]
            omega
          have noEdit : literalEdit? source
              (Call.range source { placed with start := front.length }) = some none := by
            rw [literalEdit?_range whole isStart]
            cases isColor : Text.includes placed.arguments "var(--" with
            | false => rfl
            | true =>
                have isCustom : isCustomColor placed = true := by
                  change (placed.isNamed colorFunctions && _) = true
                  rw [isColor, Bool.and_true]
                  exact named
                have noForm := literalColor?_eq_none_iff.1 noLiteral placed isPlaced isCustom
                change some (Option.map _ (Text.literal? placed.text)) = _
                rw [noForm]
                rfl
          rw [if_pos rfl, Option.map_some, Option.toList_some, List.singleton_append,
            literalEditsFrom?, if_neg notCovered, noEdit]
          rfl

/-- A colour comes first, then those that begin in front of its end, then those behind it. -/
theorem exists_colorRanges_callParts_append
    {before : Option Cell}
    (mayStart : mayStartCall before = true)
    {parts : CallParts}
    (isNamed : (parts.call 0).isNamed colorFunctions = true)
    {front : Text}
    {rest : List Cell}
    (whole : source = (front ++ chars parts.cells) ++ chars rest) :
    ∃ inner, colorRanges source front.length before (parts.cells ++ rest) =
        (parts.call front.length).range source :: (inner ++
          colorRanges source (front.length + parts.cells.length) (some parts.closing) rest) ∧
      ∀ range ∈ inner, range.start < Text.byteLength (front ++ chars parts.cells) := by
  obtain ⟨inner, split, isInside⟩ :=
    exists_callsFrom_callParts_append mayStart parts front.length rest
  refine ⟨(inner.filter (Call.isNamed colorFunctions)).map (Call.range source), ?_, ?_⟩
  · have isColor : (parts.call front.length).isNamed colorFunctions = true := isNamed
    rw [colorRanges, split, List.filter_cons_of_pos isColor, List.map_cons, List.filter_append,
      List.map_append]
    rfl
  · intro range member
    obtain ⟨call, isInner, rfl⟩ := List.mem_map.1 member
    have isBefore := isInside call (List.mem_filter.1 isInner).1
    rw [← length_chars, ← List.length_append] at isBefore
    have isShorter := byteLength_take_lt isBefore
      (whole ▸ (List.prefix_append _ (chars rest)).length_le)
    rwa [whole, List.take_left, ← whole] at isShorter

/-- A call that the rule replaces gets an edit, and the calls inside of it get none. -/
theorem exists_callParts_of_literalColor?_eq_some
    {before previous : Option Cell}
    (mayStart : mayStartCall previous = mayStartCall before)
    {cells : List Cell}
    {replacement : Replacement}
    (made : literalColor? before cells = some replacement)
    {front : Text}
    (whole : source = front ++ chars cells)
    {covered : Nat}
    (isCovered : covered ≤ front.byteLength) :
    ∃ (parts : CallParts) (rest : List Cell), cells = parts.cells ++ rest ∧
      replacement.furtherCells + 1 = parts.cells.length ∧
      literalEditsFrom? source covered (colorRanges source front.length previous cells) =
        (literalEditsFrom? source (Text.byteLength (front ++ chars parts.cells))
          (colorRanges source (front.length + parts.cells.length) (some parts.closing) rest)).map
            (⟨front.byteLength, Text.byteLength (front ++ chars parts.cells),
              replacement.new⟩ :: ·) := by
  obtain ⟨placed, literal, isPlaced, isColor, written, rfl⟩ :=
    exists_call_of_literalColor?_eq_some made
  obtain ⟨starts, parts, rest, rfl, rfl⟩ := exists_callParts_of_callAt?_eq_some isPlaced
  obtain ⟨isNamed, isColored⟩ := Bool.and_eq_true_iff.1 isColor
  have isText (start : Nat) : (parts.call start).text = chars parts.cells :=
    (parts.chars_cells start).symm
  rw [chars_append] at whole
  obtain ⟨inner, split, isInside⟩ := exists_colorRanges_callParts_append (mayStart.trans starts)
    isNamed (whole.trans (List.append_assoc front _ _).symm)
  have notCovered : ¬(Call.range source (parts.call front.length)).start < covered := by
    change ¬Text.byteLength (source.take front.length) < covered
    rw [whole, List.take_left]
    omega
  have edited := @literalEdit?_range source front _ (parts.call front.length)
    (by rw [isText, whole]) rfl
  rw [isText] at edited written
  change _ = some (if Text.includes (parts.call 0).arguments "var(--" then _ else _) at edited
  rw [isColored, if_pos rfl, written, Option.map_some] at edited
  refine ⟨parts, rest, rfl, ?_, ?_⟩
  · have isLast := parts.closing_call 0
    dsimp only
    rw [isText, length_chars]
    omega
  · rw [split, literalEditsFrom?, if_neg notCovered, edited]
    change (literalEditsFrom? source (Text.byteLength (front ++ chars parts.cells)) _).map _ = _
    rw [literalEditsFrom?_append_of_lt isInside]

/-- The edits for the calls among some cells are those of the patch. -/
theorem literalEditsFrom?_colorRanges
    {before previous : Option Cell}
    (mayStart : mayStartCall previous = mayStartCall before)
    {front : Text}
    {cells : List Cell}
    (whole : source = front ++ chars cells)
    {covered : Nat}
    (isCovered : covered ≤ front.byteLength) :
    literalEditsFrom? source covered (colorRanges source front.length previous cells) =
      some ((customColorRule.patchFrom before 0 cells).edits front.byteLength) := by
  induction length : cells.length using Nat.strong_induction_on
    generalizing before previous front cells covered with
  | _ count inductionHypothesis =>
  subst length
  cases cells with
  | nil => rfl
  | cons cell rest =>
      unfold Rule.patchFrom
      cases made : customColorRule.replacement? before (cell :: rest) with
      | none =>
          have behind : source = (front ++ [cell.char]) ++ chars rest := by
            rw [whole, List.append_assoc]
            rfl
          have reached : covered ≤ Text.byteLength (front ++ [cell.char]) := by
            rw [Text.byteLength_append]
            omega
          have further := inductionHypothesis _ (Nat.lt_succ_self _)
            (rfl : mayStartCall (some cell) = mayStartCall (some cell)) behind reached rfl
          rw [List.length_append, Text.byteLength_append] at further
          rw [literalEditsFrom?_cons_of_eq_none mayStart made whole isCovered]
          exact further
      | some replacement =>
          obtain ⟨parts, behind, isCells, furtherCells, edits⟩ :=
            exists_callParts_of_literalColor?_eq_some mayStart made whole isCovered
          have isBehind : source = (front ++ chars parts.cells) ++ chars behind := by
            rw [whole, isCells, chars_append, List.append_assoc]
          have mayFollow : mayStartCall (some parts.closing) =
              mayStartCall (customColorRule.replace before) := by
            rw [Cell.eq_of_isCode parts.closes]
            rfl
          have shorter : behind.length < (cell :: rest).length := by
            rw [isCells, List.length_append]
            omega
          have further := inductionHypothesis _ shorter mayFollow isBehind (Nat.le_refl _) rfl
          rw [List.length_append, length_chars] at further
          have stretch : cell.char :: chars (rest.take replacement.furtherCells) =
              chars parts.cells := by
            rw [← chars_cons, ← List.take_succ_cons, furtherCells, isCells, List.take_left]
          have isRest : rest.drop replacement.furtherCells = behind := by
            rw [← List.drop_succ_cons, furtherCells, isCells, List.drop_left]
          dsimp only
          rw [edits, further, stretch,
            customColorRule.patchFrom_eq_patchFrom_drop _ replacement.furtherCells, isRest,
            Option.map_some, Patch.edits, ← Text.byteLength_append]

end Search

/-- The edits that make colours literal are those of the patch. -/
theorem customColorEdits?_eq (source : Text) :
    customColorEdits? source = some ((customColorPatch source).edits 0) := by
  have none : mayStartCall none = mayStartCall none := rfl
  rw [customColorEdits?, callRanges?_eq]
  exact @literalEditsFrom?_colorRanges source _ _ none [] _ (chars_cells source).symm 0
    (Nat.le_refl 0)

/-- A colour inside of another one gets no edit of its own; bytes are counted, not characters. -/
example :
    customColorEdits? "é rgb(var(--ü), rgb(var(--b)))" =
      some [⟨3, 32, "~\"rgb(var(--ü), rgb(var(--b)))\""⟩] := by
  decide +kernel

end Lowering
end LessTheme
