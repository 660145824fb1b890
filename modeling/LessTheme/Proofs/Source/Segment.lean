import LessTheme.Source.Segment

/-!
# Segments and cells

The segments of a text hold its characters in order, and the lexical classes
among segments are those among cells.  A string or a comment is a segment of
its own.
-/

namespace LessTheme
namespace Source

theorem segmentsOfCells_cons
    (cell : Cell)
    (rest : List Cell) :
    segmentsOfCells (cell :: rest) =
      if rest.head?.any (·.continues cell) then
        (segmentsOfCells rest).modifyHead fun segment => ⟨cell.kind, cell.char :: segment.text⟩
      else ⟨cell.kind, [cell.char]⟩ :: segmentsOfCells rest := by
  cases rest with
  | nil => rfl
  | cons next rest => rfl

/-- The first segment of some cells begins with the first cell. -/
theorem exists_segmentsOfCells_cons
    (cell : Cell)
    (rest : List Cell) :
    ∃ text others,
      segmentsOfCells (cell :: rest) = ⟨cell.kind, cell.char :: text⟩ :: others := by
  cases rest with
  | nil => exact ⟨[], [], rfl⟩
  | cons next rest =>
      obtain ⟨text, others, segments⟩ := exists_segmentsOfCells_cons next rest
      unfold segmentsOfCells
      split
      · exact ⟨next.char :: text, others, by rw [segments]; rfl⟩
      · exact ⟨[], _, rfl⟩

/-- The segments of some cells hold the characters of the cells in order. -/
theorem flatMap_text_segmentsOfCells
    (cells : List Cell) :
    (segmentsOfCells cells).flatMap Segment.text = chars cells := by
  induction cells with
  | nil => rfl
  | cons cell rest inductionHypothesis =>
      cases rest with
      | nil => rfl
      | cons next rest =>
          obtain ⟨text, others, segments⟩ := exists_segmentsOfCells_cons next rest
          rw [segments] at inductionHypothesis
          unfold segmentsOfCells
          split
          · rw [segments]
            simpa [chars] using inductionHypothesis
          · rw [segments]
            simpa [chars] using inductionHypothesis

@[simp] theorem flatMap_text_segments
    (text : Text) :
    (segments text).flatMap Segment.text = text := by
  rw [segments, flatMap_text_segmentsOfCells, chars_cells]

/-- The segments of one lexical class hold the characters of that class in order. -/
theorem flatMap_text_filter_segmentsOfCells
    (kind : LexicalClass)
    (cells : List Cell) :
    ((segmentsOfCells cells).filter (·.kind == kind)).flatMap Segment.text =
      chars (cells.filter (·.kind == kind)) := by
  induction cells with
  | nil => rfl
  | cons cell rest inductionHypothesis =>
      cases rest with
      | nil =>
          simp only [segmentsOfCells, List.filter_cons, List.filter_nil]
          split <;> rfl
      | cons next rest =>
          obtain ⟨text, others, segments⟩ := exists_segmentsOfCells_cons next rest
          rw [segments] at inductionHypothesis
          unfold segmentsOfCells
          split
          case isTrue continues =>
            have same : next.kind = cell.kind := by
              simp only [Cell.continues, Bool.and_eq_true, beq_iff_eq] at continues
              exact continues.1
            rw [same] at segments inductionHypothesis
            rw [segments, List.modifyHead_cons]
            cases isKind : cell.kind == kind <;>
              simpa [isKind, chars] using inductionHypothesis
          case isFalse =>
            rw [segments]
            cases isKind : cell.kind == kind <;>
              simpa [isKind, chars] using inductionHypothesis

/-- The lexical classes among the segments of some cells are those among the cells. -/
theorem exists_segment_kind_iff
    {cells : List Cell}
    {kind : LexicalClass} :
    (∃ segment ∈ segmentsOfCells cells, segment.kind = kind) ↔
      ∃ cell ∈ cells, cell.kind = kind := by
  induction cells with
  | nil => simp [segmentsOfCells]
  | cons cell rest inductionHypothesis =>
      cases rest with
      | nil => simp [segmentsOfCells]
      | cons next rest =>
          obtain ⟨text, others, segments⟩ := exists_segmentsOfCells_cons next rest
          rw [segments] at inductionHypothesis
          simp only [List.mem_cons, exists_eq_or_imp] at inductionHypothesis ⊢
          unfold segmentsOfCells
          split
          case isTrue continues =>
            have same : next.kind = cell.kind := by
              simp only [Cell.continues, Bool.and_eq_true, beq_iff_eq] at continues
              exact continues.1
            rw [segments, ← inductionHypothesis]
            simp [same]
          case isFalse =>
            rw [segments, ← inductionHypothesis]
            simp

/-! ## Strings and comments -/

/-- The cells of a text inside of a string or a comment. -/
def inside (kind : LexicalClass) (text : Text) : List Cell :=
  text.map fun char => ⟨char, kind, false⟩

/-- The cells of a text that is a string or a comment. -/
def opened (kind : LexicalClass) : Text → List Cell
  | [] => []
  | char :: rest => ⟨char, kind, true⟩ :: inside kind rest

@[simp] theorem chars_inside
    (kind : LexicalClass)
    (text : Text) :
    chars (inside kind text) = text := by
  simp [chars, inside, Function.comp_def]

@[simp] theorem chars_opened
    (kind : LexicalClass)
    (text : Text) :
    chars (opened kind text) = text := by
  cases text with
  | nil => rfl
  | cons char rest => exact congrArg (char :: ·) (chars_inside kind rest)

theorem kind_of_mem_opened
    {kind : LexicalClass}
    {text : Text}
    {cell : Cell}
    (member : cell ∈ opened kind text) :
    cell.kind = kind := by
  cases text with
  | nil => contradiction
  | cons char rest =>
      obtain rfl | inRest := List.mem_cons.1 member
      · rfl
      · obtain ⟨char, -, rfl⟩ := List.mem_map.1 inRest
        rfl

/-- Cells of one class are one segment, up to a cell of another class. -/
theorem segmentsOfCells_cons_inside_append
    {kind : LexicalClass}
    {first : Cell}
    {behind : List Cell}
    (same : first.kind = kind)
    (ends : ∀ cell, behind.head? = some cell → cell.kind ≠ kind)
    (text : Text) :
    segmentsOfCells (first :: (inside kind text ++ behind)) =
      ⟨kind, first.char :: text⟩ :: segmentsOfCells behind := by
  induction text generalizing first with
  | nil =>
      have isEnd : behind.head?.any (·.continues first) = false := by
        cases isNext : behind.head? with
        | none => rfl
        | some cell => simp [Cell.continues, same, ends cell isNext]
      rw [inside, List.map_nil, List.nil_append, segmentsOfCells_cons, isEnd, same]
      rfl
  | cons char rest inductionHypothesis =>
      have goesOn : Cell.continues ⟨char, kind, false⟩ first = true := by
        simp [Cell.continues, same]
      rw [inside, List.map_cons, List.cons_append, segmentsOfCells_cons, List.head?_cons,
        Option.any_some, goesOn, if_pos rfl, ← inside, inductionHypothesis rfl, same]
      rfl

theorem segmentsOfCells_opened_append
    {kind : LexicalClass}
    {text : Text}
    {behind : List Cell}
    (nonempty : text ≠ [])
    (ends : ∀ cell, behind.head? = some cell → cell.kind ≠ kind) :
    segmentsOfCells (opened kind text ++ behind) = ⟨kind, text⟩ :: segmentsOfCells behind := by
  obtain ⟨char, rest, rfl⟩ := List.exists_cons_of_ne_nil nonempty
  have same : (⟨char, kind, true⟩ : Cell).kind = kind := rfl
  exact segmentsOfCells_cons_inside_append same ends rest

/-! ## Segments of joined cells -/

/-- Where a segment begins, the segments before and behind are those of the two parts. -/
theorem segmentsOfCells_append
    {front back : List Cell}
    (apart : ∀ last ∈ front.getLast?, ∀ first ∈ back.head?, first.continues last = false) :
    segmentsOfCells (front ++ back) = segmentsOfCells front ++ segmentsOfCells back := by
  induction front with
  | nil => rfl
  | cons cell rest inductionHypothesis =>
      cases rest with
      | nil =>
          have ends : back.head?.any (·.continues cell) = false := by
            cases isFirst : back.head? with
            | none => rfl
            | some first => exact apart cell rfl first isFirst
          rw [List.singleton_append, segmentsOfCells_cons, ends]
          rfl
      | cons next others =>
          have further := inductionHypothesis apart
          obtain ⟨text, segments, first⟩ := exists_segmentsOfCells_cons next others
          rw [List.cons_append, segmentsOfCells_cons, further, first, segmentsOfCells_cons, first]
          by_cases continues : next.continues cell = true
          · simp [continues]
          · simp [continues]

/-- Cells of one class stand at the front of one segment. -/
theorem exists_segmentsOfCells_inside_append
    {kind : LexicalClass}
    {text : Text}
    (nonempty : text ≠ [])
    (rest : List Cell) :
    ∃ further others,
      segmentsOfCells (inside kind text ++ rest) = ⟨kind, text ++ further⟩ :: others := by
  induction text with
  | nil => contradiction
  | cons char text inductionHypothesis =>
      cases text with
      | nil =>
          obtain ⟨further, others, segments⟩ := exists_segmentsOfCells_cons ⟨char, kind, false⟩ rest
          exact ⟨further, others, segments⟩
      | cons next text =>
          obtain ⟨further, others, segments⟩ := inductionHypothesis (List.cons_ne_nil next text)
          refine ⟨further, others, ?_⟩
          have goesOn : (inside kind (next :: text) ++ rest).head?.any
              (·.continues ⟨char, kind, false⟩) = true := by
            simp [inside, Cell.continues]
          change segmentsOfCells (⟨char, kind, false⟩ :: (inside kind (next :: text) ++ rest)) = _
          rw [segmentsOfCells_cons, goesOn, if_pos rfl, segments]
          rfl

/-- Cells of one class at the end belong to the last segment. -/
theorem exists_segmentsOfCells_append_inside
    {kind : LexicalClass}
    {text : Text}
    (nonempty : text ≠ [])
    (front : List Cell) :
    ∃ before start,
      segmentsOfCells (front ++ inside kind text) = before ++ [⟨kind, start ++ text⟩] ∧
        before.flatMap Segment.text ++ start = chars front := by
  have split : ∃ before start,
      segmentsOfCells (front ++ inside kind text) = before ++ [⟨kind, start ++ text⟩] := by
    induction front with
    | nil =>
        obtain ⟨char, rest, rfl⟩ := List.exists_cons_of_ne_nil nonempty
        have ends : ∀ cell : Cell, [].head? = some cell → cell.kind ≠ kind := nofun
        have whole := segmentsOfCells_cons_inside_append
          (show (⟨char, kind, false⟩ : Cell).kind = kind from rfl) ends rest
        rw [List.append_nil] at whole
        exact ⟨[], [], whole⟩
    | cons cell rest inductionHypothesis =>
        obtain ⟨before, start, segments⟩ := inductionHypothesis
        rw [List.cons_append, segmentsOfCells_cons, segments]
        split
        case isFalse => exact ⟨⟨cell.kind, [cell.char]⟩ :: before, start, rfl⟩
        case isTrue continued =>
          cases before with
          | cons segment others => exact ⟨_ :: others, start, rfl⟩
          | nil =>
              -- The only segment is that of the next cell, which has the class of this one.
              obtain ⟨next, isNext, continues⟩ := (Option.any_eq_true _ _).1 continued
              obtain ⟨others, isRest⟩ := List.head?_eq_some_iff.1 isNext
              obtain ⟨nextText, further, nextSegments⟩ := exists_segmentsOfCells_cons next others
              rw [isRest, nextSegments] at segments
              have sameNext : next.kind = kind :=
                congrArg Segment.kind (List.cons.inj segments).1
              have sameCell : next.kind = cell.kind :=
                eq_of_beq (Bool.and_eq_true_iff.1 continues).1
              exact ⟨[], cell.char :: start, by rw [← sameCell, sameNext]; rfl⟩
  obtain ⟨before, start, segments⟩ := split
  refine ⟨before, start, segments, ?_⟩
  have same := flatMap_text_segmentsOfCells (front ++ inside kind text)
  rw [segments, chars, List.map_append, ← chars, ← chars, chars_inside] at same
  simpa [← List.append_assoc] using same

/-- A string or a comment and the segment behind it. -/
theorem exists_segmentsOfCells_opened_append_inside
    {kind other : LexicalClass}
    (different : other ≠ kind)
    {text behind : Text}
    (nonempty : text ≠ [])
    (behindNonempty : behind ≠ [])
    (rest : List Cell) :
    ∃ further segments,
      segmentsOfCells (opened kind text ++ (inside other behind ++ rest)) =
        ⟨kind, text⟩ :: ⟨other, behind ++ further⟩ :: segments := by
  obtain ⟨further, segments, behindSegments⟩ :=
    exists_segmentsOfCells_inside_append behindNonempty rest
  have ends : ∀ cell, (inside other behind ++ rest).head? = some cell → cell.kind ≠ kind := by
    intro cell isFirst
    obtain ⟨char, others, rfl⟩ := List.exists_cons_of_ne_nil behindNonempty
    obtain rfl := Option.some.inj isFirst
    exact different
  refine ⟨further, segments, ?_⟩
  rw [segmentsOfCells_opened_append nonempty ends, behindSegments]

end Source
end LessTheme
