import LessTheme.Proofs.Source.Part
import LessTheme.Proofs.Source.Segment
import LessTheme.Proofs.Text.Pieces
import LessTheme.Text.WhiteSpace
import Mathlib.Data.List.Chain
import Mathlib.Data.List.DropRight

/-!
# Collapsed white space

White space is collapsed without regard to strings.  Collapsing only the white
space outside of strings gives the same text exactly if the white space in the
strings consists of single spaces.
-/

namespace LessTheme
namespace Source

/-! ## Runs of gaps -/

/-- A text with a space in front, if there is any text. -/
def behindSpace : Text → Text
  | [] => []
  | char :: rest => ' ' :: char :: rest

theorem behindSpace_injective : Function.Injective behindSpace := by
  intro left right same
  cases left <;> cases right
  · rfl
  · contradiction
  · contradiction
  · exact (List.cons.inj same).2

/--
The characters of some cells that are no gaps, with a space for every run of
gaps between them.  The flag tells whether such a character stands right before.
-/
def squeeze (isGap : Cell → Bool) : Bool → List Cell → Text
  | _, [] => []
  | started, cell :: rest =>
      if isGap cell then
        if started then behindSpace (squeeze isGap false rest) else squeeze isGap false rest
      else cell.char :: squeeze isGap true rest

theorem squeeze_cons_of_gap
    {isGap : Cell → Bool}
    {cell : Cell}
    (gap : isGap cell = true)
    (started : Bool)
    (rest : List Cell) :
    squeeze isGap started (cell :: rest) =
      if started then behindSpace (squeeze isGap false rest) else squeeze isGap false rest :=
  if_pos gap

theorem squeeze_cons_of_noGap
    {isGap : Cell → Bool}
    {cell : Cell}
    (noGap : isGap cell = false)
    (started : Bool)
    (rest : List Cell) :
    squeeze isGap started (cell :: rest) = cell.char :: squeeze isGap true rest :=
  if_neg (by simp [noGap])

theorem squeeze_append_of_gaps
    {isGap : Cell → Bool}
    {gaps : List Cell}
    (areGaps : ∀ cell ∈ gaps, isGap cell = true)
    (started : Bool)
    (cells : List Cell) :
    squeeze isGap started (cells ++ gaps) = squeeze isGap started cells := by
  have nothing : ∀ started, squeeze isGap started gaps = [] := by
    induction gaps with
    | nil => exact fun _ => rfl
    | cons cell rest inductionHypothesis =>
        obtain ⟨here, further⟩ := List.forall_mem_cons.1 areGaps
        intro started
        rw [squeeze_cons_of_gap here, inductionHypothesis further]
        cases started <;> rfl
  induction cells generalizing started with
  | nil => exact nothing started
  | cons cell rest inductionHypothesis =>
      rw [List.cons_append, squeeze, squeeze, inductionHypothesis, inductionHypothesis]

/-- What stands between gaps is kept as it is. -/
theorem isInfix_squeeze
    {isGap : Cell → Bool}
    {run : List Cell}
    (noGap : ∀ cell ∈ run, isGap cell = false)
    (started : Bool)
    (front back : List Cell) :
    chars run <:+: squeeze isGap started (front ++ (run ++ back)) := by
  induction front generalizing started with
  | nil =>
      apply List.IsPrefix.isInfix
      rw [List.nil_append]
      induction run generalizing started with
      | nil => exact List.nil_prefix
      | cons cell rest inductionHypothesis =>
          obtain ⟨here, further⟩ := List.forall_mem_cons.1 noGap
          rw [List.cons_append, squeeze_cons_of_noGap here, chars_cons]
          exact List.cons_prefix_cons.2 ⟨rfl, inductionHypothesis further true⟩
  | cons cell rest inductionHypothesis =>
      rw [List.cons_append, squeeze]
      split
      · split
        · have behind := inductionHypothesis false
          cases squeezed : squeeze isGap false (rest ++ (run ++ back)) with
          | nil => rwa [squeezed] at behind
          | cons char others =>
              rw [squeezed] at behind
              exact behind.trans (List.suffix_cons ' ' _).isInfix
        · exact inductionHypothesis false
      · exact (inductionHypothesis true).trans (List.suffix_cons _ _).isInfix

/-! ## White space in and outside of strings -/

/-- White space, also that of strings. -/
def isBlankCell (cell : Cell) : Bool := isWhiteSpace cell.char

/-- White space that belongs to no string. -/
def isOuterBlank (cell : Cell) : Bool := isWhiteSpace cell.char && cell.kind != .string

/-- The text of some cells with the white space outside of strings collapsed. -/
def collapseOutsideStrings (cells : List Cell) : Text := squeeze isOuterBlank false cells

theorem intercalate_cons_eq_append_behindSpace
    {words : List Text}
    (nonempty : ∀ word ∈ words, word ≠ [])
    (first : Text) :
    List.intercalate [' '] (first :: words) =
      first ++ behindSpace (List.intercalate [' '] words) := by
  cases words with
  | nil => simp [behindSpace]
  | cons next others =>
      obtain ⟨char, rest, rfl⟩ := List.exists_cons_of_ne_nil (nonempty next List.mem_cons_self)
      have begins : (List.intercalate [' '] ((char :: rest) :: others)).head? = some char :=
        Text.head?_intercalate (List.cons_ne_nil char rest) [' '] others
      obtain ⟨tail, split⟩ := List.head?_eq_some_iff.1 begins
      rw [List.intercalate_cons_cons, split, List.append_assoc]
      rfl

/-- Collapsing a text squeezes all of its white space. -/
theorem squeeze_isBlankCell
    (cells : List Cell) :
    squeeze isBlankCell false cells = (chars cells).collapse ∧
      ∃ piece pieces, Text.splitWhere isWhiteSpace (chars cells) = piece :: pieces ∧
        squeeze isBlankCell true cells = piece ++ behindSpace
          (List.intercalate [' '] (pieces.filter fun piece => !piece.isEmpty)) := by
  induction cells with
  | nil => exact ⟨rfl, [], [], rfl, rfl⟩
  | cons cell rest inductionHypothesis =>
      obtain ⟨collapsed, piece, pieces, split, behind⟩ := inductionHypothesis
      rw [chars_cons]
      cases isBlank : isWhiteSpace cell.char with
      | true =>
          have splitHere : Text.splitWhere isWhiteSpace (cell.char :: chars rest) =
              [] :: Text.splitWhere isWhiteSpace (chars rest) :=
            if_pos isBlank
          have sameWords : Text.collapse (cell.char :: chars rest) = (chars rest).collapse := by
            rw [Text.collapse, Text.words, splitHere]
            rfl
          refine ⟨?_, [], _, splitHere, ?_⟩
          · rw [squeeze_cons_of_gap isBlank, sameWords]
            exact collapsed
          · rw [squeeze_cons_of_gap isBlank, collapsed]
            rfl
      | false =>
          have splitHere : Text.splitWhere isWhiteSpace (cell.char :: chars rest) =
              (cell.char :: piece) :: pieces := by
            rw [Text.splitWhere, if_neg (by simp [isBlank]), split]
            rfl
          have nonempty : ∀ word ∈ pieces.filter fun piece => !piece.isEmpty, word ≠ [] := by
            intro word member
            simpa using (List.mem_filter.1 member).2
          refine ⟨?_, _, pieces, splitHere, ?_⟩
          · rw [squeeze_cons_of_noGap isBlank, behind, Text.collapse, Text.words, splitHere,
              List.filter_cons_of_pos rfl, intercalate_cons_eq_append_behindSpace nonempty]
            rfl
          · rw [squeeze_cons_of_noGap isBlank, behind]
            rfl

/-- White space behind a text is lost. -/
theorem collapse_append_spaces
    {spaces : Text}
    (blank : ∀ char ∈ spaces, isWhiteSpace char = true)
    (text : Text) :
    Text.collapse (text ++ spaces) = text.collapse := by
  have areGaps : ∀ cell ∈ inside .code spaces, isBlankCell cell = true := by
    intro cell member
    obtain ⟨char, inSpaces, rfl⟩ := List.mem_map.1 member
    exact blank char inSpaces
  have same := squeeze_append_of_gaps areGaps false (inside .code text)
  rw [(squeeze_isBlankCell _).1, (squeeze_isBlankCell _).1, chars_append] at same
  simpa using same

theorem collapse_trimEnd (text : Text) : text.trimEnd.collapse = text.collapse := by
  have split : text.trimEnd ++ text.rtakeWhile isWhiteSpace = text :=
    List.rdropWhile_append_rtakeWhile
  have blank : ∀ char ∈ text.rtakeWhile isWhiteSpace, isWhiteSpace char = true :=
    fun _ => List.mem_rtakeWhile_imp
  rw [← collapse_append_spaces blank text.trimEnd, split]

/-! ## White space in strings -/

/-- White space in a string is a single space, with other characters around it. -/
def HasPlainStrings (cells : List Cell) : Prop :=
  ∀ cell rest, cell :: rest <:+ cells → cell.kind = .string → isWhiteSpace cell.char = true →
    cell.char = ' ' ∧ ∃ next ∈ rest.head?, isWhiteSpace next.char = false

theorem hasPlainStrings_cons_iff
    {cell : Cell}
    {rest : List Cell} :
    HasPlainStrings (cell :: rest) ↔
      (cell.kind = .string → isWhiteSpace cell.char = true →
        cell.char = ' ' ∧ ∃ next ∈ rest.head?, isWhiteSpace next.char = false) ∧
        HasPlainStrings rest := by
  constructor
  · intro plain
    exact ⟨plain cell rest (List.suffix_refl _), fun first others isSuffix =>
      plain first others (isSuffix.trans (List.suffix_cons cell rest))⟩
  · rintro ⟨here, further⟩ first others isSuffix
    obtain same | isSuffix := List.suffix_cons_iff.1 isSuffix
    · obtain ⟨rfl, rfl⟩ := List.cons.inj same
      exact here
    · exact further first others isSuffix

/-- No string begins with white space. -/
def BeginStringsDark (cells : List Cell) : Prop :=
  cells.IsChain fun cell next =>
    cell.kind ≠ .string → next.kind = .string → isWhiteSpace next.char = false

theorem isWhiteSpace_of_head?_squeeze
    {cells : List Cell}
    {char : Char}
    (isFirst : (squeeze isBlankCell false cells).head? = some char) :
    isWhiteSpace char = false := by
  induction cells with
  | nil => contradiction
  | cons cell rest inductionHypothesis =>
      cases isBlank : isBlankCell cell with
      | true =>
          rw [squeeze_cons_of_gap isBlank] at isFirst
          exact inductionHypothesis isFirst
      | false =>
          rw [squeeze_cons_of_noGap isBlank] at isFirst
          obtain rfl := Option.some.inj isFirst
          exact isBlank

/-- The white space of a string is kept, also in front of further white space. -/
theorem isWhiteSpace_of_head?_squeeze_isOuterBlank
    {cell : Cell}
    {rest : List Cell}
    (isBlank : isWhiteSpace cell.char = true)
    {char : Char}
    (isFirst : (squeeze isOuterBlank true (cell :: rest)).head? = some char) :
    isWhiteSpace char = true := by
  cases isOuter : isOuterBlank cell with
  | true =>
      rw [squeeze_cons_of_gap isOuter, if_pos rfl] at isFirst
      cases squeezed : squeeze isOuterBlank false rest with
      | nil =>
          rw [squeezed] at isFirst
          contradiction
      | cons =>
          rw [squeezed] at isFirst
          obtain rfl := Option.some.inj isFirst
          rfl
  | false =>
      rw [squeeze_cons_of_noGap isOuter] at isFirst
      obtain rfl := Option.some.inj isFirst
      exact isBlank

/-- White space is collapsed to itself if it is a single space in front of something dark. -/
theorem behindSpace_squeeze_eq_iff
    {cell : Cell}
    {rest : List Cell} :
    behindSpace (squeeze isBlankCell false rest) =
        cell.char :: squeeze isOuterBlank true rest ↔
      (cell.char = ' ' ∧ ∃ next ∈ rest.head?, isWhiteSpace next.char = false) ∧
        squeeze isBlankCell true rest = squeeze isOuterBlank true rest := by
  cases rest with
  | nil => simp [squeeze, behindSpace]
  | cons next others =>
      cases isNextBlank : isWhiteSpace next.char with
      | false =>
          have noOuter : isOuterBlank next = false := by simp [isOuterBlank, isNextBlank]
          have noBlank : isBlankCell next = false := isNextBlank
          rw [squeeze_cons_of_noGap noBlank, squeeze_cons_of_noGap noBlank,
            squeeze_cons_of_noGap noOuter]
          constructor
          · intro same
            obtain ⟨isSpace, restSame⟩ := List.cons.inj same
            exact ⟨⟨isSpace.symm, next, rfl, isNextBlank⟩, restSame⟩
          · rintro ⟨⟨isSpace, -⟩, restSame⟩
            rw [isSpace, ← restSame]
            rfl
      | true =>
          -- One text goes on with a dark character, the other one with white space.
          refine iff_of_false (fun same => ?_) (by simp [isNextBlank])
          cases squeezed : squeeze isBlankCell false (next :: others) with
          | nil =>
              rw [squeezed] at same
              contradiction
          | cons char text =>
              rw [squeezed] at same
              have dark := isWhiteSpace_of_head?_squeeze (congrArg List.head? squeezed)
              have behind := congrArg List.head? (List.cons.inj same).2
              have blank := isWhiteSpace_of_head?_squeeze_isOuterBlank isNextBlank behind.symm
              rw [dark] at blank
              contradiction

/--
All white space and that outside of strings are collapsed to the same text
exactly if the strings are plain.
-/
theorem squeeze_eq_iff
    {cells : List Cell}
    {started : Bool}
    (beginDark : BeginStringsDark cells)
    (first : started = false → ∀ cell ∈ cells.head?, cell.kind = .string →
      isWhiteSpace cell.char = false) :
    squeeze isBlankCell started cells = squeeze isOuterBlank started cells ↔
      HasPlainStrings cells := by
  induction cells generalizing started with
  | nil =>
      refine iff_of_true rfl fun cell rest isSuffix => ?_
      exact absurd (List.suffix_nil.1 isSuffix) (List.cons_ne_nil cell rest)
  | cons cell rest inductionHypothesis =>
      have further : squeeze isBlankCell true rest = squeeze isOuterBlank true rest ↔
          HasPlainStrings rest :=
        inductionHypothesis (List.IsChain.tail beginDark) nofun
      rw [hasPlainStrings_cons_iff]
      cases isBlank : isWhiteSpace cell.char with
      | false =>
          have noOuter : isOuterBlank cell = false := by simp [isOuterBlank, isBlank]
          rw [squeeze_cons_of_noGap isBlank, squeeze_cons_of_noGap noOuter, List.cons.injEq,
            further]
          simp
      | true =>
          by_cases inString : cell.kind = .string
          · have noOuter : isOuterBlank cell = false := by simp [isOuterBlank, inString]
            have isStarted : started = true := by
              by_contra notStarted
              have dark := first (Bool.eq_false_iff.2 notStarted) cell rfl inString
              rw [dark] at isBlank
              contradiction
            rw [squeeze_cons_of_gap isBlank, isStarted, if_pos rfl, squeeze_cons_of_noGap noOuter,
              behindSpace_squeeze_eq_iff, further]
            simp [inString]
          · have isOuter : isOuterBlank cell = true := by simp [isOuterBlank, isBlank, inString]
            have restFirst : ∀ next ∈ rest.head?, next.kind = .string →
                isWhiteSpace next.char = false := by
              intro next isNext
              obtain ⟨others, rfl⟩ := List.head?_eq_some_iff.1 isNext
              exact (List.isChain_cons_cons.1 beginDark).1 inString
            have behind : squeeze isBlankCell false rest = squeeze isOuterBlank false rest ↔
                HasPlainStrings rest :=
              inductionHypothesis (List.IsChain.tail beginDark) fun _ => restFirst
            rw [squeeze_cons_of_gap isBlank, squeeze_cons_of_gap isOuter]
            cases started with
            | true => simpa [inString, behindSpace_injective.eq_iff] using behind
            | false => simpa [inString] using behind

/-! ## Strings of a text -/

/-- A mode outside of strings. -/
def IsOutsideString : Mode → Prop
  | .string _ _ | .escape _ _ => False
  | .code _ _ | .commentOpening _ | .comment _ _ | .lineComment => True

theorem isWhiteSpace_of_isOutsideString
    {mode : Mode}
    (isOutside : IsOutsideString mode)
    {char : Char}
    {next : Option Char}
    (inString : (mode.read char next).1.kind = .string) :
    isWhiteSpace char = false := by
  cases mode with
  | string | escape => contradiction
  | code depth afterColon =>
      rw [Mode.read] at inString
      split_ifs at inString with isQuote
      obtain rfl | rfl := isQuote
      all_goals rfl
  | comment depth afterStar =>
      rw [Mode.read] at inString
      split_ifs at inString
  | lineComment =>
      rw [Mode.read] at inString
      split_ifs at inString
  | commentOpening => contradiction

theorem isOutsideString_of_read
    {mode : Mode}
    {char : Char}
    {next : Option Char}
    (noString : (mode.read char next).1.kind ≠ .string) :
    IsOutsideString (mode.read char next).2 := by
  cases mode <;> rw [Mode.read] at noString ⊢
  case escape => contradiction
  case commentOpening => trivial
  all_goals
    split_ifs at noString ⊢
    all_goals trivial

/-- A string behind what is no string begins with its quote. -/
theorem beginStringsDark_cellsBefore
    (mode : Mode)
    (text : Text)
    (next : Option Char) :
    BeginStringsDark (mode.cellsBefore text next) := by
  induction text generalizing mode with
  | nil => exact .nil
  | cons char rest inductionHypothesis =>
      have further := inductionHypothesis (mode.read char (rest.head?.or next)).2
      cases rest with
      | nil => exact .singleton _
      | cons second others =>
          refine List.IsChain.cons_cons (fun noString inString => ?_) further
          rw [Mode.read_char]
          exact isWhiteSpace_of_isOutsideString (isOutsideString_of_read noString) inString

end Source
end LessTheme
