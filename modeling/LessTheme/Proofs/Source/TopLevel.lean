import LessTheme.Proofs.Source.Split
import LessTheme.Proofs.Text.Pieces

/-!
# Splitting loses nothing

The pieces of a text, joined by the separator, are the text again, and the
separators between them are exactly those that stand as code where no bracket
is open.  The parts of a value stand in it one behind the other, and exactly
the white space of code outside of all brackets belongs to none of them.
-/

namespace LessTheme
namespace Source

/-- No parenthesis and no bracket is open behind some cells; what is closed too often is ignored. -/
def IsAtTop (front : List Cell) : Prop := front.foldl bracketDepth 0 = 0

theorem bracketDepth_of_isBracket_eq_false
    {cell : Cell}
    (noBracket : isBracket cell.char = false)
    (depth : Nat) :
    bracketDepth depth cell = depth := by
  have noCode : ∀ char, isBracket char = true → cell.isCode char = false := by
    intro char isBracket
    refine Bool.eq_false_iff.2 fun isCode => ?_
    rw [Cell.char_of_isCode isCode, isBracket] at noBracket
    contradiction
  simp [bracketDepth, noCode '(' rfl, noCode '[' rfl, noCode ')' rfl, noCode ']' rfl]

theorem isBracket_of_isSeparator
    {separator : Char}
    {cell : Cell}
    (separates : cell.isSeparator separator = true) :
    cell.isCode separator = true ∧ isBracket cell.char = false := by
  rw [Cell.isSeparator, Bool.and_eq_true, Bool.not_eq_true'] at separates
  exact ⟨separates.1, Cell.char_of_isCode separates.1 ▸ separates.2⟩

/-- White space takes one byte and is no bracket. -/
theorem isBracket_of_isGap
    {cell : Cell}
    (isGap : cell.isGap = true) :
    cell.char.utf8Size = 1 ∧ isBracket cell.char = false := by
  simp only [Cell.isGap, isAsciiWhiteSpace, Bool.and_eq_true, Bool.or_eq_true, beq_iff_eq] at isGap
  obtain ⟨-, (((isSpace | isSpace) | isSpace) | isSpace) | isSpace⟩ := isGap
  all_goals
    rw [isSpace]
    decide

section Pieces

variable {isSplit : Cell → Bool} (noBracket : ∀ cell, isSplit cell = true → isBracket cell.char = false)

include noBracket in
/-- A cell separates two pieces or belongs to the piece of the cells behind it. -/
theorem splitCells_cons_cases
    (depth : Nat)
    (cell : Cell)
    (rest : List Cell) :
    ((depth = 0 ∧ isSplit cell = true) ∧ splitCells isSplit depth (cell :: rest) =
        [] :: splitCells isSplit (bracketDepth depth cell) rest) ∨
      ¬(depth = 0 ∧ isSplit cell = true) ∧ ∃ piece others,
        splitCells isSplit (bracketDepth depth cell) rest = piece :: others ∧
          splitCells isSplit depth (cell :: rest) = (cell.char :: piece) :: others := by
  rw [splitCells]
  by_cases splits : depth = 0 ∧ isSplit cell = true
  · rw [if_pos splits, bracketDepth_of_isBracket_eq_false (noBracket cell splits.2)]
    exact .inl ⟨splits, rfl⟩
  · obtain ⟨piece, others, pieces⟩ :=
      List.exists_cons_of_ne_nil (splitCells_ne_nil isSplit (bracketDepth depth cell) rest)
    rw [if_neg splits, pieces]
    exact .inr ⟨splits, piece, others, rfl, rfl⟩

/-! ## Joined pieces -/

/-- A mark between two texts is one of those that join some pieces. -/
def LiesBetween (mark : Char) (pieces : List Text) (front behind : Text) : Prop :=
  ∃ before after, before ≠ [] ∧ after ≠ [] ∧ pieces = before ++ after ∧
    front = List.intercalate [mark] before ∧ behind = List.intercalate [mark] after

theorem intercalate_cons_of_ne_nil
    {texts : List Text}
    (nonempty : texts ≠ [])
    (mark : Char)
    (text : Text) :
    List.intercalate [mark] (text :: texts) = text ++ mark :: List.intercalate [mark] texts := by
  obtain ⟨next, others, rfl⟩ := List.exists_cons_of_ne_nil nonempty
  rw [List.intercalate_cons_cons, List.append_assoc]
  rfl

theorem intercalate_cons_cons_char
    (mark char : Char)
    (piece : Text)
    (others : List Text) :
    List.intercalate [mark] ((char :: piece) :: others) =
      char :: List.intercalate [mark] (piece :: others) := by
  cases others <;> simp

section LiesBetween

variable {mark char : Char} {pieces others : List Text} {piece front behind : Text}

theorem liesBetween_nil_cons_nil_iff :
    LiesBetween mark ([] :: pieces) [] behind ↔
      pieces ≠ [] ∧ behind = List.intercalate [mark] pieces := by
  constructor
  · rintro ⟨before, after, nonempty, afterNonempty, split, isFront, rfl⟩
    obtain ⟨first, rest, rfl⟩ := List.exists_cons_of_ne_nil nonempty
    obtain ⟨rfl, rfl⟩ := List.cons.inj split
    cases rest with
    | nil => exact ⟨afterNonempty, rfl⟩
    | cons second rest => simp at isFront
  · rintro ⟨nonempty, rfl⟩
    exact ⟨[[]], pieces, List.cons_ne_nil _ _, nonempty, rfl, rfl, rfl⟩

theorem liesBetween_nil_cons_mark_iff :
    LiesBetween mark ([] :: pieces) (mark :: front) behind ↔
      LiesBetween mark pieces front behind := by
  constructor
  · rintro ⟨before, after, nonempty, afterNonempty, split, isFront, isBehind⟩
    obtain ⟨first, rest, rfl⟩ := List.exists_cons_of_ne_nil nonempty
    obtain ⟨rfl, rfl⟩ := List.cons.inj split
    cases rest with
    | nil => simp at isFront
    | cons second rest =>
        have restNonempty := List.cons_ne_nil second rest
        rw [intercalate_cons_of_ne_nil restNonempty] at isFront
        exact ⟨_, after, restNonempty, afterNonempty, rfl, (List.cons.inj isFront).2, isBehind⟩
  · rintro ⟨before, after, nonempty, afterNonempty, rfl, rfl, rfl⟩
    refine ⟨[] :: before, after, List.cons_ne_nil _ _, afterNonempty, rfl, ?_, rfl⟩
    rw [intercalate_cons_of_ne_nil nonempty]
    rfl

theorem not_liesBetween_nil : ¬LiesBetween mark ((char :: piece) :: others) [] behind := by
  rintro ⟨before, after, nonempty, -, split, isFront, -⟩
  obtain ⟨first, rest, rfl⟩ := List.exists_cons_of_ne_nil nonempty
  obtain ⟨rfl, -⟩ := List.cons.inj split
  rw [intercalate_cons_cons_char] at isFront
  contradiction

theorem liesBetween_cons_cons_iff :
    LiesBetween mark ((char :: piece) :: others) (char :: front) behind ↔
      LiesBetween mark (piece :: others) front behind := by
  constructor
  · rintro ⟨before, after, nonempty, afterNonempty, split, isFront, isBehind⟩
    obtain ⟨first, rest, rfl⟩ := List.exists_cons_of_ne_nil nonempty
    obtain ⟨rfl, rfl⟩ := List.cons.inj split
    rw [intercalate_cons_cons_char] at isFront
    exact ⟨piece :: rest, after, List.cons_ne_nil _ _, afterNonempty, rfl,
      (List.cons.inj isFront).2, isBehind⟩
  · rintro ⟨before, after, nonempty, afterNonempty, split, rfl, isBehind⟩
    obtain ⟨first, rest, rfl⟩ := List.exists_cons_of_ne_nil nonempty
    obtain ⟨rfl, rfl⟩ := List.cons.inj split
    exact ⟨(char :: piece) :: rest, after, List.cons_ne_nil _ _, afterNonempty, rfl,
      (intercalate_cons_cons_char mark char piece rest).symm, isBehind⟩

end LiesBetween

section Joined

variable {mark : Char} (isMark : ∀ cell, isSplit cell = true → cell.char = mark)

include noBracket isMark in
theorem intercalate_splitCells
    (depth : Nat)
    (cells : List Cell) :
    List.intercalate [mark] (splitCells isSplit depth cells) = chars cells := by
  induction cells generalizing depth with
  | nil => rfl
  | cons cell rest inductionHypothesis =>
      have further := inductionHypothesis (bracketDepth depth cell)
      obtain ⟨⟨-, splits⟩, pieces⟩ | ⟨-, piece, others, restPieces, pieces⟩ :=
        splitCells_cons_cases noBracket depth cell rest
      · rw [pieces, intercalate_cons_of_ne_nil (splitCells_ne_nil _ _ _), further, chars_cons,
          isMark cell splits]
        rfl
      · rw [restPieces] at further
        rw [pieces, intercalate_cons_cons_char, further, chars_cons]

include noBracket isMark in
/-- The marks between the pieces are the cells that separate outside of all brackets. -/
theorem liesBetween_splitCells_iff
    (depth : Nat)
    (front : List Cell)
    (cell : Cell)
    (behind : List Cell) :
    LiesBetween mark (splitCells isSplit depth (front ++ cell :: behind)) (chars front)
        (chars behind) ↔
      front.foldl bracketDepth depth = 0 ∧ isSplit cell = true := by
  induction front generalizing depth with
  | nil =>
      obtain ⟨splits, pieces⟩ | ⟨noSplit, piece, others, -, pieces⟩ :=
        splitCells_cons_cases noBracket depth cell behind
      · rw [List.nil_append, pieces, chars_nil, liesBetween_nil_cons_nil_iff,
          intercalate_splitCells noBracket isMark]
        exact iff_of_true ⟨splitCells_ne_nil _ _ _, rfl⟩ splits
      · rw [List.nil_append, pieces]
        exact iff_of_false not_liesBetween_nil noSplit
  | cons first others inductionHypothesis =>
      have further := inductionHypothesis (bracketDepth depth first)
      obtain ⟨⟨-, splits⟩, pieces⟩ | ⟨-, piece, rest, restPieces, pieces⟩ :=
        splitCells_cons_cases noBracket depth first (others ++ cell :: behind)
      · rw [List.cons_append, pieces, chars_cons, isMark first splits,
          liesBetween_nil_cons_mark_iff, further, List.foldl_cons]
      · rw [restPieces] at further
        rw [List.cons_append, pieces, chars_cons, liesBetween_cons_cons_iff, further,
          List.foldl_cons]

end Joined

/-! ## Places of pieces -/

/-- A stretch of a text with its first byte. -/
structure Stretch where
  /-- The byte at which it begins. -/
  start : Nat
  /-- Its characters. -/
  text : Text

/-- The byte behind a stretch. -/
def Stretch.stop (stretch : Stretch) : Nat := stretch.start + stretch.text.byteLength

theorem stop_mk
    (start : Nat)
    (text : Text) :
    (⟨start, text⟩ : Stretch).stop = start + text.byteLength := rfl

/-- Whether a stretch holds all bytes from one up to another one. -/
def Stretch.Covers (stretch : Stretch) (first last : Nat) : Prop :=
  stretch.start ≤ first ∧ last ≤ stretch.stop

/-- Whether a stretch holds no byte from one up to another one. -/
def Stretch.Misses (stretch : Stretch) (first last : Nat) : Prop :=
  last ≤ stretch.start ∨ stretch.stop ≤ first

/-- Pieces one behind the other from the given byte on, with one byte between them. -/
def stretchesFrom (start : Nat) : List Text → List Stretch
  | [] => []
  | text :: rest => ⟨start, text⟩ :: stretchesFrom (start + text.byteLength + 1) rest

theorem map_text_stretchesFrom
    (start : Nat)
    (pieces : List Text) :
    (stretchesFrom start pieces).map Stretch.text = pieces := by
  induction pieces generalizing start with
  | nil => rfl
  | cons piece rest inductionHypothesis => exact congrArg (piece :: ·) (inductionHypothesis _)

theorem le_start_of_mem_stretchesFrom
    {start : Nat}
    {pieces : List Text}
    {stretch : Stretch}
    (member : stretch ∈ stretchesFrom start pieces) :
    start ≤ stretch.start := by
  induction pieces generalizing start with
  | nil => contradiction
  | cons piece rest inductionHypothesis =>
      obtain rfl | inRest := List.mem_cons.1 member
      · exact Nat.le_refl start
      · have behind := inductionHypothesis inRest
        omega

theorem pairwise_stretchesFrom
    (start : Nat)
    (pieces : List Text) :
    (stretchesFrom start pieces).Pairwise fun stretch later => stretch.stop < later.start := by
  induction pieces generalizing start with
  | nil => exact .nil
  | cons piece rest inductionHypothesis =>
      refine List.pairwise_cons.2 ⟨fun later member => ?_, inductionHypothesis _⟩
      exact Nat.lt_of_succ_le (le_start_of_mem_stretchesFrom member)

theorem isPrefix_of_splitCells_eq_cons
    {depth : Nat}
    {cells : List Cell}
    {piece : Text}
    {others : List Text}
    (pieces : splitCells isSplit depth cells = piece :: others) :
    piece <+: chars cells := by
  induction cells generalizing depth piece others with
  | nil =>
      obtain ⟨rfl, -⟩ := List.cons.inj pieces
      exact List.nil_prefix
  | cons cell rest inductionHypothesis =>
      rw [splitCells] at pieces
      split at pieces
      · obtain ⟨rfl, -⟩ := List.cons.inj pieces
        exact List.nil_prefix
      · obtain ⟨first, further, restPieces⟩ := List.exists_cons_of_ne_nil
          (splitCells_ne_nil isSplit (bracketDepth depth cell) rest)
        rw [restPieces] at pieces
        obtain ⟨rfl, -⟩ := List.cons.inj pieces
        exact (List.prefix_cons_inj cell.char).2 (inductionHypothesis restPieces)

section Places

variable (isByte : ∀ cell, isSplit cell = true → cell.char.utf8Size = 1)

include noBracket isByte in
/-- Every piece stands in the text at its place. -/
theorem exists_of_mem_stretchesFrom
    {depth start : Nat}
    {cells : List Cell}
    {stretch : Stretch}
    (member : stretch ∈ stretchesFrom start (splitCells isSplit depth cells)) :
    ∃ ahead behind, chars cells = ahead ++ (stretch.text ++ behind) ∧
      stretch.start = start + Text.byteLength ahead := by
  induction cells generalizing depth start with
  | nil =>
      obtain rfl := List.mem_singleton.1 member
      exact ⟨[], [], rfl, rfl⟩
  | cons cell rest inductionHypothesis =>
      obtain ⟨⟨-, splits⟩, pieces⟩ | ⟨-, piece, others, restPieces, pieces⟩ :=
        splitCells_cons_cases noBracket depth cell rest
      · rw [pieces] at member
        obtain rfl | inRest := List.mem_cons.1 member
        · exact ⟨[], chars (cell :: rest), rfl, rfl⟩
        · obtain ⟨ahead, behind, split, isStart⟩ := inductionHypothesis inRest
          refine ⟨cell.char :: ahead, behind, by rw [chars_cons, split]; rfl, ?_⟩
          rw [isStart, Text.byteLength, Text.byteLength, isByte cell splits, Nat.add_zero,
            Nat.add_assoc]
      · rw [pieces] at member
        obtain rfl | inRest := List.mem_cons.1 member
        · obtain ⟨behind, split⟩ := isPrefix_of_splitCells_eq_cons pieces
          exact ⟨[], behind, split.symm, rfl⟩
        · have inPieces : stretch ∈ stretchesFrom (start + cell.char.utf8Size)
              (splitCells isSplit (bracketDepth depth cell) rest) := by
            rw [restPieces]
            rw [Text.byteLength, ← Nat.add_assoc] at inRest
            exact List.mem_cons_of_mem _ inRest
          obtain ⟨ahead, behind, split, isStart⟩ := inductionHypothesis inPieces
          refine ⟨cell.char :: ahead, behind, by rw [chars_cons, split]; rfl, ?_⟩
          rw [isStart, Text.byteLength, Nat.add_assoc]

include noBracket isByte in
/-- A cell belongs to no piece if it separates pieces, and otherwise to one of them. -/
theorem misses_or_exists_covers
    (depth start : Nat)
    (front : List Cell)
    (cell : Cell)
    (behind : List Cell)
    {first last : Nat}
    (isFirst : first = start + Text.byteLength (chars front))
    (isLast : last = first + cell.char.utf8Size) :
    (front.foldl bracketDepth depth = 0 ∧ isSplit cell = true →
      ∀ stretch ∈ stretchesFrom start (splitCells isSplit depth (front ++ cell :: behind)),
        stretch.Misses first last) ∧
    (¬(front.foldl bracketDepth depth = 0 ∧ isSplit cell = true) →
      ∃ stretch ∈ stretchesFrom start (splitCells isSplit depth (front ++ cell :: behind)),
        stretch.Covers first last) := by
  have nonempty := cell.char.utf8Size_pos
  induction front generalizing depth start with
  | nil =>
      rw [chars_nil, Text.byteLength, Nat.add_zero] at isFirst
      obtain ⟨splits, pieces⟩ | ⟨noSplit, piece, others, -, pieces⟩ :=
        splitCells_cons_cases noBracket depth cell behind
      · rw [List.nil_append, pieces]
        refine ⟨fun _ => ?_, fun noSplit => absurd splits noSplit⟩
        refine List.forall_mem_cons.2 ⟨.inr (Nat.le_of_eq isFirst.symm), fun stretch inRest => ?_⟩
        have isBehind := le_start_of_mem_stretchesFrom inRest
        have oneByte := isByte cell splits.2
        rw [Text.byteLength] at isBehind
        exact .inl (by omega)
      · rw [List.nil_append, pieces]
        refine ⟨fun splits => absurd splits noSplit, fun _ => ?_⟩
        refine ⟨_, List.mem_cons_self, Nat.le_of_eq isFirst.symm, ?_⟩
        rw [stop_mk, Text.byteLength]
        omega
  | cons before others inductionHypothesis =>
      rw [chars_cons, Text.byteLength, ← Nat.add_assoc] at isFirst
      obtain ⟨misses, covers⟩ := inductionHypothesis (bracketDepth depth before) _ isFirst
      obtain ⟨⟨-, splits⟩, pieces⟩ | ⟨-, piece, rest, restPieces, pieces⟩ :=
        splitCells_cons_cases noBracket depth before (others ++ cell :: behind)
      · rw [isByte before splits] at misses covers
        rw [List.cons_append, pieces, List.foldl_cons, stretchesFrom, Text.byteLength, Nat.add_zero]
        constructor
        · intro separates
          refine List.forall_mem_cons.2 ⟨.inr ?_, misses separates⟩
          rw [stop_mk, Text.byteLength]
          omega
        · intro belongs
          obtain ⟨stretch, member, holds⟩ := covers belongs
          exact ⟨stretch, List.mem_cons_of_mem _ member, holds⟩
      · rw [restPieces, stretchesFrom] at misses covers
        rw [List.cons_append, pieces, List.foldl_cons, stretchesFrom, Text.byteLength,
          ← Nat.add_assoc]
        constructor
        · intro separates
          obtain ⟨missesFirst, missesRest⟩ := List.forall_mem_cons.1 (misses separates)
          refine List.forall_mem_cons.2 ⟨.inr ?_, missesRest⟩
          change last ≤ start + before.char.utf8Size ∨
            start + before.char.utf8Size + piece.byteLength ≤ first at missesFirst
          rw [stop_mk, Text.byteLength]
          omega
        · intro belongs
          obtain ⟨stretch, member, isBegun, isReached⟩ := covers belongs
          obtain rfl | inRest := List.mem_cons.1 member
          · refine ⟨_, List.mem_cons_self, Nat.le_trans (Nat.le_add_right _ _) isBegun, ?_⟩
            rwa [stop_mk, Text.byteLength, ← Nat.add_assoc]
          · exact ⟨stretch, List.mem_cons_of_mem _ inRest, isBegun, isReached⟩

end Places

end Pieces

/-! ## Tokens -/

/-- The parts of a value with their places. -/
def tokens (text : Text) : List Stretch :=
  (stretchesFrom 0 (splitCells Cell.isGap 0 (cells text))).filter fun token => !token.text.isEmpty

theorem map_text_tokens (text : Text) : (tokens text).map Stretch.text = parts text := by
  have isNonempty : (fun token : Stretch => !token.text.isEmpty) =
      (fun part : Text => !part.isEmpty) ∘ Stretch.text := rfl
  rw [tokens, isNonempty, ← List.filter_map, map_text_stretchesFrom]
  rfl

theorem mem_tokens_iff
    {text : Text}
    {token : Stretch} :
    token ∈ tokens text ↔
      token ∈ stretchesFrom 0 (splitCells Cell.isGap 0 (cells text)) ∧ token.text ≠ [] := by
  simp [tokens, List.mem_filter]

theorem pairwise_tokens (text : Text) :
    (tokens text).Pairwise fun token later => token.stop < later.start :=
  (pairwise_stretchesFrom 0 _).filter _

theorem slice?_of_mem_tokens
    {text : Text}
    {token : Stretch}
    (member : token ∈ tokens text) :
    text.slice? token.start token.stop = some token.text := by
  obtain ⟨ahead, behind, split, isStart⟩ := exists_of_mem_stretchesFrom
    (fun _ isGap => (isBracket_of_isGap isGap).2) (fun _ isGap => (isBracket_of_isGap isGap).1)
    (mem_tokens_iff.1 member).1
  rw [chars_cells] at split
  rw [Nat.zero_add] at isStart
  refine Text.slice?_eq_some_iff.2 ⟨ahead, behind, split, isStart.symm, ?_⟩
  rw [Text.byteLength_append, ← isStart]
  rfl

/-- Tokens that hold the same byte are the same. -/
theorem eq_of_covers
    {tokens : List Stretch}
    (ordered : tokens.Pairwise fun token later => token.stop < later.start)
    {token other : Stretch}
    {first last : Nat}
    (nonempty : first < last)
    (member : token ∈ tokens)
    (otherMember : other ∈ tokens)
    (covers : token.Covers first last)
    (otherCovers : other.Covers first last) :
    token = other := by
  by_contra different
  have apart : ∀ {token later : Stretch}, token.stop < later.start → token.Covers first last →
      ¬later.Covers first last := by
    intro token later isBefore covers laterCovers
    have isReached := covers.2
    have isBegun := laterCovers.1
    omega
  induction ordered with
  | nil => contradiction
  | cons before _ inductionHypothesis =>
      obtain rfl | inRest := List.mem_cons.1 member
      · obtain rfl | otherInRest := List.mem_cons.1 otherMember
        · exact different rfl
        · exact apart (before _ otherInRest) covers otherCovers
      · obtain rfl | otherInRest := List.mem_cons.1 otherMember
        · exact apart (before _ inRest) otherCovers covers
        · exact inductionHypothesis inRest otherInRest

/--
A text consists of pieces with the separator between them, which are trimmed
when it is split, and exactly the separators of code outside of all brackets
stand between pieces.  The parts of a value are nonempty slices of it one behind
the other, and every character belongs to one part, but for the white space of
code outside of all brackets, which belongs to none.
-/
theorem splitTopLevel_and_parts_lose_nothing (text : Text) :
    (∀ separator, isBracket separator = false →
      ∃ pieces : List Text, pieces ≠ [] ∧ text = List.intercalate [separator] pieces ∧
        splitTopLevel separator text = pieces.map Text.trim ∧
        ∀ front cell behind, cells text = front ++ cell :: behind →
          (cell.isCode separator = true ∧ IsAtTop front ↔
            LiesBetween separator pieces (chars front) (chars behind))) ∧
    ∃ tokens : List Stretch, tokens.map Stretch.text = parts text ∧
      (∀ token ∈ tokens, token.text ≠ [] ∧
        text.slice? token.start token.stop = some token.text) ∧
      tokens.Pairwise (fun token later => token.stop < later.start) ∧
      ∀ front cell behind first last, cells text = front ++ cell :: behind →
        first = Text.byteLength (chars front) → last = first + cell.char.utf8Size →
          (cell.isGap = true ∧ IsAtTop front → ∀ token ∈ tokens, token.Misses first last) ∧
          (¬(cell.isGap = true ∧ IsAtTop front) →
            ∃! token, token ∈ tokens ∧ token.Covers first last) := by
  constructor
  · intro separator noBracket
    have separates (cell : Cell) : cell.isSeparator separator = cell.isCode separator := by
      rw [Cell.isSeparator, noBracket, Bool.not_false, Bool.and_true]
    have isNoBracket (cell : Cell) (isSeparator : cell.isSeparator separator = true) :
        isBracket cell.char = false := (isBracket_of_isSeparator isSeparator).2
    have isMark (cell : Cell) (isSeparator : cell.isSeparator separator = true) :
        cell.char = separator := Cell.char_of_isCode (isBracket_of_isSeparator isSeparator).1
    refine ⟨splitCells (Cell.isSeparator separator) 0 (cells text), splitCells_ne_nil _ _ _, ?_,
      rfl, fun front cell behind split => ?_⟩
    · rw [intercalate_splitCells isNoBracket isMark, chars_cells]
    · rw [split, liesBetween_splitCells_iff isNoBracket isMark, separates, and_comm]
      rfl
  · refine ⟨tokens text, map_text_tokens text, fun token member => ?_, pairwise_tokens text,
      fun front cell behind first last split isFirst isLast => ?_⟩
    · exact ⟨(mem_tokens_iff.1 member).2, slice?_of_mem_tokens member⟩
    · have positive := cell.char.utf8Size_pos
      obtain ⟨misses, covers⟩ := misses_or_exists_covers
        (fun _ isGap => (isBracket_of_isGap isGap).2) (fun _ isGap => (isBracket_of_isGap isGap).1)
        0 0 front cell behind (by rw [isFirst, Nat.zero_add]) isLast
      rw [← split, and_comm] at misses covers
      refine ⟨fun separates token member => misses separates token (mem_tokens_iff.1 member).1,
        fun belongs => ?_⟩
      obtain ⟨token, member, holds⟩ := covers belongs
      have nonempty : token.text ≠ [] := by
        intro isEmpty
        obtain ⟨isBegun, isReached⟩ := holds
        rw [Stretch.stop, isEmpty, Text.byteLength] at isReached
        omega
      have isToken := mem_tokens_iff.2 ⟨member, nonempty⟩
      refine ⟨token, ⟨isToken, holds⟩, fun other isOther => ?_⟩
      exact eq_of_covers (pairwise_tokens text) (by omega) isOther.1 isToken isOther.2 holds

/-- A comma in brackets that are closed once too often before, and a string with a space. -/
theorem splitTopLevel_and_parts_lose_nothing_sample :
    isBracket ',' = false ∧
      (∃ pieces : List Text, pieces ≠ [] ∧
        "a)b [é,ü], \"c, d\" ".toList = List.intercalate [','] pieces ∧
        splitTopLevel ',' "a)b [é,ü], \"c, d\" " = pieces.map Text.trim) ∧
      splitTopLevel ',' "a)b [é,ü], \"c, d\" " = ["a)b [é,ü]".toList, "\"c, d\"".toList] ∧
      parts "a)b [é,ü], \"c, d\" " = ["a)b".toList, "[é,ü],".toList, "\"c, d\"".toList] := by
  have noBracket : isBracket ',' = false := rfl
  obtain ⟨pieces, nonempty, joined, trimmed, -⟩ :=
    (splitTopLevel_and_parts_lose_nothing "a)b [é,ü], \"c, d\" ").1 ',' noBracket
  exact ⟨noBracket, ⟨pieces, nonempty, joined, trimmed⟩, by decide, by decide⟩

end Source
end LessTheme
