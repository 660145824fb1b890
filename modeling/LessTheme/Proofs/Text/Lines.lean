import LessTheme.Proofs.Text.Trim
import LessTheme.Text.Basic

/-!
# Lines

A line feed separates what stands before it from what stands behind it, so the
lines of a text that is put together from lines are these lines again.
-/

namespace LessTheme
namespace Text

@[simp] theorem lines_nil : lines [] = [] := by
  rw [lines]

@[simp] theorem lines_lineFeed_cons (rest : Text) :
    lines ('\n' :: rest) = [] :: lines rest := by
  rw [lines]

@[simp] theorem lines_return_lineFeed_cons (rest : Text) :
    lines ('\r' :: '\n' :: rest) = [] :: lines rest := by
  rw [lines]

/-- A character that ends no line belongs to the first line. -/
theorem lines_cons
    {char : Char}
    {rest : Text}
    (notFeed : char ≠ '\n')
    (notEnd : char = '\r' → rest.head? ≠ some '\n') :
    lines (char :: rest) = (char :: (lines rest).headD []) :: (lines rest).tail := by
  rw [lines]
  · cases lines rest <;> rfl
  · exact notFeed
  · rintro others rfl rfl
    exact notEnd rfl rfl

/-- The cases of reading lines: a line end of either form, or a character before one. -/
theorem lines_induction
    {motive : Text → Prop}
    (nil : motive [])
    (feed : ∀ rest, motive rest → motive ('\n' :: rest))
    (returnFeed : ∀ rest, motive rest → motive ('\r' :: '\n' :: rest))
    (other : ∀ char rest, char ≠ '\n' → (char = '\r' → rest.head? ≠ some '\n') →
      motive rest → motive (char :: rest))
    (text : Text) :
    motive text := by
  induction text using lines.induct with
  | case1 => exact nil
  | case2 rest inductionHypothesis => exact feed rest inductionHypothesis
  | case3 rest inductionHypothesis => exact returnFeed rest inductionHypothesis
  | case4 char rest notFeed notEnd _ inductionHypothesis =>
      refine other char rest notFeed (fun isReturn startsFeed => ?_) inductionHypothesis
      obtain ⟨others, rfl⟩ := List.head?_eq_some_iff.1 startsFeed
      exact notEnd others isReturn rfl
  | case5 char rest notFeed notEnd _ _ _ inductionHypothesis =>
      refine other char rest notFeed (fun isReturn startsFeed => ?_) inductionHypothesis
      obtain ⟨others, rfl⟩ := List.head?_eq_some_iff.1 startsFeed
      exact notEnd others isReturn rfl

theorem lines_append_lineFeed_ne_nil
    (text rest : Text) :
    lines (text ++ '\n' :: rest) ≠ [] := by
  cases text with
  | nil => simp
  | cons char others =>
      by_cases feed : char = '\n'
      · simp [feed]
      · by_cases pair : char = '\r' ∧ (others ++ '\n' :: rest).head? = some '\n'
        · obtain ⟨rfl, startsFeed⟩ := pair
          obtain ⟨tail, split⟩ := List.head?_eq_some_iff.1 startsFeed
          simp [split]
        · rw [List.cons_append, lines_cons feed fun isReturn startsFeed =>
            pair ⟨isReturn, startsFeed⟩]
          exact List.cons_ne_nil _ _

/-- Reading goes on afresh behind a line feed. -/
theorem lines_append_lineFeed
    (text rest : Text) :
    lines (text ++ '\n' :: rest) = lines (text ++ ['\n']) ++ lines rest := by
  induction text using lines_induction with
  | nil => simp
  | feed text inductionHypothesis => simp [inductionHypothesis]
  | returnFeed text inductionHypothesis => simp [inductionHypothesis]
  | other char text notFeed notEnd inductionHypothesis =>
      cases text with
      | nil =>
          by_cases isReturn : char = '\r'
          · simp [isReturn]
          · have single : ∀ others, lines (char :: '\n' :: others) = [char] :: lines others := by
              intro others
              rw [lines_cons notFeed fun isReturn' => absurd isReturn' isReturn]
              simp
            simp [single]
      | cons next text =>
          have split : ∀ others, lines (char :: next :: text ++ '\n' :: others) =
              (char :: (lines (next :: text ++ '\n' :: others)).headD []) ::
                (lines (next :: text ++ '\n' :: others)).tail :=
            fun others => lines_cons notFeed notEnd
          have nonempty := lines_append_lineFeed_ne_nil (next :: text) []
          rw [split, split, inductionHypothesis]
          cases linesEq : lines (next :: text ++ ['\n']) with
          | nil => exact absurd linesEq nonempty
          | cons line others => rfl

/-- A text without line feed in front of a line feed is one line. -/
theorem lines_line_append_lineFeed
    {line : Text}
    (noFeed : '\n' ∉ line)
    (noReturn : line.getLast? ≠ some '\r')
    (rest : Text) :
    lines (line ++ '\n' :: rest) = line :: lines rest := by
  induction line with
  | nil => simp
  | cons char others inductionHypothesis =>
      rw [List.mem_cons, not_or] at noFeed
      have othersReturn : others.getLast? ≠ some '\r' := by
        intro last
        apply noReturn
        rw [List.getLast?_cons, last]
        rfl
      have notEnd : char = '\r' → (others ++ '\n' :: rest).head? ≠ some '\n' := by
        rintro rfl startsFeed
        cases others with
        | nil => exact noReturn rfl
        | cons next others =>
            obtain rfl := Option.some.inj startsFeed
            exact noFeed.2 List.mem_cons_self
      rw [List.cons_append, lines_cons (fun equal => noFeed.1 equal.symm) notEnd,
        inductionHypothesis noFeed.2 othersReturn]
      rfl

/-- A carriage return behind a text without line feed belongs to the line end. -/
theorem lines_line_append_return_lineFeed
    {line : Text}
    (noFeed : '\n' ∉ line)
    (rest : Text) :
    lines (line ++ '\r' :: '\n' :: rest) = line :: lines rest := by
  induction line with
  | nil => simp
  | cons char others inductionHypothesis =>
      rw [List.mem_cons, not_or] at noFeed
      have notEnd : char = '\r' → (others ++ '\r' :: '\n' :: rest).head? ≠ some '\n' := by
        intro _ startsFeed
        cases others with
        | nil => exact absurd (Option.some.inj startsFeed) (by decide)
        | cons next others =>
            obtain rfl := Option.some.inj startsFeed
            exact noFeed.2 List.mem_cons_self
      rw [List.cons_append, lines_cons (fun equal => noFeed.1 equal.symm) notEnd,
        inductionHypothesis noFeed.2]
      rfl

/-- A text without line feed is one line. -/
theorem lines_line
    {line : Text}
    (nonempty : line ≠ [])
    (noFeed : '\n' ∉ line) :
    lines line = [line] := by
  induction line with
  | nil => contradiction
  | cons char others inductionHypothesis =>
      rw [List.mem_cons, not_or] at noFeed
      have notEnd : char = '\r' → others.head? ≠ some '\n' := by
        intro _ startsFeed
        obtain ⟨tail, rfl⟩ := List.head?_eq_some_iff.1 startsFeed
        exact noFeed.2 List.mem_cons_self
      rw [lines_cons (fun equal => noFeed.1 equal.symm) notEnd]
      cases others with
      | nil => simp
      | cons next others =>
          rw [inductionHypothesis (List.cons_ne_nil _ _) noFeed.2]
          rfl

/-- Lines joined by line feeds are read as the same lines. -/
theorem lines_intercalate
    {texts : List Text}
    (nonempty : ∀ text ∈ texts, text ≠ [])
    (noFeed : ∀ text ∈ texts, '\n' ∉ text)
    (noReturn : ∀ text ∈ texts, text.getLast? ≠ some '\r') :
    lines (List.intercalate ['\n'] texts) = texts := by
  induction texts with
  | nil => simp
  | cons text rest inductionHypothesis =>
      cases rest with
      | nil =>
          rw [List.intercalate_singleton]
          exact lines_line (nonempty text List.mem_cons_self) (noFeed text List.mem_cons_self)
      | cons next others =>
          rw [List.intercalate_cons_cons, List.append_assoc, List.singleton_append,
            lines_line_append_lineFeed (noFeed text List.mem_cons_self)
              (noReturn text List.mem_cons_self),
            inductionHypothesis
              (fun found member => nonempty found (List.mem_cons_of_mem _ member))
              (fun found member => noFeed found (List.mem_cons_of_mem _ member))
              (fun found member => noReturn found (List.mem_cons_of_mem _ member))]

/-- Lines that each end in a line feed are read as the same lines. -/
theorem lines_intercalate_append_lineFeed
    {texts : List Text}
    (nonempty : texts ≠ [])
    (noFeed : ∀ text ∈ texts, '\n' ∉ text)
    (noReturn : ∀ text ∈ texts, text.getLast? ≠ some '\r') :
    lines (List.intercalate ['\n'] texts ++ ['\n']) = texts := by
  induction texts with
  | nil => contradiction
  | cons text rest inductionHypothesis =>
      have noFeedHere := noFeed text List.mem_cons_self
      have noReturnHere := noReturn text List.mem_cons_self
      cases rest with
      | nil =>
          rw [List.intercalate_singleton, lines_line_append_lineFeed noFeedHere noReturnHere,
            lines_nil]
      | cons next others =>
          rw [List.intercalate_cons_cons, List.append_assoc, List.append_assoc,
            List.singleton_append, lines_line_append_lineFeed noFeedHere noReturnHere,
            inductionHypothesis (List.cons_ne_nil _ _)
              (fun found member => noFeed found (List.mem_cons_of_mem _ member))
              (fun found member => noReturn found (List.mem_cons_of_mem _ member))]

/-- No line holds a line feed. -/
theorem lineFeed_not_mem_of_mem_lines
    {text line : Text}
    (member : line ∈ lines text) :
    '\n' ∉ line := by
  induction text using lines_induction generalizing line with
  | nil => simp at member
  | feed rest inductionHypothesis =>
      rw [lines_lineFeed_cons] at member
      obtain rfl | member := List.mem_cons.1 member
      · simp
      · exact inductionHypothesis member
  | returnFeed rest inductionHypothesis =>
      rw [lines_return_lineFeed_cons] at member
      obtain rfl | member := List.mem_cons.1 member
      · simp
      · exact inductionHypothesis member
  | other char rest notFeed notEnd inductionHypothesis =>
      rw [lines_cons notFeed notEnd] at member
      cases others : lines rest with
      | nil =>
          rw [others] at member
          simpa [List.mem_singleton.1 member] using fun equal => notFeed equal.symm
      | cons first tail =>
          rw [others] at member inductionHypothesis
          obtain rfl | member := List.mem_cons.1 member
          · rw [List.mem_cons, not_or]
            exact ⟨fun equal => notFeed equal.symm, inductionHypothesis List.mem_cons_self⟩
          · exact inductionHypothesis (List.mem_cons_of_mem _ member)

/-- A line holds characters of the text only. -/
theorem subset_of_mem_lines
    {text line : Text}
    (member : line ∈ lines text) :
    line ⊆ text := by
  induction text using lines_induction generalizing line with
  | nil => simp at member
  | feed rest inductionHypothesis =>
      rw [lines_lineFeed_cons] at member
      obtain rfl | member := List.mem_cons.1 member
      · exact List.nil_subset _
      · exact List.subset_cons_of_subset _ (inductionHypothesis member)
  | returnFeed rest inductionHypothesis =>
      rw [lines_return_lineFeed_cons] at member
      obtain rfl | member := List.mem_cons.1 member
      · exact List.nil_subset _
      · exact List.subset_cons_of_subset _
          (List.subset_cons_of_subset _ (inductionHypothesis member))
  | other char rest notFeed notEnd inductionHypothesis =>
      rw [lines_cons notFeed notEnd] at member
      cases others : lines rest with
      | nil =>
          rw [others] at member
          rw [List.mem_singleton.1 member]
          exact List.cons_subset_cons _ (List.nil_subset _)
      | cons first tail =>
          rw [others] at member inductionHypothesis
          obtain rfl | member := List.mem_cons.1 member
          · exact List.cons_subset_cons _ (inductionHypothesis List.mem_cons_self)
          · exact List.subset_cons_of_subset _
              (inductionHypothesis (List.mem_cons_of_mem _ member))

/-! ## Carriage returns at the end of lines -/

/-- A text without the carriage returns at its end. -/
def withoutReturns (text : Text) : Text := dropEndWhile (· == '\r') text

theorem exists_eq_withoutReturns_append (text : Text) :
    ∃ returns : Text, text = withoutReturns text ++ returns ∧ ∀ char ∈ returns, char = '\r' := by
  refine ⟨text.rtakeWhile (· == '\r'), List.rdropWhile_append_rtakeWhile.symm,
    fun char member => ?_⟩
  have isReturn := List.mem_rtakeWhile_imp member
  exact beq_iff_eq.1 isReturn

/-- A line in front of a line feed is read up to carriage returns at its end. -/
theorem exists_lines_append_lineFeed_eq_cons
    {line : Text}
    (noFeed : '\n' ∉ line)
    (rest : Text) :
    ∃ read, lines (line ++ '\n' :: rest) = read :: lines rest ∧
      withoutReturns read = withoutReturns line := by
  by_cases isReturn : line.getLast? = some '\r'
  · obtain ⟨read, rfl⟩ := List.getLast?_eq_some_iff.1 isReturn
    have noFeedInside : '\n' ∉ read := fun member => noFeed (List.mem_append_left _ member)
    refine ⟨read, ?_, (dropEndWhile_append_of_forall (by simp) read).symm⟩
    rw [List.append_assoc]
    exact lines_line_append_return_lineFeed noFeedInside rest
  · exact ⟨line, lines_line_append_lineFeed noFeed isReturn rest, rfl⟩

/--
Lines joined by line feeds are read up to carriage returns at their ends, and
without the last line if it is empty.
-/
theorem exists_map_withoutReturns_lines_intercalate
    {texts : List Text}
    (noFeed : ∀ text ∈ texts, '\n' ∉ text) :
    ∃ blank : List Text, (blank = [] ∨ blank = [[]]) ∧
      (lines (List.intercalate ['\n'] texts)).map withoutReturns ++ blank =
        texts.map withoutReturns := by
  induction texts with
  | nil => exact ⟨[], .inl rfl, by simp⟩
  | cons text rest inductionHypothesis =>
      have noFeedHere := noFeed text List.mem_cons_self
      cases rest with
      | nil =>
          rw [List.intercalate_singleton]
          by_cases isEmpty : text = []
          · exact ⟨[[]], .inr rfl, by rw [isEmpty, lines_nil]; rfl⟩
          · exact ⟨[], .inl rfl, by rw [lines_line isEmpty noFeedHere]; rfl⟩
      | cons next others =>
          obtain ⟨blank, isBlank, same⟩ :=
            inductionHypothesis fun found member => noFeed found (List.mem_cons_of_mem _ member)
          obtain ⟨read, linesEq, isRead⟩ := exists_lines_append_lineFeed_eq_cons noFeedHere
            (List.intercalate ['\n'] (next :: others))
          refine ⟨blank, isBlank, ?_⟩
          rw [List.intercalate_cons_cons, List.append_assoc, List.singleton_append, linesEq,
            List.map_cons, List.cons_append, same, isRead]
          rfl

/-! ## The first line, and the line of a character -/

/-- A text that is not empty begins with a line and its end. -/
theorem exists_first_line
    {text : Text}
    (nonempty : text ≠ []) :
    ∃ line ending rest, text = line ++ (ending ++ rest) ∧ lines text = line :: lines rest ∧
      '\n' ∉ line ∧ (ending = [] ∧ rest = [] ∨ ending = ['\n'] ∨ ending = ['\r', '\n']) := by
  induction text using lines_induction with
  | nil => contradiction
  | feed rest => exact ⟨[], ['\n'], rest, rfl, by simp, nofun, .inr (.inl rfl)⟩
  | returnFeed rest => exact ⟨[], ['\r', '\n'], rest, rfl, by simp, nofun, .inr (.inr rfl)⟩
  | other char rest notFeed notEnd inductionHypothesis =>
      have noFeedHere : '\n' ∉ [char] := by simpa using notFeed.symm
      by_cases isLast : rest = []
      · subst isLast
        exact ⟨[char], [], [], rfl, by simp [lines_cons notFeed notEnd], noFeedHere,
          .inl ⟨rfl, rfl⟩⟩
      · obtain ⟨line, ending, others, split, linesEq, noFeed, isEnding⟩ :=
          inductionHypothesis isLast
        refine ⟨char :: line, ending, others, by rw [split, List.cons_append], ?_, ?_, isEnding⟩
        · rw [lines_cons notFeed notEnd, linesEq]
          rfl
        · exact fun member => (List.mem_cons.1 member).elim notFeed.symm noFeed

/-- A line at the front of some lines is the text at the front of theirs. -/
theorem exists_eq_line_append
    {text line : Text}
    {rest : List Text}
    (linesEq : lines text = line :: rest) :
    ∃ back, text = line ++ back := by
  have nonempty : text ≠ [] := by
    rintro rfl
    simp at linesEq
  obtain ⟨first, ending, others, rfl, firstEq, -⟩ := exists_first_line nonempty
  obtain ⟨rfl, -⟩ := List.cons.inj (firstEq.symm.trans linesEq)
  exact ⟨ending ++ others, rfl⟩

/-- The text behind some lines. -/
def behindLines : Nat → Text → Text
  | 0, text => text
  | count + 1, text => behindLines count ((text.dropWhile (· != '\n')).drop 1)

theorem behindLines_add (count further : Nat) (text : Text) :
    behindLines (count + further) text = behindLines further (behindLines count text) := by
  induction count generalizing text with
  | zero => rw [Nat.zero_add, behindLines]
  | succ count inductionHypothesis =>
      rw [Nat.succ_add, behindLines, inductionHypothesis, behindLines]

/-- A line and its end are the text in front of what stands behind the line. -/
theorem dropWhile_of_first_line
    {line ending rest : Text}
    (noFeed : '\n' ∉ line)
    (isEnding : ending = [] ∧ rest = [] ∨ ending = ['\n'] ∨ ending = ['\r', '\n']) :
    ((line ++ (ending ++ rest)).dropWhile (· != '\n')).drop 1 = rest := by
  have passes : ∀ char ∈ line, (char != '\n') = true := by
    intro char member
    rw [bne_iff_ne]
    rintro rfl
    exact noFeed member
  rw [List.dropWhile_append_of_pos passes]
  obtain ⟨rfl, rfl⟩ | rfl | rfl := isEnding <;> rfl

/-- A line in front of a line feed does not depend on what follows. -/
theorem lines_append_lineFeed_eq_cons
    {start rest line : Text}
    (linesEq : lines (start ++ '\n' :: rest) = line :: lines rest)
    (other : Text) :
    lines (start ++ '\n' :: other) = line :: lines other := by
  rw [lines_append_lineFeed] at linesEq ⊢
  have single : lines (start ++ ['\n']) = [line] :=
    List.append_cancel_right (linesEq.trans List.singleton_append.symm)
  rw [single, List.singleton_append]

/-- The lines of a text that are split into two parts are those of two parts of the text. -/
theorem exists_append_behindLines
    {text : Text}
    {before after : List Text}
    (split : lines text = before ++ after) :
    ∃ front, text = front ++ behindLines before.length text ∧ lines front = before ∧
      lines (behindLines before.length text) = after ∧
        (front = [] ∨ front.getLast? = some '\n' ∨ behindLines before.length text = []) := by
  induction before generalizing text with
  | nil => exact ⟨[], rfl, lines_nil, split, .inl rfl⟩
  | cons first before inductionHypothesis =>
      have nonempty : text ≠ [] := by
        rintro rfl
        simp at split
      obtain ⟨line, ending, rest, rfl, linesEq, noFeed, isEnding⟩ := exists_first_line nonempty
      obtain ⟨rfl, restSplit⟩ := List.cons.inj (linesEq.symm.trans split)
      obtain ⟨front, restEq, frontLines, behindEq, isStart⟩ := inductionHypothesis restSplit
      have behind : behindLines (before.length + 1) (line ++ (ending ++ rest)) =
          behindLines before.length rest := by
        rw [behindLines, dropWhile_of_first_line noFeed isEnding]
      rw [List.length_cons, behind]
      refine ⟨line ++ (ending ++ front), ?_, ?_, behindEq, ?_⟩
      · rw [List.append_assoc, List.append_assoc, ← restEq]
      · rw [← frontLines]
        obtain ⟨rfl, rfl⟩ | rfl | rfl := isEnding
        · rw [(List.append_eq_nil_iff.1 restEq.symm).1]
          exact linesEq
        · exact lines_append_lineFeed_eq_cons linesEq front
        · change lines (line ++ '\r' :: '\n' :: rest) = _ at linesEq
          change lines (line ++ '\r' :: '\n' :: front) = _
          rw [List.append_cons] at linesEq ⊢
          exact lines_append_lineFeed_eq_cons linesEq front
      · obtain rfl | isFeed | isEnd := isStart
        · obtain ⟨-, rfl⟩ | rfl | rfl := isEnding
          · exact .inr (.inr restEq.symm)
          · exact .inr (.inl (by simp))
          · exact .inr (.inl (by simp))
        · exact .inr (.inl (by simp [isFeed]))
        · exact .inr (.inr isEnd)

/-- Lines behind a line feed are lines of the whole text. -/
theorem lines_subset_append
    {front : Text}
    (isStart : front = [] ∨ front.getLast? = some '\n')
    (rest : Text) :
    lines rest ⊆ lines (front ++ rest) := by
  obtain rfl | isFeed := isStart
  · exact List.Subset.refl _
  · obtain ⟨others, rfl⟩ := List.getLast?_eq_some_iff.1 isFeed
    rw [List.append_assoc, List.singleton_append, lines_append_lineFeed]
    exact List.subset_append_right _ _

theorem exists_head?_lines_eq_some_append
    {before : Text}
    {char : Char}
    (noFeed : '\n' ∉ before)
    (noEnd : char ≠ '\n' ∧ char ≠ '\r')
    (behind : Text) :
    ∃ further rest, behind = further ++ rest ∧
      (lines (before ++ char :: behind)).head? = some (before ++ char :: further) := by
  induction before with
  | nil =>
      have linesEq := @lines_cons char behind noEnd.1 fun isReturn => absurd isReturn noEnd.2
      by_cases isLast : behind = []
      · subst isLast
        exact ⟨[], [], rfl, by rw [List.nil_append, linesEq]; rfl⟩
      · obtain ⟨line, ending, rest, split, behindEq, -⟩ := exists_first_line isLast
        refine ⟨line, ending ++ rest, split, ?_⟩
        rw [List.nil_append, linesEq, behindEq]
        rfl
  | cons first before inductionHypothesis =>
      obtain ⟨notFeed, noFeed⟩ := not_or.1 (mt List.mem_cons.2 noFeed)
      have notEnd : first = '\r' → (before ++ char :: behind).head? ≠ some '\n' := by
        intro _ startsFeed
        cases before with
        | nil => exact noEnd.1 (Option.some.inj startsFeed)
        | cons => exact noFeed (List.mem_of_mem_head? startsFeed)
      obtain ⟨further, rest, split, isHead⟩ := inductionHypothesis noFeed
      refine ⟨further, rest, split, ?_⟩
      rw [List.cons_append, lines_cons (Ne.symm notFeed) notEnd, List.headD_eq_head?_getD, isHead]
      rfl

/-- A character that ends no line stands in a line, behind what stands before it there. -/
theorem exists_mem_lines_append
    {front before : Text}
    {char : Char}
    (isStart : front = [] ∨ front.getLast? = some '\n')
    (noFeed : '\n' ∉ before)
    (noEnd : char ≠ '\n' ∧ char ≠ '\r')
    (behind : Text) :
    ∃ further rest, behind = further ++ rest ∧
      before ++ char :: further ∈ lines (front ++ (before ++ char :: behind)) := by
  obtain ⟨further, rest, split, isHead⟩ := exists_head?_lines_eq_some_append noFeed noEnd behind
  exact ⟨further, rest, split, lines_subset_append isStart _ (List.mem_of_mem_head? isHead)⟩

/-! ## Byte-order marks -/

theorem withoutByteOrderMark_eq_self
    {text : Text}
    (noMark : text.head? ≠ some '\ufeff') :
    text.withoutByteOrderMark = text := by
  rw [withoutByteOrderMark]
  rintro rest rfl
  exact noMark rfl

theorem withoutByteOrderMark_of_not_mem
    {text : Text}
    (noMark : '\ufeff' ∉ text) :
    text.withoutByteOrderMark = text :=
  withoutByteOrderMark_eq_self fun isMark => noMark (List.mem_of_mem_head? isMark)

theorem exists_eq_mark_append (text : Text) :
    ∃ mark : Text, text = mark ++ text.withoutByteOrderMark ∧ (mark = [] ∨ mark = ['\ufeff']) := by
  by_cases isMark : text.head? = some '\ufeff'
  · obtain ⟨rest, rfl⟩ := List.head?_eq_some_iff.1 isMark
    exact ⟨['\ufeff'], rfl, .inr rfl⟩
  · exact ⟨[], (withoutByteOrderMark_eq_self isMark).symm, .inl rfl⟩

theorem withoutByteOrderMark_append_lineFeed
    (front back : Text) :
    (front ++ '\n' :: back).withoutByteOrderMark =
      front.withoutByteOrderMark ++ '\n' :: back := by
  cases front with
  | nil => rfl
  | cons char rest =>
      by_cases mark : char = '\ufeff'
      · subst mark
        rfl
      · have noMark : ∀ others : Text, (char :: others).head? ≠ some '\ufeff' := by
          intro others
          simpa using mark
        rw [List.cons_append, withoutByteOrderMark_eq_self (noMark _),
          withoutByteOrderMark_eq_self (noMark _)]
        rfl

end Text
end LessTheme
