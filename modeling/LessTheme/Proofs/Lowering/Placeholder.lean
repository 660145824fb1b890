import LessTheme.Proofs.Lowering.AtRule
import LessTheme.Proofs.Lowering.DeclarationAtRule
import LessTheme.Proofs.Lowering.LineComment
import LessTheme.Proofs.Source.CallParts

/-!
# Cutting at-rules out a second time

Every at-rule that is cut out leaves a comment behind.  What stands around the
comments is read as before if the cuts do not change which slashes begin a line
comment: a slash right in front of a cut would join that of the comment, and
the parentheses in a cut are no longer counted for the slashes behind it.  Then
no at-rule is left to cut out.
-/

namespace LessTheme
namespace Lowering

open Source

/-- The cells behind a patch that puts comments for stretches, given the cells before it. -/
def commentedCells : Patch → List Cell → List Cell
  | [], _ => []
  | .keep text :: rest, cells =>
      cells.take text.length ++ commentedCells rest (cells.drop text.length)
  | .replace old new :: rest, cells =>
      opened .blockComment new ++ commentedCells rest (cells.drop old.length)

/--
Whether a kept cell in front of a patch is no slash of code in front of a cut,
and no slash in front of a slash where parentheses are open with the cuts only
or without them only.
-/
def slashStays (depth keptDepth : Nat) (cell : Cell) : Patch → Bool
  | .replace _ _ :: _ => !cell.isCode '/'
  | .keep text :: _ =>
      cell.char != '/' || text.head? != some '/' || (depth == 0) == (keptDepth == 0)
  | [] => true

/--
Whether no slash of code stands in front of a cut, and wherever two slashes are
kept, parentheses are open in the source exactly if some are open without the
cuts.  The numbers count the parentheses that are open with and without them.
-/
def keepsSlashes : Nat → Nat → Patch → List Cell → Bool
  | _, _, [], _ => true
  | depth, keptDepth, .keep text :: rest, cells =>
      (cells.take text.length).all (slashStays depth keptDepth · rest) &&
        keepsSlashes ((cells.take text.length).foldl openBehind depth)
          ((cells.take text.length).foldl openBehind keptDepth) rest (cells.drop text.length)
  | depth, keptDepth, .replace old _ :: rest, cells =>
      keepsSlashes ((cells.take old.length).foldl openBehind depth) keptDepth rest
        (cells.drop old.length)

/-! ## The course of the rule -/

/-- What is cut out of some cells, given what is remembered of those before them. -/
inductive Cuts : AtRuleMemory → List Cell → Patch → Prop
  | nil (memory : AtRuleMemory) : Cuts memory [] []
  | keep {memory : AtRuleMemory} {cell : Cell} {rest : List Cell} {patch : Patch}
      (noRule : placeholder? memory (cell :: rest) = none)
      (further : Cuts (atRuleRule.keep memory cell) rest patch) :
      Cuts memory (cell :: rest) (.keep [cell.char] :: patch)
  | cut {memory : AtRuleMemory} {sign : Cell} {body : List Cell} {last : Cell}
      {rest : List Cell} {patch : Patch}
      (outside : memory.depth = 0)
      (isSign : sign.isCode '@' = true)
      (ends : last.isCode ';' = true ∨ last.isCode '}' = true)
      (hasEnd : atRule? (sign :: body ++ [last] ++ rest) ≠ none)
      (further : Cuts (atRuleRule.replace memory) rest patch) :
      Cuts memory (sign :: body ++ [last] ++ rest)
        (.replace (chars (sign :: body ++ [last])) (atRulePlaceholder memory.count) :: patch)

theorem cuts_patchFrom
    (memory : AtRuleMemory)
    (cells : List Cell) :
    Cuts memory cells (atRuleRule.patchFrom memory 0 cells) := by
  induction length : cells.length using Nat.strong_induction_on generalizing memory cells with
  | _ count inductionHypothesis =>
  subst length
  cases cells with
  | nil => exact .nil memory
  | cons cell rest =>
      unfold Rule.patchFrom
      cases made : atRuleRule.replacement? memory (cell :: rest) with
      | none => exact .keep made (inductionHypothesis _ (Nat.lt_succ_self _) _ rest rfl)
      | some replacement =>
          change placeholder? memory (cell :: rest) = some replacement at made
          rw [placeholder?] at made
          split at made
          case isFalse => contradiction
          case isTrue begins =>
            obtain ⟨rule, found, rfl⟩ := Option.map_eq_some_iff.1 made
            have isSign : cell.isCode '@' = true := (Bool.and_eq_true_iff.1 begins.2).1
            obtain ⟨body, last, behind, whole, isLength, ends⟩ :=
              exists_concat_of_atRule?_eq_some found
            cases body with
            | nil =>
                obtain ⟨rfl, -⟩ := List.cons.inj whole
                obtain ends | ends := ends
                all_goals exact absurd ends (by simp [Cell.isCode_eq_false_of_isCode isSign])
            | cons sign body =>
                rw [List.cons_append] at whole
                obtain ⟨rfl, rfl⟩ := List.cons.inj whole
                have furtherCells : rule.length - 1 = (body ++ [last]).length := by
                  rw [← isLength]
                  simp
                have shorter : behind.length < (cell :: (body ++ last :: behind)).length := by
                  simp only [List.length_cons, List.length_append]
                  omega
                have further := inductionHypothesis behind.length shorter
                  (atRuleRule.replace memory) behind rfl
                have hasEnd : atRule? (cell :: body ++ [last] ++ behind) ≠ none := by
                  simp [found]
                have cuts := Cuts.cut begins.1 isSign ends hasEnd further
                dsimp only
                rw [List.append_cons body last behind, furtherCells, List.take_left,
                  Rule.patchFrom_eq_patchFrom_drop, List.drop_left]
                exact cuts

/-! ## Reading the result -/

/-- A placeholder is what is written for a line comment with its words. -/
theorem atRulePlaceholder_eq_blockForm (number : Nat) :
    atRulePlaceholder number =
      blockForm ("// " ++ atRuleMarker ++ " " ++ (toString number).toList) := by
  have noStar : '*' ∉ (" " ++ atRuleMarker ++ " " : Text) ++ (toString number).toList := by
    intro member
    obtain inMarker | inNumber := List.mem_append.1 member
    · exact absurd inMarker (by decide)
    · exact absurd (Text.isDigit_of_mem_toString inNumber) (by decide)
  have words : ("// " ++ atRuleMarker ++ " " ++ (toString number).toList : Text).drop 2 =
      (" " ++ atRuleMarker ++ " " : Text) ++ (toString number).toList := rfl
  have noEnd : ¬commentEnd <:+: (" " ++ atRuleMarker ++ " " : Text) ++ (toString number).toList :=
    fun isInfix => noStar (isInfix.subset List.mem_cons_self)
  rw [blockForm, words, breakCommentEnds_eq_self noEnd]
  rfl

/-- A slash that begins no comment is code. -/
theorem read_slash
    {depth : Nat}
    {afterColon : Bool}
    {next : Option Char}
    (noStar : next ≠ some '*')
    (noSlash : ¬((next = some '/' ∧ depth = 0) ∧ afterColon = false)) :
    (Mode.code depth afterColon).read '/' next = (.ofCode '/', .code depth false) := by
  rw [and_assoc] at noSlash
  simp [Mode.read, noStar, noSlash, parenthesisDepth, Cell.ofCode]

/-- Two modes that differ in the number of open parentheses only. -/
inductive Alike : Mode → Mode → Prop
  | code (depth other : Nat) (afterColon : Bool) :
      Alike (.code depth afterColon) (.code other afterColon)
  | string (quote : Char) (depth other : Nat) : Alike (.string quote depth) (.string quote other)
  | escape (quote : Char) (depth other : Nat) : Alike (.escape quote depth) (.escape quote other)
  | commentOpening (depth other : Nat) : Alike (.commentOpening depth) (.commentOpening other)
  | comment (depth other : Nat) (afterStar : Bool) :
      Alike (.comment depth afterStar) (.comment other afterStar)
  | lineComment : Alike .lineComment .lineComment

/-- A character is read alike if it begins a comment in both modes or in none. -/
theorem Alike.read
    {mode kept : Mode}
    (alike : Alike mode kept)
    {char : Char}
    {next keptNext : Option Char}
    (same : mode.isCode = true → char = '/' →
      (next = some '*' ↔ keptNext = some '*') ∧
        (next = some '/' ∧ mode.depth = 0 ↔ keptNext = some '/' ∧ kept.depth = 0)) :
    (kept.read char keptNext).1 = (mode.read char next).1 ∧
      Alike (mode.read char next).2 (kept.read char keptNext).2 := by
  cases alike with
  | code depth other afterColon =>
      by_cases isSlash : char = '/'
      · subst isSlash
        obtain ⟨star, slash⟩ := same rfl rfl
        change _ ∧ depth = 0 ↔ _ ∧ other = 0 at slash
        by_cases isStar : next = some '*'
        · rw [star.1 isStar, isStar]
          exact ⟨rfl, .commentOpening depth other⟩
        · by_cases begins : (next = some '/' ∧ depth = 0) ∧ afterColon = false
          · obtain ⟨⟨rfl, rfl⟩, rfl⟩ := begins
            obtain ⟨rfl, rfl⟩ := slash.1 ⟨rfl, rfl⟩
            exact ⟨rfl, .lineComment⟩
          · have keptBegins := mt (And.imp_left slash.2) begins
            rw [read_slash isStar begins, read_slash (mt star.2 isStar) keptBegins]
            exact ⟨rfl, .code depth other false⟩
      · simp only [Mode.read, isSlash, false_and, if_false]
        split
        · exact ⟨rfl, .string char depth other⟩
        · exact ⟨rfl, .code _ _ _⟩
  | string quote depth other =>
      simp only [Mode.read]
      split_ifs
      · exact ⟨rfl, .escape quote depth other⟩
      · exact ⟨rfl, .code depth other false⟩
      · exact ⟨rfl, .code depth other false⟩
      · exact ⟨rfl, .string quote depth other⟩
  | escape quote depth other => exact ⟨rfl, .string quote depth other⟩
  | commentOpening depth other => exact ⟨rfl, .comment depth other false⟩
  | comment depth other afterStar =>
      simp only [Mode.read]
      split_ifs
      · exact ⟨rfl, .code depth other false⟩
      · exact ⟨rfl, .comment depth other (char == '*')⟩
  | lineComment =>
      refine ⟨rfl, ?_⟩
      simp only [Mode.read]
      split
      · exact .code 0 0 false
      · exact .lineComment

namespace Cuts

variable {memory : AtRuleMemory} {cells : List Cell} {patch : Patch}

/-- What is kept in front of the first cut is followed by a slash in the place of an at sign. -/
theorem chars_eq_or_exists
    (cuts : Cuts memory cells patch) :
    chars (commentedCells patch cells) = chars cells ∨
      ∃ front behind keptBehind, chars cells = front ++ '@' :: behind ∧
        chars (commentedCells patch cells) = front ++ '/' :: keptBehind := by
  induction cuts with
  | nil => exact .inl rfl
  | @keep memory cell rest patch noRule further inductionHypothesis =>
      obtain same | ⟨front, behind, keptBehind, split, keptSplit⟩ := inductionHypothesis
      · left
        exact congrArg (cell.char :: ·) same
      · right
        refine ⟨cell.char :: front, behind, keptBehind, ?_, ?_⟩
        · exact congrArg (cell.char :: ·) split
        · exact congrArg (cell.char :: ·) keptSplit
  | @cut memory sign body last rest patch outside isSign ends hasEnd further =>
      right
      refine ⟨[], chars (body ++ [last] ++ rest), _, ?_, rfl⟩
      exact congrArg (· :: _) (Cell.char_of_isCode isSign)

/-- A slash that stays begins a comment behind the patch exactly if it began one before. -/
theorem head?_iff_of_slashStays
    (cuts : Cuts memory cells patch)
    {depth keptDepth : Nat}
    {cell : Cell}
    (isSlash : cell.char = '/')
    (isCode : (chars cells).head? = some '@' → cell.isCode '/' = true)
    (stays : slashStays depth keptDepth cell patch = true) :
    ((chars cells).head? = some '*' ↔ (chars (commentedCells patch cells)).head? = some '*') ∧
      ((chars cells).head? = some '/' ∧ depth = 0 ↔
        (chars (commentedCells patch cells)).head? = some '/' ∧ keptDepth = 0) := by
  cases cuts with
  | nil => simp [commentedCells]
  | @keep memory next rest patch =>
      have keptHead : (chars (commentedCells (.keep [next.char] :: patch) (next :: rest))).head? =
          some next.char := rfl
      rw [keptHead, chars_cons, List.head?_cons]
      refine ⟨Iff.rfl, and_congr_right fun isNext => ?_⟩
      simpa [slashStays, isSlash, Option.some.inj isNext] using stays
  | @cut memory sign body last rest patch outside isSign ends hasEnd further =>
      have isHead : (chars (sign :: body ++ [last] ++ rest)).head? = some '@' :=
        congrArg some (Cell.char_of_isCode isSign)
      rw [slashStays, isCode isHead] at stays
      contradiction

/-- The cells behind the patch hold the text behind it. -/
theorem chars_commentedCells (cuts : Cuts memory cells patch) :
    chars (commentedCells patch cells) = patch.after := by
  induction cuts with
  | nil => rfl
  | keep _ _ inductionHypothesis => exact congrArg (_ :: ·) inductionHypothesis
  | cut _ _ _ _ _ inductionHypothesis =>
      rw [commentedCells, length_chars, List.drop_left, chars_append, chars_opened,
        inductionHypothesis]
      rfl

/-- The cells behind the patch are those of their own text. -/
theorem cells_commentedCells
    (cuts : Cuts memory cells patch)
    {mode kept : Mode}
    (alike : Alike mode kept)
    (reads : mode.cells (chars cells) = cells)
    (keeps : keepsSlashes mode.depth kept.depth patch cells = true) :
    kept.cells (chars (commentedCells patch cells)) = commentedCells patch cells := by
  induction cuts generalizing mode kept with
  | nil => rfl
  | @keep memory cell rest patch noRule further inductionHypothesis =>
      rw [chars_cons, Mode.cells] at reads
      obtain ⟨isCell, restReads⟩ := List.cons.inj reads
      have split : keepsSlashes mode.depth kept.depth (.keep [cell.char] :: patch) (cell :: rest) =
          (slashStays mode.depth kept.depth cell patch &&
            keepsSlashes (openBehind mode.depth cell) (openBehind kept.depth cell) patch rest) := by
        simp [keepsSlashes]
      rw [split, Bool.and_eq_true] at keeps
      have same : mode.isCode = true → cell.char = '/' →
          ((chars rest).head? = some '*' ↔
            (chars (commentedCells patch rest)).head? = some '*') ∧
          ((chars rest).head? = some '/' ∧ mode.depth = 0 ↔
            (chars (commentedCells patch rest)).head? = some '/' ∧ kept.depth = 0) := by
        intro isCode isSlash
        refine further.head?_iff_of_slashStays isSlash (fun isAt => ?_) keeps.1
        obtain ⟨afterColon, isMode⟩ := Mode.exists_eq_code_of_isCode isCode
        rw [isSlash, isAt, isMode, read_slash (by decide) (by simp)] at isCell
        rw [← isCell]
        rfl
      obtain ⟨sameCell, stillAlike⟩ := alike.read same
      rw [isCell] at sameCell
      have depth := mode.depth_read_eq_openBehind cell.char (chars rest).head?
      have keptDepth := kept.depth_read_eq_openBehind cell.char
        (chars (commentedCells patch rest)).head?
      rw [isCell] at depth
      rw [sameCell] at keptDepth
      rw [← depth, ← keptDepth] at keeps
      have written := inductionHypothesis stillAlike restReads keeps.2
      change kept.cells (cell.char :: chars (commentedCells patch rest)) =
        cell :: commentedCells patch rest
      rw [Mode.cells, sameCell, written]
  | @cut memory sign body last rest patch outside isSign ends hasEnd further
      inductionHypothesis =>
      rw [chars_append] at reads
      obtain ⟨ownReads, restReads⟩ := Mode.parts_of_cells_eq_append reads
      have behind : mode.after (chars (sign :: body ++ [last])) (chars rest).head? =
          .code ((sign :: body ++ [last]).foldl openBehind mode.depth) false := by
        obtain semicolon | brace := ends
        · exact Mode.after_concat_of_isCode ownReads semicolon (by decide)
        · exact Mode.after_concat_of_isCode ownReads brace (by decide)
      have isCode : mode.isCode = true := by
        rw [List.cons_append, chars_cons, Mode.cellsBefore] at ownReads
        have kind : sign.kind = .code := by rw [Cell.eq_of_isCode isSign]
        rw [← (List.cons.inj ownReads).1] at kind
        obtain isCode | endsLine := (Mode.read_of_kind_eq_code kind).1
        · exact isCode
        · exact absurd (endsLine ▸ Cell.char_of_isCode isSign) (by decide)
      obtain ⟨afterColon, isMode⟩ := Mode.exists_eq_code_of_isCode isCode
      rw [isMode] at alike
      cases alike with
      | code _ keptDepth =>
          rw [keepsSlashes, length_chars, List.take_left, List.drop_left] at keeps
          rw [behind] at restReads
          have written := inductionHypothesis (.code _ keptDepth false) restReads keeps
          obtain ⟨placeholderReads, isBehind⟩ := cellsBefore_blockForm
            ("// " ++ atRuleMarker ++ " " ++ (toString memory.count).toList) keptDepth afterColon
            (chars (commentedCells patch rest)).head?
          rw [← atRulePlaceholder_eq_blockForm] at placeholderReads isBehind
          rw [commentedCells, length_chars, List.drop_left, chars_append, chars_opened,
            Mode.cells_append, placeholderReads, isBehind, written]

end Cuts

/-! ## What is left -/

/-- Neither an at-rule outside all blocks nor a block that is open ends in some cells. -/
def NeverEnds : Nat → List Cell → Prop
  | 0, cells => atRule? cells = none
  | outer + 1, cells => enclosed? '{' '}' outer cells = none

/-- An at-rule ends where the rest of its head and of its block ends. -/
theorem atRule?_eq_none_of_cons
    {cell : Cell}
    {rest : List Cell}
    (inHead : endsAtRuleHead cell = false)
    (unended : atRule? (cell :: rest) = none) :
    atRule? rest = none := by
  simp only [atRule?, List.takeWhile_cons, List.dropWhile_cons, inHead, Bool.not_false, if_true]
    at unended ⊢
  cases behind : rest.dropWhile fun cell => !endsAtRuleHead cell with
  | nil => rfl
  | cons stop others =>
      rw [behind] at unended
      by_cases semicolon : stop.char = ';'
      · simp [semicolon] at unended
      · simpa [semicolon] using unended

theorem NeverEnds.tail
    {depth : Nat}
    {cell : Cell}
    {rest : List Cell}
    (never : NeverEnds depth (cell :: rest)) :
    NeverEnds (blockDepth depth cell) rest := by
  by_cases opens : cell.isCode '{' = true
  · rw [blockDepth, if_pos opens]
    cases depth with
    | zero =>
        have isBrace := Cell.char_of_isCode opens
        simpa [NeverEnds, atRule?, endsAtRuleHead, opens, isBrace] using never
    | succ outer => simpa [NeverEnds, enclosed?, opens] using never
  · rw [Bool.not_eq_true] at opens
    cases depth with
    | zero =>
        have outside : blockDepth 0 cell = 0 := by simp [blockDepth, opens]
        have inHead : endsAtRuleHead cell = false := by
          rw [endsAtRuleHead, opens, Bool.false_or, Bool.eq_false_iff]
          intro semicolon
          have isSemicolon := Cell.char_of_isCode semicolon
          simp [NeverEnds, atRule?, endsAtRuleHead, semicolon, isSemicolon] at never
        rw [outside]
        exact atRule?_eq_none_of_cons inHead never
    | succ outer =>
        by_cases closes : cell.isCode '}' = true
        · rw [blockDepth, if_neg (by simp [opens]), if_pos closes]
          cases outer with
          | zero => simp [NeverEnds, enclosed?, opens, closes] at never
          | succ further => simpa [NeverEnds, enclosed?, opens, closes] using never
        · rw [blockDepth, if_neg (by simp [opens]), if_neg closes]
          simpa [NeverEnds, enclosed?, opens, closes] using never

theorem foldl_blockDepth_opened
    {kind : LexicalClass}
    (noCode : kind ≠ .code)
    (text : Text)
    (depth : Nat) :
    (opened kind text).foldl blockDepth depth = depth := by
  refine foldl_blockDepth_of_no_brace (fun cell member => ?_) depth
  simp [Cell.isCode, kind_of_mem_opened member, noCode]

namespace Cuts

variable {memory : AtRuleMemory} {cells : List Cell} {patch : Patch}

/-- Where nothing ends, nothing is cut out. -/
theorem commentedCells_eq_self
    (cuts : Cuts memory cells patch)
    (never : NeverEnds memory.depth cells) :
    commentedCells patch cells = cells := by
  induction cuts with
  | nil => rfl
  | keep _ _ inductionHypothesis => exact congrArg (_ :: ·) (inductionHypothesis never.tail)
  | cut outside _ _ hasEnd =>
      rw [outside] at never
      exact absurd never hasEnd

/-- Behind the patch an at-rule begins at a kept cell exactly if one began there before. -/
theorem startsForeignAtRule_cons_eq
    (cuts : Cuts memory cells patch)
    (cell : Cell) :
    startsForeignAtRule (cell :: commentedCells patch cells) =
      startsForeignAtRule (cell :: cells) := by
  obtain same | ⟨front, behind, keptBehind, split, keptSplit⟩ := cuts.chars_eq_or_exists
  · rw [startsForeignAtRule, startsForeignAtRule, same]
  · rw [startsForeignAtRule, startsForeignAtRule, split, keptSplit,
      any_startsWithKeyword_append_mark rfl rfl (by decide),
      any_startsWithKeyword_append_mark rfl rfl (by decide)]

/-- No at-rule that has an end is left outside all blocks. -/
theorem cutsNothing
    (cuts : Cuts memory cells patch)
    {front rule : List Cell}
    (split : commentedCells patch cells = front ++ rule)
    (outside : front.foldl blockDepth memory.depth = 0)
    (starts : startsForeignAtRule rule = true) :
    atRule? rule = none := by
  induction cuts generalizing front with
  | nil =>
      obtain rfl := (List.append_eq_nil_iff.1 split.symm).2
      contradiction
  | @keep memory cell rest patch noRule further inductionHypothesis =>
      change cell :: commentedCells patch rest = front ++ rule at split
      cases front with
      | nil =>
          obtain rfl := split
          change memory.depth = 0 at outside
          rw [further.startsForeignAtRule_cons_eq] at starts
          rw [placeholder?, if_pos ⟨outside, starts⟩, Option.map_eq_none_iff] at noRule
          have never : NeverEnds memory.depth (cell :: rest) := by
            rw [outside]
            exact noRule
          rw [further.commentedCells_eq_self never.tail]
          exact noRule
      | cons first front =>
          obtain ⟨rfl, restSplit⟩ := List.cons.inj split
          exact inductionHypothesis restSplit outside
  | @cut memory sign body last rest patch isOutside isSign ends hasEnd further
      inductionHypothesis =>
      rw [commentedCells, length_chars, List.drop_left, List.append_eq_append_iff] at split
      obtain ⟨others, rfl, restSplit⟩ | ⟨others, commentSplit, rfl⟩ := split
      · rw [List.foldl_append, foldl_blockDepth_opened (by decide)] at outside
        exact inductionHypothesis restSplit outside
      · cases others with
        | nil => exact @inductionHypothesis [] rfl isOutside
        | cons comment others =>
            have inComment : comment ∈ opened .blockComment (atRulePlaceholder memory.count) := by
              rw [commentSplit]
              exact List.mem_append_cons_self
            simp [startsForeignAtRule, Cell.isCode, kind_of_mem_opened inComment] at starts

end Cuts

/-! ## The pass -/

theorem cuts_atRulePatch (source : Text) : Cuts ⟨0, 0⟩ (cells source) (atRulePatch source) :=
  cuts_patchFrom ⟨0, 0⟩ (cells source)

/-- Where the slashes are read as before, the placeholders are comments and all else is kept. -/
theorem cells_source_cutAtRules
    {source : Text}
    (keeps : keepsSlashes 0 0 (atRulePatch source) (cells source) = true) :
    cells (cutAtRules source).source = commentedCells (atRulePatch source) (cells source) := by
  have cuts := cuts_atRulePatch source
  have result : chars (commentedCells (atRulePatch source) (cells source)) =
      (cutAtRules source).source := cuts.chars_commentedCells
  have reads : Mode.initial.cells (chars (cells source)) = cells source :=
    congrArg Mode.initial.cells (chars_cells source)
  rw [← result]
  exact cuts.cells_commentedCells (.code 0 0 false) reads keeps

theorem hasNoForeignAtRule_source_cutAtRules
    {source : Text}
    (keeps : keepsSlashes 0 0 (atRulePatch source) (cells source) = true) :
    HasNoForeignAtRule (cutAtRules source).source := by
  intro front rule split outside starts
  rw [cells_source_cutAtRules keeps] at split
  exact (cuts_atRulePatch source).cutsNothing split outside starts

/--
Cutting a second time changes nothing exactly if no at-rule that has an end is
read outside all blocks of the result.  So it is where no slash of code stands
in front of a cut and the cuts change for no two slashes whether parentheses
are open: then every placeholder is read as a comment, and every other
character is in the class that it was in.
-/
theorem cutAtRules_source_cutAtRules
    (source : Text) :
    (cutAtRules (cutAtRules source).source = ⟨(cutAtRules source).source, []⟩ ↔
        HasNoForeignAtRule (cutAtRules source).source) ∧
      (keepsSlashes 0 0 (atRulePatch source) (cells source) = true →
        cells (cutAtRules source).source = commentedCells (atRulePatch source) (cells source) ∧
          cutAtRules (cutAtRules source).source = ⟨(cutAtRules source).source, []⟩) := by
  exact ⟨cutAtRules_eq_self_iff, fun keeps => ⟨cells_source_cutAtRules keeps,
    cutAtRules_eq_self_iff.2 (hasNoForeignAtRule_source_cutAtRules keeps)⟩⟩

/-- A cut may leave a parenthesis open where no slashes follow before the next brace. -/
theorem cutAtRules_source_cutAtRules_brace :
    keepsSlashes 0 0 (atRulePatch "@layer a(;b\x7b//c\n\x7d@scope d;//e")
        (cells "@layer a(;b\x7b//c\n\x7d@scope d;//e") = true ∧
      (cutAtRules "@layer a(;b\x7b//c\n\x7d@scope d;//e").atRules = ["@layer a(;", "@scope d;"] ∧
      cutAtRules (cutAtRules "@layer a(;b\x7b//c\n\x7d@scope d;//e").source =
        ⟨(cutAtRules "@layer a(;b\x7b//c\n\x7d@scope d;//e").source, []⟩ := by
  have keeps : keepsSlashes 0 0 (atRulePatch "@layer a(;b\x7b//c\n\x7d@scope d;//e")
      (cells "@layer a(;b\x7b//c\n\x7d@scope d;//e") = true := by decide +kernel
  obtain ⟨-, stays⟩ := cutAtRules_source_cutAtRules "@layer a(;b\x7b//c\n\x7d@scope d;//e"
  exact ⟨keeps, by decide +kernel, (stays keeps).2⟩

/-- Without the parenthesis that a cut closed, the slashes behind it are code. -/
theorem cutAtRules_source_ne_self_closing_parenthesis :
    cutAtRules "(@layer a);//@layer b;" =
        ⟨"(/* themeweave:reinject 0 *///@layer b;", ["@layer a);"]⟩ ∧
      cutAtRules "(/* themeweave:reinject 0 *///@layer b;" =
        ⟨"(/* themeweave:reinject 0 *////* themeweave:reinject 0 */", ["@layer b;"]⟩ := by
  decide +kernel

end Lowering
end LessTheme
