import LessTheme.Lowering.AtRule
import LessTheme.Proofs.Source.Patch
import LessTheme.Proofs.Text.Pieces
import LessTheme.Proofs.Text.Trim

/-!
# No at-rule is lost

Cutting takes at-rules out of a stylesheet, marks the place of each, and
leaves the text between them as it is.  Every at-rule that is cut out stands
outside all blocks, and after compilation each of them is added as it was
written, once and in order.
-/

namespace LessTheme
namespace Lowering

open Source

/-! ## The ends of an at-rule -/

/-- A block that is open before its inside is open behind it, and no other one is. -/
theorem foldl_blockDepth_of_enclosed?_eq_some
    {depth : Nat}
    {cells inner : List Cell}
    (enclosed : enclosed? '{' '}' depth cells = some inner) :
    inner.foldl blockDepth (depth + 1) = 1 := by
  induction cells generalizing depth inner with
  | nil => simp [enclosed?] at enclosed
  | cons cell rest inductionHypothesis =>
      unfold enclosed? at enclosed
      by_cases opens : cell.isCode '{' = true
      · rw [if_pos opens] at enclosed
        obtain ⟨tail, tailEnclosed, rfl⟩ := Option.map_eq_some_iff.1 enclosed
        rw [List.foldl_cons, blockDepth, if_pos opens]
        exact inductionHypothesis tailEnclosed
      · by_cases closes : cell.isCode '}' = true
        · rw [if_neg opens, if_pos closes] at enclosed
          cases depth with
          | zero =>
              obtain rfl := Option.some.inj enclosed
              rfl
          | succ outer =>
              obtain ⟨tail, tailEnclosed, rfl⟩ := Option.map_eq_some_iff.1 enclosed
              rw [List.foldl_cons, blockDepth, if_neg opens, if_pos closes]
              exact inductionHypothesis tailEnclosed
        · rw [if_neg opens, if_neg closes] at enclosed
          obtain ⟨tail, tailEnclosed, rfl⟩ := Option.map_eq_some_iff.1 enclosed
          rw [List.foldl_cons, blockDepth, if_neg opens, if_neg closes]
          exact inductionHypothesis tailEnclosed

/-- The head of an at-rule opens no block, and outside all blocks it closes none. -/
theorem foldl_blockDepth_of_not_endsAtRuleHead
    {head : List Cell}
    (isHead : ∀ cell ∈ head, endsAtRuleHead cell = false) :
    head.foldl blockDepth 0 = 0 := by
  induction head with
  | nil => rfl
  | cons cell rest inductionHypothesis =>
      have opens : cell.isCode '{' = false :=
        (Bool.or_eq_false_iff.1 (isHead cell List.mem_cons_self)).1
      have outside : blockDepth 0 cell = 0 := by
        simp [blockDepth, opens]
      rw [List.foldl_cons, outside]
      exact inductionHypothesis fun other member => isHead other (List.mem_cons_of_mem _ member)

/-- Cells without braces of code neither open nor close a block. -/
theorem foldl_blockDepth_of_no_brace
    {cells : List Cell}
    (noBrace : ∀ cell ∈ cells, cell.isCode '{' = false ∧ cell.isCode '}' = false)
    (depth : Nat) :
    cells.foldl blockDepth depth = depth := by
  induction cells with
  | nil => rfl
  | cons cell rest inductionHypothesis =>
      obtain ⟨noOpening, noClosing⟩ := noBrace cell List.mem_cons_self
      have stays : blockDepth depth cell = depth := by
        simp [blockDepth, noOpening, noClosing]
      rw [List.foldl_cons, stays]
      exact inductionHypothesis fun other member => noBrace other (List.mem_cons_of_mem _ member)

/-- An at-rule at the front of some cells, which is as many cells of theirs. -/
structure IsAtRule (rule own : List Cell) : Prop where
  sameChars : chars own = chars rule
  outside : own.foldl blockDepth 0 = 0
  ends : (chars own).getLast? = some ';' ∨ (chars own).getLast? = some '}'

theorem isAtRule_of_semicolon
    {head : List Cell}
    {stop : Cell}
    (outside : head.foldl blockDepth 0 = 0)
    (semicolon : stop.char = ';') :
    IsAtRule (head ++ [stop]) (head ++ [stop]) := by
  refine ⟨rfl, ?_, Or.inl (by simp [semicolon])⟩
  rw [List.foldl_append, outside]
  simp [blockDepth, Cell.isCode, semicolon]

/-- The cell that closes the block of an at-rule need not be the one that is written for it. -/
theorem isAtRule_of_block
    {head inner : List Cell}
    {stop close written : Cell}
    (outside : head.foldl blockDepth 0 = 0)
    (opens : stop.isCode '{' = true)
    (closed : inner.foldl blockDepth 1 = 1)
    (closes : close.isCode '}' = true)
    (sameChar : written.char = '}') :
    IsAtRule (head ++ stop :: (inner ++ [written])) (head ++ stop :: (inner ++ [close])) := by
  have isBrace : close.char = '}' := by
    simp only [Cell.isCode, Bool.and_eq_true, beq_iff_eq] at closes
    exact closes.2
  have notOpens : close.isCode '{' = false := by simp [Cell.isCode, isBrace]
  refine ⟨by simp [isBrace, sameChar], ?_, Or.inr ?_⟩
  · rw [List.foldl_append, outside, List.foldl_cons, blockDepth, if_pos opens,
      List.foldl_append, closed]
    simp [blockDepth, notOpens, closes]
  · rw [chars_append, chars_cons, chars_append, ← List.cons_append, ← List.append_assoc,
      List.getLast?_append]
    simp [isBrace]

/-- An at-rule is its head with the semicolon behind it, or with the block behind it. -/
theorem exists_head_of_atRule?_eq_some
    {cells rule : List Cell}
    (found : atRule? cells = some rule) :
    ∃ head stop rest, cells = head ++ stop :: rest ∧
      (∀ cell ∈ head, endsAtRuleHead cell = false) ∧
      (stop.isCode ';' = true ∧ rule = head ++ [stop] ∨
        stop.isCode '{' = true ∧ ∃ inner, enclosed? '{' '}' 0 rest = some inner ∧
          rule = head ++ stop :: (inner ++ [⟨'}', .code, false⟩])) := by
  have whole := List.takeWhile_append_dropWhile (p := fun cell => !endsAtRuleHead cell) (l := cells)
  have isHead : ∀ cell ∈ cells.takeWhile fun cell => !endsAtRuleHead cell,
      endsAtRuleHead cell = false := by
    intro cell member
    simpa using List.mem_takeWhile_imp member
  have stopEnds : ∀ cell, (cells.dropWhile fun cell => !endsAtRuleHead cell).head? = some cell →
      endsAtRuleHead cell = true := by
    intro cell isFirst
    have stops := List.head?_dropWhile_not (fun cell => !endsAtRuleHead cell) cells
    rw [isFirst] at stops
    simpa using stops
  unfold atRule? at found
  dsimp only at found
  generalize (cells.takeWhile fun cell => !endsAtRuleHead cell) = head at *
  cases behind : cells.dropWhile fun cell => !endsAtRuleHead cell with
  | nil =>
      rw [behind] at found
      contradiction
  | cons stop rest =>
      rw [behind] at found whole stopEnds
      have isStop := stopEnds stop rfl
      refine ⟨head, stop, rest, whole.symm, isHead, ?_⟩
      dsimp only at found
      split at found
      case isTrue semicolon =>
        left
        exact ⟨by simpa [endsAtRuleHead, Cell.isCode, semicolon] using isStop,
          (Option.some.inj found).symm⟩
      case isFalse notSemicolon =>
        right
        obtain ⟨inner, isInner, isRule⟩ := Option.map_eq_some_iff.1 found
        exact ⟨by simpa [endsAtRuleHead, Cell.isCode, notSemicolon] using isStop, inner, isInner,
          isRule.symm⟩

/-- What is read as an at-rule is one at the front of the cells. -/
theorem exists_isAtRule_of_atRule?_eq_some
    {cells rule : List Cell}
    (found : atRule? cells = some rule) :
    ∃ own rest, cells = own ++ rest ∧ IsAtRule rule own := by
  obtain ⟨head, stop, rest, rfl, isHead, ⟨semicolon, rfl⟩ | ⟨opens, inner, isInner, rfl⟩⟩ :=
    exists_head_of_atRule?_eq_some found
  · have outside := foldl_blockDepth_of_not_endsAtRuleHead isHead
    exact ⟨_, rest, List.append_cons head stop rest,
      isAtRule_of_semicolon outside (Cell.char_of_isCode semicolon)⟩
  · have outside := foldl_blockDepth_of_not_endsAtRuleHead isHead
    obtain ⟨close, others, rfl, closes⟩ := exists_eq_append_of_enclosed?_eq_some isInner
    have closed := foldl_blockDepth_of_enclosed?_eq_some isInner
    refine ⟨head ++ stop :: (inner ++ [close]), others, by simp, ?_⟩
    exact isAtRule_of_block outside opens closed closes rfl

/-- The last cell of an at-rule is a semicolon or a brace of code. -/
theorem exists_concat_of_atRule?_eq_some
    {cells rule : List Cell}
    (found : atRule? cells = some rule) :
    ∃ body last rest, cells = body ++ last :: rest ∧ body.length + 1 = rule.length ∧
      (last.isCode ';' = true ∨ last.isCode '}' = true) := by
  obtain ⟨head, stop, rest, rfl, -, ⟨semicolon, rfl⟩ | ⟨-, inner, isInner, rfl⟩⟩ :=
    exists_head_of_atRule?_eq_some found
  · exact ⟨head, stop, rest, rfl, by simp, .inl semicolon⟩
  · obtain ⟨close, others, rfl, closes⟩ := exists_eq_append_of_enclosed?_eq_some isInner
    exact ⟨head ++ stop :: inner, close, others, by simp, by simp [Nat.add_assoc], .inr closes⟩

/-! ## Where at-rules are cut out -/

/-- What is remembered in front of the cells passed so far, with a number of at-rules cut out. -/
def Remembers (count : Nat) (passed : List Cell) (memory : AtRuleMemory) : Prop :=
  memory = ⟨passed.foldl blockDepth 0, count⟩

theorem Remembers.keep
    {count : Nat}
    {passed : List Cell}
    {memory : AtRuleMemory}
    (remembers : Remembers count passed memory)
    (cell : Cell) :
    Remembers count (passed ++ [cell]) (atRuleRule.keep memory cell) := by
  rw [remembers, Remembers, List.foldl_append]
  rfl

/-- A replacement is made outside all blocks, where a foreign at-rule begins that has an end. -/
theorem exists_of_placeholder?_eq_some
    {count : Nat}
    {passed suffix : List Cell}
    {memory : AtRuleMemory}
    {replacement : Replacement}
    (remembers : Remembers count passed memory)
    (made : placeholder? memory suffix = some replacement) :
    passed.foldl blockDepth 0 = 0 ∧ startsForeignAtRule suffix = true ∧
      replacement.new = atRulePlaceholder count ∧
      ∃ rule own rest, suffix = own ++ rest ∧ IsAtRule rule own ∧
        own = suffix.take (replacement.furtherCells + 1) := by
  rw [placeholder?, remembers] at made
  split at made
  case isTrue begins =>
    obtain ⟨rule, found, rfl⟩ := Option.map_eq_some_iff.1 made
    obtain ⟨own, rest, split, isRule⟩ := exists_isAtRule_of_atRule?_eq_some found
    refine ⟨begins.1, begins.2, rfl, rule, own, rest, split, isRule, ?_⟩
    have sameLength : own.length = rule.length := by
      rw [← length_chars, isRule.sameChars, length_chars]
    have nonempty : own ≠ [] := by
      rintro rfl
      simpa using isRule.ends
    have positive := List.length_pos_of_ne_nil nonempty
    have furtherCells : rule.length - 1 + 1 = own.length := by omega
    dsimp only
    rw [furtherCells, split, List.take_left]
  case isFalse => contradiction

theorem Remembers.replace
    {count : Nat}
    {passed : List Cell}
    {memory : AtRuleMemory}
    {cell : Cell}
    {rest : List Cell}
    {replacement : Replacement}
    (remembers : Remembers count passed memory)
    (made : placeholder? memory (cell :: rest) = some replacement) :
    Remembers (count + 1) (passed ++ cell :: rest.take replacement.furtherCells)
      (atRuleRule.replace memory) := by
  obtain ⟨outside, -, -, rule, own, others, -, isRule, taken⟩ :=
    exists_of_placeholder?_eq_some remembers made
  rw [List.take_succ_cons] at taken
  rw [remembers, Remembers, List.foldl_append, ← taken, outside, isRule.outside]
  rfl

/-- An at-rule stands in a source behind a text, at an at sign of code outside all blocks. -/
structure StandsBehind (source front rule : Text) : Prop where
  isSign : ∃ cell rest, (cells source).drop front.length = cell :: rest ∧
    cell.isCode '@' = true
  isOutside : ((cells source).take front.length).foldl blockDepth 0 = 0
  begins : rule.head? = some '@'
  ends : rule.getLast? = some ';' ∨ rule.getLast? = some '}'

/-- Every replacement puts the placeholder with its number for an at-rule outside all blocks. -/
theorem standsBehind_of_atRulePatch_eq
    {source : Text}
    {front back : Patch}
    {old new : Text}
    (split : atRulePatch source = front ++ .replace old new :: back) :
    new = atRulePlaceholder front.replaced.length ∧ StandsBehind source front.before old := by
  obtain ⟨ahead, suffix, memory, replacement, divided, isAhead, remembers, made, rfl, rfl⟩ :=
    atRuleRule.exists_holds_of_patchFrom_eq Remembers
      (fun remembers _ => remembers.keep _) Remembers.replace
      (show Remembers 0 ([] ++ (cells source).take 0) ⟨0, 0⟩ from rfl) split
  rw [Nat.zero_add] at remembers
  obtain ⟨outside, starts, isPlaceholder, rule, own, rest, ownSplit, isRule, taken⟩ :=
    exists_of_placeholder?_eq_some remembers made
  rw [List.nil_append] at divided
  have aheadLength : front.before.length = ahead.length := by
    rw [← length_chars ahead, isAhead]
    simp
  refine ⟨isPlaceholder, ?_, ?_, ?_, ?_⟩
  · rw [divided, aheadLength, List.drop_left]
    cases suffix with
    | nil => simp [startsForeignAtRule] at starts
    | cons cell others =>
        refine ⟨cell, others, rfl, ?_⟩
        rw [startsForeignAtRule, Bool.and_eq_true] at starts
        exact starts.1
  · rw [divided, aheadLength, List.take_left]
    exact outside
  · cases suffix with
    | nil => simp [startsForeignAtRule] at starts
    | cons cell others =>
        simp only [startsForeignAtRule, Cell.isCode, Bool.and_eq_true, beq_iff_eq] at starts
        rw [List.take_succ_cons, chars_cons, List.head?_cons, starts.1.2]
  · rw [← taken]
    exact isRule.ends

/-! ## Adding at-rules to a stylesheet -/

theorem appendBlock_ne_nil
    {block : Text}
    (nonempty : block ≠ [])
    (text : Text) :
    appendBlock text block ≠ [] := by
  unfold appendBlock
  split
  · exact nonempty
  · simp

/-- Blocks stand behind a text with blank lines between. -/
theorem foldl_appendBlock
    {blocks : List Text}
    (nonempty : ∀ block ∈ blocks, block ≠ [])
    (text : Text) :
    blocks.foldl appendBlock text =
      List.intercalate "\n\n" ((if text.isEmpty then [] else [text]) ++ blocks) := by
  induction blocks generalizing text with
  | nil =>
      cases text with
      | nil => rfl
      | cons char rest => simp
  | cons block rest inductionHypothesis =>
      have written : (appendBlock text block).isEmpty = false := by
        simpa using appendBlock_ne_nil (nonempty block List.mem_cons_self) text
      rw [List.foldl_cons,
        inductionHypothesis fun other member => nonempty other (List.mem_cons_of_mem _ member),
        written, if_neg Bool.false_ne_true]
      unfold appendBlock
      split
      · rfl
      · cases rest with
        | nil => simp [List.intercalate]
        | cons next others =>
            simp only [List.cons_append, List.nil_append, List.intercalate_cons_cons,
              List.append_assoc]

/-- An at-rule that has been cut out is trimmed already. -/
theorem StandsBehind.trim_eq_self
    {source front rule : Text}
    (stands : StandsBehind source front rule) :
    rule.trim = rule := by
  apply Text.dropAround_eq_self
  · intro char isFirst
    obtain rfl := Option.some.inj (stands.begins.symm.trans isFirst)
    rfl
  · intro char isLast
    obtain semicolon | brace := stands.ends
    · obtain rfl := Option.some.inj (semicolon.symm.trans isLast)
      rfl
    · obtain rfl := Option.some.inj (brace.symm.trans isLast)
      rfl

/-- The comment in place of an at-rule, as it is written. -/
theorem atRulePlaceholder_eq (number : Nat) :
    atRulePlaceholder number =
      "/* themeweave:reinject " ++ (toString number).toList ++ " */" := by
  have marker : ("/* themeweave:reinject " : Text) = "/* " ++ atRuleMarker ++ " " := by decide
  rw [marker]
  rfl

/--
A stylesheet is woven from kept texts and the at-rules that are cut out of it,
and what is left of it from the same texts and numbered placeholders.  Each
at-rule stands at an at sign of code outside all blocks and ends with a
semicolon or a brace.  Added to any stylesheet they follow its text, each once,
as written and in order, with blank lines between.
-/
theorem cutAtRules_eq_weave_and_appendAtRules_eq_intercalate
    (source : Text) :
    (∃ cuts last,
      (cutAtRules source).atRules = cuts.map Prod.snd ∧
      source = wovenText cuts last ∧
      (cutAtRules source).source =
        weave (fun number _ =>
          "/* themeweave:reinject " ++ (toString number).toList ++ " */") 0 cuts last ∧
      ∀ earlier kept rule later, cuts = earlier ++ (kept, rule) :: later →
        StandsBehind source (wovenText earlier kept) rule) ∧
    ∀ css, (cutAtRules source).atRules ≠ [] →
      appendAtRules css (cutAtRules source).atRules =
        List.intercalate "\n\n"
          ((if css.trimEnd.isEmpty then [] else [css.trimEnd]) ++ (cutAtRules source).atRules) ++
          ['\n'] := by
  have isPatch : (cutAtRules source).atRules = (Patch.cutsAfter [] (atRulePatch source)).map
      Prod.snd := Patch.replaced_eq_map_cutsAfter [] _
  have stands : ∀ earlier kept rule later,
      Patch.cutsAfter [] (atRulePatch source) = earlier ++ (kept, rule) :: later →
        StandsBehind source (wovenText earlier kept) rule := by
    intro earlier kept rule later split
    obtain ⟨front, new, back, patchSplit, woven⟩ := Patch.exists_replace_of_cutsAfter_eq split
    rw [← woven]
    exact (standsBehind_of_atRulePatch_eq patchSplit).2
  refine ⟨⟨_, Patch.lastAfter [] (atRulePatch source), isPatch, ?_, ?_, stands⟩, ?_⟩
  · rw [← Patch.before_eq_wovenText, atRulePatch, Rule.before_patch]
    rfl
  · refine Patch.after_eq_weave (fun front old new back split => ?_) []
    rw [Nat.zero_add, ← atRulePlaceholder_eq]
    exact (standsBehind_of_atRulePatch_eq split).1
  · intro css nonempty
    have trimmed : ∀ rule ∈ (cutAtRules source).atRules, rule.trim = rule ∧ rule ≠ [] := by
      intro rule member
      rw [isPatch] at member
      obtain ⟨⟨kept, cut⟩, isCut, rfl⟩ := List.mem_map.1 member
      obtain ⟨earlier, later, split⟩ := List.append_of_mem isCut
      have here := stands earlier kept cut later split
      refine ⟨here.trim_eq_self, ?_⟩
      rintro rfl
      exact absurd here.begins (by simp)
    have sameRules : (cutAtRules source).atRules.map Text.trim = (cutAtRules source).atRules :=
      (List.map_congr_left fun rule member => (trimmed rule member).1).trans (List.map_id _)
    rw [appendAtRules, if_neg (by simpa using nonempty), sameRules,
      foldl_appendBlock fun rule member => (trimmed rule member).2]

/-- Two at-rules leave numbered comments and follow a stylesheet, the one with a block as well. -/
theorem cutAtRules_eq_weave_and_appendAtRules_eq_intercalate_sample :
    cutAtRules "a\x7b\x7d@layer b;@container (x)\x7bc\x7b\x7d\x7d" =
        ⟨"a\x7b\x7d/* themeweave:reinject 0 *//* themeweave:reinject 1 */",
          ["@layer b;", "@container (x)\x7bc\x7b\x7d\x7d"]⟩ ∧
      appendAtRules "a \x7b\x7d\n" ["@layer b;", "@container (x)\x7bc\x7b\x7d\x7d"] =
        "a \x7b\x7d\n\n@layer b;\n\n@container (x)\x7bc\x7b\x7d\x7d\n" := by
  have lowered : cutAtRules "a\x7b\x7d@layer b;@container (x)\x7bc\x7b\x7d\x7d" =
      ⟨"a\x7b\x7d/* themeweave:reinject 0 *//* themeweave:reinject 1 */",
        ["@layer b;", "@container (x)\x7bc\x7b\x7d\x7d"]⟩ := by
    decide +kernel
  obtain ⟨-, appended⟩ := cutAtRules_eq_weave_and_appendAtRules_eq_intercalate
    "a\x7b\x7d@layer b;@container (x)\x7bc\x7b\x7d\x7d"
  rw [lowered] at appended
  refine ⟨lowered, ?_⟩
  rw [appended _ (List.cons_ne_nil _ _)]
  decide +kernel

end Lowering
end LessTheme
