import LessTheme.Proofs.Lowering.Expansion
import LessTheme.Proofs.Lowering.Placeholder

/-!
# What cutting at-rules out keeps

A cut at-rule that is a statement of its own leaves the statements around it,
and its comment becomes part of the next one.  A selector with the comment in
front is the selector without it, and one with the comment inside is not bound.
Where no parenthesis is open in front of a cut, every call stands between two
cuts, so the calls of the result are calls of the source.
-/

namespace LessTheme
namespace Lowering

open Source

/-- Whether every stretch that a patch replaces ends with a statement, given the marked cells. -/
def cutsStatements : Patch → List (Cell × Bool) → Bool
  | [], _ => true
  | .keep text :: rest, marked => cutsStatements rest (marked.drop text.length)
  | .replace old _ :: rest, marked =>
      (marked.drop (old.length - 1)).head?.any endsStatement &&
        cutsStatements rest (marked.drop old.length)

/-- How many parentheses are not closed behind a cell; a brace does not close them. -/
def unclosedBehind (depth : Nat) (cell : Cell) : Nat :=
  if cell.isCode '(' then depth + 1
  else if cell.isCode ')' then depth - 1
  else depth

/-- Whether what a patch keeps leaves no parenthesis unclosed in front of a cut. -/
def cutsOutsideParentheses : Nat → Patch → List Cell → Bool
  | _, [], _ => true
  | depth, .keep text :: rest, cells =>
      cutsOutsideParentheses ((cells.take text.length).foldl unclosedBehind depth) rest
        (cells.drop text.length)
  | depth, .replace old _ :: rest, cells =>
      depth == 0 && cutsOutsideParentheses 0 rest (cells.drop old.length)

/-! ## Comments in front of statements -/

namespace Statement

/-- A comment in front of a statement that is not bound, or inside of its selector, binds none. -/
theorem binding?_eq_none_of_comment
    {comment body : List Cell}
    {stop : Option Cell}
    (nonempty : comment ≠ [])
    (isComment : ∀ cell ∈ comment, cell.isComment = true)
    (unbound : binding? ⟨body, stop⟩ = none)
    (lead : List Cell) :
    binding? ⟨lead ++ (comment ++ body), stop⟩ = none := by
  have commentLead : ∀ cell ∈ comment, isLead cell = true := by
    intro cell member
    rw [isLead, isComment cell member, Bool.or_true]
  by_cases allLead : ∀ cell ∈ lead, isLead cell = true
  · have sameSelector : selector ⟨lead ++ (comment ++ body), stop⟩ = selector ⟨body, stop⟩ := by
      rw [selector, List.dropWhile_append_of_pos allLead, List.dropWhile_append_of_pos commentLead]
      rfl
    rwa [binding?, isComplex, sameSelector]
  · have holdsComment :
        (selector ⟨lead ++ (comment ++ body), stop⟩).any Cell.isComment = true := by
      obtain ⟨cell, others, isRest⟩ : ∃ cell others, lead.dropWhile isLead = cell :: others := by
        apply List.exists_cons_of_ne_nil
        rwa [Ne, List.dropWhile_eq_nil_iff]
      obtain ⟨first, further, rfl⟩ := List.exists_cons_of_ne_nil nonempty
      rw [selector, List.dropWhile_append, isRest]
      simp [isComment first List.mem_cons_self]
    rw [binding?, isComplex, holdsComment]
    simp

end Statement

/-- Cells in front change the first of some statements only. -/
theorem exists_foldr_extendFirst_cons
    (lead : List Cell)
    (first : Statement) :
    ∃ extended, ∀ others, lead.foldr extendFirst (first :: others) = extended :: others := by
  induction lead with
  | nil => exact ⟨first, fun _ => rfl⟩
  | cons cell rest inductionHypothesis =>
      obtain ⟨extended, whole⟩ := inductionHypothesis
      exact ⟨⟨cell :: extended.body, extended.stop⟩,
        fun others => by rw [List.foldr_cons, whole]; rfl⟩

/-- What holds of all statements holds of those behind the end of one. -/
theorem forall_mem_statements_behind
    {property : Statement → Prop}
    {front : List (Cell × Bool)}
    {stop : Cell × Bool}
    {back : List (Cell × Bool)}
    (ends : endsStatement stop = true)
    (lead : List Cell)
    (all : ∀ statement ∈ lead.foldr extendFirst (statements (front ++ stop :: back)),
      property statement) :
    ∀ statement ∈ statements back, property statement := by
  obtain ⟨before, start, whole⟩ := exists_statements_append front
  obtain ⟨extended, isExtended⟩ := exists_foldr_extendFirst_cons start ⟨[], some stop.1⟩
  rw [whole, statements, if_pos ends, isExtended] at all
  intro statement member
  cases before with
  | nil =>
      obtain ⟨first, isFirst⟩ := exists_foldr_extendFirst_cons lead extended
      rw [List.nil_append, isFirst] at all
      exact all statement (List.mem_cons_of_mem _ member)
  | cons other others =>
      obtain ⟨first, isFirst⟩ := exists_foldr_extendFirst_cons lead other
      rw [List.cons_append, isFirst] at all
      exact all statement (List.mem_cons_of_mem _
        (List.mem_append_right _ (List.mem_cons_of_mem _ member)))

/-- No statement is bound if a comment is put in front of statements that are not bound. -/
theorem binding?_eq_none_of_mem_foldr_comment
    {comment : List Cell}
    {behind : List Statement}
    (nonempty : comment ≠ [])
    (isComment : ∀ cell ∈ comment, cell.isComment = true)
    (unbound : ∀ statement ∈ behind, statement.binding? = none)
    (lead : List Cell) :
    ∀ statement ∈ lead.foldr extendFirst (comment.foldr extendFirst behind),
      statement.binding? = none := by
  obtain ⟨rest, stop, after, isBehind, extended⟩ := exists_foldr_extendFirst behind
  have parts : Statement.binding? ⟨rest, stop⟩ = none ∧
      ∀ statement ∈ after, statement.binding? = none := by
    obtain rfl | ⟨rfl, rfl⟩ := isBehind
    · exact List.forall_mem_cons.1 unbound
    · exact ⟨Statement.binding?_eq_none_of_stop rfl, List.forall_mem_nil _⟩
  rw [← List.foldr_append, extended _ (by simp [nonempty]), List.append_assoc]
  exact List.forall_mem_cons.2
    ⟨Statement.binding?_eq_none_of_comment nonempty isComment parts.1 lead, parts.2⟩

/-! ## Marks behind a cut -/

/-- Cells are marked one by one, and one that ends a statement leads into no interpolation. -/
theorem exists_markInterpolations_append_cons
    (inside : Bool)
    (front : List Cell)
    (last : Cell)
    (rest : List Cell) :
    ∃ ahead flag further, ahead.length = front.length ∧
      markInterpolations inside (front ++ last :: rest) =
          ahead ++ (last, flag) :: markInterpolations further rest ∧
        (endsStatement (last, flag) = true → further = false) := by
  induction front generalizing inside with
  | nil =>
      cases inside with
      | true => exact ⟨[], true, last.char != '}', rfl, rfl, (absurd · Bool.false_ne_true)⟩
      | false =>
          refine ⟨[], false, entersInterpolation last rest, rfl, rfl, fun ends => ?_⟩
          have noAt : last.isCode '@' = false := by
            rw [Bool.eq_false_iff]
            intro isAt
            exact Bool.false_ne_true ((endsStatement_eq_false_of_isCode isAt).symm.trans ends)
          rw [entersInterpolation, noAt]
          rfl
  | cons cell others inductionHypothesis =>
      obtain ⟨next, marks⟩ : ∃ next, markInterpolations inside (cell :: others ++ last :: rest) =
          (cell, inside) :: markInterpolations next (others ++ last :: rest) := by
        cases inside with
        | true => exact ⟨cell.char != '}', rfl⟩
        | false => exact ⟨entersInterpolation cell (others ++ last :: rest), rfl⟩
      obtain ⟨ahead, flag, further, sameLength, othersMarks, stays⟩ := inductionHypothesis next
      refine ⟨(cell, inside) :: ahead, flag, further, by simp [sameLength], ?_, stays⟩
      rw [marks, othersMarks, List.cons_append]

/-- Cells of comments belong to no interpolation behind none. -/
theorem markInterpolations_comment_append
    {comment : List Cell}
    (isComment : ∀ cell ∈ comment, cell.kind = .blockComment)
    (rest : List Cell) :
    markInterpolations false (comment ++ rest) =
      comment.map (·, false) ++ markInterpolations false rest := by
  induction comment with
  | nil => rfl
  | cons cell others inductionHypothesis =>
      obtain ⟨here, further⟩ := List.forall_mem_cons.1 isComment
      have skips : entersInterpolation cell (others ++ rest) = false := by
        simp [entersInterpolation, Cell.isCode, here]
      rw [List.cons_append, markInterpolations_false_cons, skips, inductionHypothesis further]
      rfl

/-- Comments in front are part of the first statement behind them. -/
theorem statements_markInterpolations_comment
    {comment : List Cell}
    (isComment : ∀ cell ∈ comment, cell.kind = .blockComment)
    (rest : List Cell) :
    statements (markInterpolations false (comment ++ rest)) =
      comment.foldr extendFirst (statements (markInterpolations false rest)) := by
  have goesOn : ∀ marked ∈ comment.map (·, false), endsStatement marked = false := by
    intro marked member
    obtain ⟨cell, inComment, rfl⟩ := List.mem_map.1 member
    exact (plain_of_kind_ne (by simp [isComment cell inComment])).1
  have sameComment : comment.map (Prod.fst ∘ (·, false)) = comment := List.map_id _
  rw [markInterpolations_comment_append isComment, statements_append_of_forall goesOn,
    List.map_map, sameComment]

/-! ## Selectors behind the cuts -/

/-- A block is open inside of an interpolation, or its brace is the first cell. -/
def IsInBlock (memory : AtRuleMemory) (cells : List Cell) : Prop :=
  0 < memory.depth ∨ ∃ brace rest, cells = brace :: rest ∧ brace.isCode '{' = true

namespace Cuts

variable {memory : AtRuleMemory} {cells : List Cell} {patch : Patch}

theorem pos_blockDepth
    {depth : Nat}
    {cell : Cell}
    (inBlock : 0 < depth)
    (noClosing : cell.char ≠ '}') :
    0 < blockDepth depth cell := by
  have notCode : cell.isCode '}' = false := by simp [Cell.isCode, noClosing]
  rw [blockDepth, notCode, if_neg Bool.false_ne_true]
  split_ifs
  · exact Nat.succ_pos _
  · exact inBlock

theorem pos_blockDepth_of_opens
    {cell : Cell}
    (opens : cell.isCode '{' = true)
    (depth : Nat) :
    0 < blockDepth depth cell := by
  rw [blockDepth, if_pos opens]
  exact Nat.succ_pos _

/-- Inside of a block the same braces close. -/
theorem any_closes
    (cuts : Cuts memory cells patch)
    (inBlock : 0 < memory.depth) :
    (commentedCells patch cells).any (fun cell => cell.char == '}') =
      cells.any (fun cell => cell.char == '}') := by
  induction cuts with
  | nil => rfl
  | @keep memory cell rest patch noRule further inductionHypothesis =>
      change (cell :: commentedCells patch rest).any _ = _
      rw [List.any_cons, List.any_cons]
      by_cases closes : cell.char = '}'
      · simp [closes]
      · rw [inductionHypothesis (pos_blockDepth inBlock closes)]
  | cut outside => exact absurd inBlock (by omega)

/-- An interpolation begins behind the patch exactly where one began before. -/
theorem entersInterpolation_eq
    (cuts : Cuts memory cells patch)
    (cell : Cell)
    (brace : ∀ next, cells.head? = some next → cell.isCode '@' = true → next.char = '{' →
      next.isCode '{' = true) :
    entersInterpolation cell (commentedCells patch cells) = entersInterpolation cell cells := by
  cases cuts with
  | nil => rfl
  | @keep memory next rest patch noRule further =>
      change entersInterpolation cell (next :: commentedCells patch rest) = _
      rw [entersInterpolation, entersInterpolation, List.any_cons, List.any_cons, List.head?_cons,
        List.head?_cons]
      by_cases begins : cell.isCode '@' = true ∧ next.char = '{'
      · have opens := brace next rfl begins.1 begins.2
        rw [further.any_closes (pos_blockDepth_of_opens opens _)]
      · rw [not_and_or, Bool.not_eq_true] at begins
        obtain noAt | noBrace := begins
        · rw [noAt]
          rfl
        · simp [beq_eq_false_iff_ne.2 noBrace]
  | @cut memory sign body last rest patch outside isSign =>
      have noBrace : sign.char ≠ '{' := by
        rw [Cell.char_of_isCode isSign]
        decide
      have isSlash : commentedCells (.replace (chars (sign :: body ++ [last]))
          (atRulePlaceholder memory.count) :: patch) (sign :: body ++ [last] ++ rest) =
            ⟨'/', .blockComment, true⟩ :: (inside .blockComment
              (atRulePlaceholder memory.count).tail ++ commentedCells patch rest) := by
        rw [commentedCells, length_chars, List.drop_left]
        rfl
      rw [isSlash, entersInterpolation, entersInterpolation]
      simp [noBrace]

/-- A cell that is kept is marked as before, and it leads into the same interpolation. -/
theorem exists_markInterpolations_cons
    {cell : Cell}
    {rest : List Cell}
    (further : Cuts (atRuleRule.keep memory cell) rest patch)
    (braces : BracesStandAsCode (cell :: rest))
    {inside : Bool}
    (inBlock : inside = true → IsInBlock memory (cell :: rest)) :
    ∃ flag,
      markInterpolations inside (cell :: rest) =
          (cell, inside) :: markInterpolations flag rest ∧
        markInterpolations inside (cell :: commentedCells patch rest) =
            (cell, inside) :: markInterpolations flag (commentedCells patch rest) ∧
          (flag = true → IsInBlock (atRuleRule.keep memory cell) rest) := by
  have brace : ∀ next, rest.head? = some next → cell.isCode '@' = true → next.char = '{' →
      next.isCode '{' = true := by
    intro next isNext isAt isBrace
    obtain ⟨others, rfl⟩ := List.head?_eq_some_iff.1 isNext
    exact (List.isChain_cons_cons.1 braces).1 isAt isBrace
  cases inside with
  | true =>
      refine ⟨cell.char != '}', rfl, rfl, fun goesOn => .inl ?_⟩
      obtain deep | ⟨brace, others, isFirst, opens⟩ := inBlock rfl
      · exact pos_blockDepth deep (bne_iff_ne.1 goesOn)
      · obtain ⟨rfl, -⟩ := List.cons.inj isFirst
        exact pos_blockDepth_of_opens opens _
  | false =>
      refine ⟨entersInterpolation cell rest, rfl, ?_, fun enters => .inr ?_⟩
      · rw [markInterpolations_false_cons, further.entersInterpolation_eq cell brace]
      · rw [entersInterpolation, Bool.and_eq_true, Bool.and_eq_true, beq_iff_eq] at enters
        obtain ⟨next, isNext, isBrace⟩ := Option.map_eq_some_iff.1 enters.1.2
        obtain ⟨others, rfl⟩ := List.head?_eq_some_iff.1 isNext
        exact ⟨next, others, rfl, brace next rfl enters.1.1 isBrace⟩

/-- Outside of blocks no interpolation goes on at an at sign. -/
theorem eq_false_of_isInBlock
    {sign : Cell}
    {behind : List Cell}
    (outside : memory.depth = 0)
    (isSign : sign.isCode '@' = true)
    {inside : Bool}
    (inBlock : inside = true → IsInBlock memory (sign :: behind)) :
    inside = false := by
  rw [Bool.eq_false_iff]
  intro isInside
  obtain deep | ⟨brace, others, isFirst, opens⟩ := inBlock isInside
  · omega
  · obtain ⟨rfl, -⟩ := List.cons.inj isFirst
    exact absurd opens (by simp [Cell.isCode_eq_false_of_isCode isSign])

/-- No statement behind the patch is bound if none was before and every cut ends a statement. -/
theorem binding?_eq_none
    (cuts : Cuts memory cells patch)
    (braces : BracesStandAsCode cells)
    {inside : Bool}
    (inBlock : inside = true → IsInBlock memory cells)
    (ends : cutsStatements patch (markInterpolations inside cells) = true)
    (lead : List Cell)
    (unbound : ∀ statement ∈ lead.foldr extendFirst
      (statements (markInterpolations inside cells)), statement.binding? = none) :
    ∀ statement ∈ lead.foldr extendFirst
      (statements (markInterpolations inside (commentedCells patch cells))),
        statement.binding? = none := by
  induction cuts generalizing inside lead with
  | nil => exact unbound
  | @keep memory cell rest patch noRule further inductionHypothesis =>
      obtain ⟨flag, marks, keptMarks, nextInBlock⟩ :=
        further.exists_markInterpolations_cons braces inBlock
      rw [marks] at ends unbound
      have restEnds : cutsStatements patch (markInterpolations flag rest) = true := ends
      have restBound := inductionHypothesis (List.IsChain.tail braces) nextInBlock restEnds
      change ∀ statement ∈ lead.foldr extendFirst
        (statements (markInterpolations inside (cell :: commentedCells patch rest))), _
      rw [keptMarks]
      by_cases stops : endsStatement (cell, inside) = true
      · obtain ⟨extended, whole⟩ := exists_foldr_extendFirst_cons lead ⟨[], some cell⟩
        rw [statements, if_pos stops, whole, List.forall_mem_cons] at unbound ⊢
        exact ⟨unbound.1, restBound [] unbound.2⟩
      · have longer (behind : List Statement) : lead.foldr extendFirst (extendFirst cell behind) =
            (lead ++ [cell]).foldr extendFirst behind := by
          rw [List.foldr_append]
          rfl
        rw [statements, if_neg stops, longer] at unbound ⊢
        exact restBound _ unbound
  | @cut memory sign body last rest patch outside isSign isEnd hasEnd further
      inductionHypothesis =>
      obtain rfl := eq_false_of_isInBlock outside isSign inBlock
      have split : sign :: body ++ [last] ++ rest = (sign :: body) ++ last :: rest := by simp
      obtain ⟨ahead, flag, furtherFlag, sameLength, marks, staysOutside⟩ :=
        exists_markInterpolations_append_cons false (sign :: body) last rest
      have length : (chars (sign :: body ++ [last])).length = ahead.length + 1 := by
        simp [sameLength]
      rw [split] at braces
      rw [split, marks] at ends unbound
      rw [cutsStatements, length, Nat.add_sub_cancel, List.drop_left, ← List.drop_drop,
        List.drop_left, Bool.and_eq_true] at ends
      obtain ⟨lastEnds, restEnds⟩ := ends
      have isStop : endsStatement (last, flag) = true := lastEnds
      rw [staysOutside isStop] at unbound restEnds
      have restUnbound : ∀ statement ∈ statements (markInterpolations false rest),
          statement.binding? = none := forall_mem_statements_behind isStop lead unbound
      have restBraces : BracesStandAsCode rest :=
        List.IsChain.tail (List.IsChain.right_of_append braces)
      have keptUnbound := inductionHypothesis restBraces (absurd · Bool.false_ne_true) restEnds []
        restUnbound
      have isComment : ∀ cell ∈ opened .blockComment (atRulePlaceholder memory.count),
          cell.kind = .blockComment := fun cell member => kind_of_mem_opened member
      rw [commentedCells, length_chars, List.drop_left,
        statements_markInterpolations_comment isComment]
      refine binding?_eq_none_of_mem_foldr_comment ?_ ?_ keptUnbound lead
      · exact List.cons_ne_nil _ _
      · intro cell member
        rw [Cell.isComment, isComment cell member]
        rfl

/-- The comments of the cuts are no line comments. -/
theorem kind_ne_lineComment
    (cuts : Cuts memory cells patch)
    (noComment : ∀ cell ∈ cells, cell.kind ≠ .lineComment) :
    ∀ cell ∈ commentedCells patch cells, cell.kind ≠ .lineComment := by
  induction cuts with
  | nil => exact noComment
  | @keep memory cell rest patch noRule further inductionHypothesis =>
      obtain ⟨here, others⟩ := List.forall_mem_cons.1 noComment
      exact List.forall_mem_cons.2 ⟨here, inductionHypothesis others⟩
  | @cut memory sign body last rest patch outside isSign isEnd hasEnd further
      inductionHypothesis =>
      rw [commentedCells, length_chars, List.drop_left, List.forall_mem_append]
      refine ⟨fun cell inComment => ?_, inductionHypothesis ?_⟩
      · simp [kind_of_mem_opened inComment]
      · exact (List.forall_mem_append.1 noComment).2

/-! ## Calls behind the cuts -/

/-- What is enclosed behind the patch lies in front of the next cut. -/
theorem enclosed?_eq_some
    (cuts : Cuts memory cells patch)
    {unclosed depth : Nat}
    {inner : List Cell}
    (outside : cutsOutsideParentheses unclosed patch cells = true)
    (inParentheses : depth < unclosed)
    (enclosed : enclosed? '(' ')' depth (commentedCells patch cells) = some inner) :
    enclosed? '(' ')' depth cells = some inner := by
  induction cuts generalizing unclosed depth inner with
  | nil => exact enclosed
  | @keep memory cell rest patch noRule further inductionHypothesis =>
      change enclosed? '(' ')' depth (cell :: commentedCells patch rest) = some inner at enclosed
      change cutsOutsideParentheses (unclosedBehind unclosed cell) patch rest = true at outside
      unfold enclosed? at enclosed ⊢
      split at enclosed
      case isTrue opens =>
        obtain ⟨tail, tailEnclosed, rfl⟩ := Option.map_eq_some_iff.1 enclosed
        rw [unclosedBehind, if_pos opens] at outside
        rw [if_pos opens, inductionHypothesis outside (by omega) tailEnclosed, Option.map_some]
      case isFalse notOpening =>
        rw [unclosedBehind, if_neg notOpening] at outside
        rw [if_neg notOpening]
        split at enclosed
        case isTrue closes =>
          rw [if_pos closes] at outside ⊢
          cases depth with
          | zero => exact enclosed
          | succ outer =>
              obtain ⟨tail, tailEnclosed, rfl⟩ := Option.map_eq_some_iff.1 enclosed
              dsimp only
              rw [inductionHypothesis outside (by omega) tailEnclosed, Option.map_some]
        case isFalse notClosing =>
          obtain ⟨tail, tailEnclosed, rfl⟩ := Option.map_eq_some_iff.1 enclosed
          rw [if_neg notClosing] at outside ⊢
          rw [inductionHypothesis outside inParentheses tailEnclosed, Option.map_some]
  | cut =>
      rw [cutsOutsideParentheses, Bool.and_eq_true, beq_iff_eq] at outside
      omega

/-- A placeholder is a comment that begins with a slash. -/
theorem exists_commentedCells_cons
    (number : Nat)
    (old : List Cell)
    (patch : Patch)
    (rest : List Cell) :
    ∃ further, commentedCells (.replace (chars old) (atRulePlaceholder number) :: patch)
        (old ++ rest) = ⟨'/', .blockComment, true⟩ :: further := by
  rw [commentedCells, length_chars, List.drop_left]
  exact ⟨_, rfl⟩

theorem exists_getLast?_opened_placeholder (number : Nat) :
    ∃ slash : Cell, slash.char = '/' ∧
      (opened .blockComment (atRulePlaceholder number)).getLast? = some slash := by
  have isLast : (chars (opened .blockComment (atRulePlaceholder number))).getLast? = some '/' := by
    rw [chars_opened, atRulePlaceholder, List.getLast?_append]
    rfl
  rw [chars, List.getLast?_map, Option.map_eq_some_iff] at isLast
  obtain ⟨slash, found, isSlash⟩ := isLast
  exact ⟨slash, isSlash, found⟩

/-- Names end in front of a cut, and behind them the patch goes on. -/
theorem takeWhile_and_dropWhile_isCodeName
    (cuts : Cuts memory cells patch)
    {unclosed : Nat}
    (outside : cutsOutsideParentheses unclosed patch cells = true) :
    (commentedCells patch cells).takeWhile Cell.isCodeName = cells.takeWhile Cell.isCodeName ∧
      ∃ later rest, Cuts later (cells.dropWhile Cell.isCodeName) rest ∧
        (commentedCells patch cells).dropWhile Cell.isCodeName =
            commentedCells rest (cells.dropWhile Cell.isCodeName) ∧
          cutsOutsideParentheses unclosed rest (cells.dropWhile Cell.isCodeName) = true := by
  induction cuts with
  | nil memory => exact ⟨rfl, memory, [], .nil memory, rfl, rfl⟩
  | @keep memory cell rest patch noRule further inductionHypothesis =>
      have kept : commentedCells (.keep [cell.char] :: patch) (cell :: rest) =
          cell :: commentedCells patch rest := rfl
      cases named : cell.isCodeName with
      | true =>
          have stays : unclosedBehind unclosed cell = unclosed := by
            rw [unclosedBehind, Cell.isCode_eq_false_of_isCodeName named rfl,
              Cell.isCode_eq_false_of_isCodeName named rfl]
            rfl
          change cutsOutsideParentheses (unclosedBehind unclosed cell) patch rest = true at outside
          rw [stays] at outside
          obtain ⟨sameName, behind⟩ := inductionHypothesis outside
          rw [kept, List.takeWhile_cons_of_pos named, List.takeWhile_cons_of_pos named,
            List.dropWhile_cons_of_pos named, List.dropWhile_cons_of_pos named, sameName]
          exact ⟨rfl, behind⟩
      | false =>
          have noName : ¬cell.isCodeName = true := Bool.eq_false_iff.1 named
          rw [kept, List.takeWhile_cons_of_neg noName, List.takeWhile_cons_of_neg noName,
            List.dropWhile_cons_of_neg noName, List.dropWhile_cons_of_neg noName]
          exact ⟨rfl, memory, _, .keep noRule further, kept, outside⟩
  | @cut memory sign body last rest patch isOutside isSign isEnd hasEnd further =>
      have noName : ¬sign.isCodeName = true := by
        rw [Cell.eq_of_isCode isSign]
        exact Bool.false_ne_true
      obtain ⟨behind, isComment⟩ :=
        exists_commentedCells_cons memory.count (sign :: body ++ [last]) patch rest
      have whole : sign :: body ++ [last] ++ rest = sign :: (body ++ [last] ++ rest) := rfl
      have sameRest : (sign :: body ++ [last] ++ rest).dropWhile Cell.isCodeName =
          sign :: body ++ [last] ++ rest := List.dropWhile_cons_of_neg noName
      rw [sameRest]
      refine ⟨?_, memory, _, .cut isOutside isSign isEnd hasEnd further, ?_, outside⟩
      · rw [isComment, whole, List.takeWhile_cons_of_neg noName]
        rfl
      · rw [isComment]
        rfl

/-- A call in front of the next cut is the same without the patch. -/
theorem callAt?_eq_some
    (cuts : Cuts memory cells patch)
    {unclosed start : Nat}
    {before previous : Option Cell}
    {call : Call}
    (outside : cutsOutsideParentheses unclosed patch cells = true)
    (sameStart : mayStartCall previous = mayStartCall before)
    (found : callAt? start previous (commentedCells patch cells) = some call)
    (otherStart : Nat) :
    callAt? otherStart before cells = some ⟨otherStart, call.name, call.arguments⟩ := by
  obtain ⟨sameName, later, rest, restCuts, sameRest, restOutside⟩ :=
    cuts.takeWhile_and_dropWhile_isCodeName outside
  unfold callAt? at found ⊢
  rw [sameName, sameRest, sameStart] at found
  dsimp only at found ⊢
  split at found
  case isFalse => contradiction
  case isTrue begins =>
    obtain ⟨inner, delimited, rfl⟩ := Option.map_eq_some_iff.1 found
    have sameInner : delimited? '(' ')' (cells.dropWhile Cell.isCodeName) = some inner := by
      generalize cells.dropWhile Cell.isCodeName = behind at restCuts delimited restOutside ⊢
      cases restCuts with
      | nil => contradiction
      | @keep _ opening others patch noRule further =>
          change delimited? '(' ')' (opening :: commentedCells patch others) = _ at delimited
          change cutsOutsideParentheses (unclosedBehind unclosed opening) patch others = true
            at restOutside
          rw [delimited?, Option.ite_none_right_eq_some] at delimited ⊢
          rw [unclosedBehind, if_pos delimited.1] at restOutside
          exact ⟨delimited.1,
            further.enclosed?_eq_some restOutside (Nat.succ_pos _) delimited.2⟩
      | cut => contradiction
    rw [if_pos begins, sameInner, Option.map_some]

/-- Every call behind the patch is a call of the cells before. -/
theorem exists_call
    (cuts : Cuts memory cells patch)
    {unclosed start : Nat}
    {before previous : Option Cell}
    {call : Call}
    (outside : cutsOutsideParentheses unclosed patch cells = true)
    (sameStart : mayStartCall previous = mayStartCall before)
    (member : call ∈ callsFrom start previous (commentedCells patch cells))
    (otherStart : Nat) :
    ∃ original ∈ callsFrom otherStart before cells,
      original.name = call.name ∧ original.arguments = call.arguments := by
  induction cuts generalizing unclosed start otherStart before previous with
  | nil => contradiction
  | @keep memory cell rest patch noRule further inductionHypothesis =>
      have kept : Cuts memory (cell :: rest) (.keep [cell.char] :: patch) := .keep noRule further
      change call ∈ callsFrom start previous (cell :: commentedCells patch rest) at member
      rw [callsFrom, List.mem_append, Option.mem_toList] at member
      obtain here | later := member
      · have found := kept.callAt?_eq_some outside sameStart here otherStart
        refine ⟨⟨otherStart, call.name, call.arguments⟩, List.mem_append_left _ ?_, rfl, rfl⟩
        exact Option.mem_toList.2 found
      · obtain ⟨original, isOriginal, same⟩ :=
          inductionHypothesis outside rfl later (otherStart + 1)
        exact ⟨original, List.mem_append_right _ isOriginal, same⟩
  | @cut memory sign body last rest patch isOutside isSign isEnd hasEnd further
      inductionHypothesis =>
      have noNames : ∀ cell ∈ opened .blockComment (atRulePlaceholder memory.count),
          cell.isCodeName = false := by
        intro cell inComment
        simp [Cell.isCodeName, kind_of_mem_opened inComment]
      have behindComment : mayStartCall ((opened .blockComment
          (atRulePlaceholder memory.count)).getLast?.or previous) = true := by
        obtain ⟨slash, isSlash, isLast⟩ := exists_getLast?_opened_placeholder memory.count
        rw [isLast, Option.some_or, mayStartCall,
          noNames slash (List.mem_of_getLast? isLast), isSlash]
        rfl
      have behindCut : mayStartCall (some last) = true := by
        obtain semicolon | brace := isEnd
        · rw [Cell.eq_of_isCode semicolon]
          rfl
        · rw [Cell.eq_of_isCode brace]
          rfl
      rw [commentedCells, length_chars, List.drop_left, callsFrom_append,
        callsWithin_of_no_name noNames, List.nil_append] at member
      rw [cutsOutsideParentheses, length_chars, List.drop_left, Bool.and_eq_true] at outside
      obtain ⟨original, isOriginal, same⟩ := inductionHypothesis outside.2
        (behindComment.trans behindCut.symm) member
          (otherStart + (sign :: body ++ [last]).length)
      refine ⟨original, ?_, same⟩
      rw [callsFrom_append, List.getLast?_concat]
      exact List.mem_append_right _ isOriginal

end Cuts

end Lowering
end LessTheme
