import LessTheme.Proofs.Source.Nesting
import LessTheme.Proofs.Source.Part
import LessTheme.Proofs.Source.Within

/-!
# The parts of a call

A call consists of its name and of its arguments between two parentheses that
belong together.  Around a call as many parentheses are open in front as
behind, unless a brace stands in its arguments: a brace closes all of them.
-/

namespace LessTheme
namespace Source

/-- How many parentheses are open behind a cell. -/
def openBehind (depth : Nat) (cell : Cell) : Nat :=
  if cell.kind = .code then parenthesisDepth depth cell.char else depth

theorem openBehind_of_isCode
    {cell : Cell}
    {char : Char}
    (isCode : cell.isCode char = true)
    (depth : Nat) :
    openBehind depth cell = parenthesisDepth depth char := by
  rw [Cell.eq_of_isCode isCode]
  rfl

/-- Only parentheses and braces change the number of open parentheses. -/
theorem openBehind_of_isCode_eq_false
    {cell : Cell}
    (noMark : ∀ char, char = '(' ∨ char = ')' ∨ char = '{' ∨ char = '}' → cell.isCode char = false)
    (depth : Nat) :
    openBehind depth cell = depth := by
  unfold openBehind
  split
  case isFalse => rfl
  case isTrue isCode =>
    have differs : ∀ char, char = '(' ∨ char = ')' ∨ char = '{' ∨ char = '}' →
        cell.char ≠ char := by
      intro char isMark
      simpa [Cell.isCode, isCode] using noMark char isMark
    rw [parenthesisDepth, if_neg (differs _ (.inl rfl)), if_neg (differs _ (.inr (.inl rfl))),
      if_neg]
    rintro (isOpening | isClosing)
    · exact differs _ (.inr (.inr (.inl rfl))) isOpening
    · exact differs _ (.inr (.inr (.inr rfl))) isClosing

theorem foldl_openBehind_of_isCodeName
    {cells : List Cell}
    (named : ∀ cell ∈ cells, cell.isCodeName = true)
    (depth : Nat) :
    cells.foldl openBehind depth = depth := by
  induction cells with
  | nil => rfl
  | cons cell rest inductionHypothesis =>
      obtain ⟨here, others⟩ := List.forall_mem_cons.1 named
      have noMark : ∀ char, char = '(' ∨ char = ')' ∨ char = '{' ∨ char = '}' →
          cell.isCode char = false := by
        rintro char (rfl | rfl | rfl | rfl) <;>
          exact Cell.isCode_eq_false_of_isCodeName here rfl
      rw [List.foldl_cons, openBehind_of_isCode_eq_false noMark, inductionHypothesis others]

namespace Mode

/-- A mode remembers how many parentheses are open. -/
theorem depth_read_eq_openBehind
    (mode : Mode)
    (char : Char)
    (next : Option Char) :
    (mode.read char next).2.depth = openBehind mode.depth (mode.read char next).1 := by
  cases mode with
  | code depth afterColon =>
      by_cases isComment : char = '/' ∧ next = some '/' ∧ depth = 0 ∧ afterColon = false
      · obtain ⟨rfl, rfl, rfl, rfl⟩ := isComment
        rfl
      · rw [read, if_neg isComment]
        split_ifs <;> rfl
  | string quote depth =>
      by_cases endsLine : char = '\n'
      · subst endsLine
        rfl
      · rw [read, if_neg endsLine]
        split_ifs <;> rfl
  | lineComment =>
      by_cases endsLine : char = '\n'
      · subst endsLine
        rfl
      · rw [read, if_neg endsLine]
        rfl
  | comment depth afterStar =>
      rw [read]
      split_ifs <;> rfl
  | escape | commentOpening => rfl

theorem depth_after_eq_foldl_openBehind
    (mode : Mode)
    (text : Text)
    (next : Option Char) :
    (mode.after text next).depth = (mode.cellsBefore text next).foldl openBehind mode.depth := by
  induction text generalizing mode with
  | nil => rfl
  | cons char rest inductionHypothesis =>
      rw [after, inductionHypothesis, depth_read_eq_openBehind]
      rfl

/-- Behind a stretch that ends in code, code is read with what the stretch leaves open. -/
theorem after_concat_of_isCode
    {mode : Mode}
    {front : List Cell}
    {last : Cell}
    {char : Char}
    {next : Option Char}
    (reads : mode.cellsBefore (chars (front ++ [last])) next = front ++ [last])
    (isCode : last.isCode char = true)
    (noColon : char ≠ ':') :
    mode.after (chars (front ++ [last])) next =
      .code ((front ++ [last]).foldl openBehind mode.depth) false := by
  have depth := mode.depth_after_eq_foldl_openBehind (chars (front ++ [last])) next
  rw [reads] at depth
  rw [chars_append, cellsBefore_append] at reads
  rw [chars_append, after_append] at depth ⊢
  obtain ⟨isLast, -⟩ := List.cons.inj (List.append_inj' reads rfl).2
  have lastChar := Cell.char_of_isCode isCode
  rw [Cell.isCode, Bool.and_eq_true, beq_iff_eq] at isCode
  obtain ⟨-, opened, behind⟩ := read_of_kind_eq_code (isLast ▸ isCode.1)
  rw [lastChar, beq_eq_false_iff_ne.2 noColon] at behind
  simp only [chars_cons, chars_nil, List.map_nil, after, List.head?_cons, List.head?_nil,
    Option.some_or, Option.none_or, lastChar] at depth behind ⊢
  rw [behind] at depth ⊢
  rw [← depth]
  rfl

end Mode

/-! ## Closing parentheses -/

/-- Some cells close the given number of parentheses of before, and all that they open. -/
inductive Closes : Nat → List Cell → Prop
  | nil : Closes 0 []
  | opening {cell : Cell} {depth : Nat} {cells : List Cell}
      (opens : cell.isCode '(' = true)
      (rest : Closes (depth + 1) cells) :
      Closes depth (cell :: cells)
  | closing {cell : Cell} {depth : Nat} {cells : List Cell}
      (closes : cell.isCode ')' = true)
      (rest : Closes depth cells) :
      Closes (depth + 1) (cell :: cells)
  | pass {cell : Cell} {depth : Nat} {cells : List Cell}
      (notOpening : cell.isCode '(' = false)
      (notClosing : cell.isCode ')' = false)
      (rest : Closes depth cells) :
      Closes depth (cell :: cells)

/-- What is enclosed closes all that was open. -/
theorem exists_closes_of_enclosed?_eq_some
    {depth : Nat}
    {cells inner : List Cell}
    (enclosed : enclosed? '(' ')' depth cells = some inner) :
    ∃ stop rest, cells = inner ++ stop :: rest ∧ stop.isCode ')' = true ∧ Closes depth inner := by
  induction cells generalizing depth inner with
  | nil => simp [enclosed?] at enclosed
  | cons cell rest inductionHypothesis =>
      unfold enclosed? at enclosed
      split at enclosed
      case isTrue opens =>
        obtain ⟨tail, tailEnclosed, rfl⟩ := Option.map_eq_some_iff.1 enclosed
        obtain ⟨stop, others, rfl, stops, closes⟩ := inductionHypothesis tailEnclosed
        exact ⟨stop, others, rfl, stops, .opening opens closes⟩
      case isFalse notOpening =>
        split at enclosed
        case isTrue closing =>
          cases depth with
          | zero =>
              obtain rfl := Option.some.inj enclosed
              exact ⟨cell, rest, rfl, closing, .nil⟩
          | succ outer =>
              obtain ⟨tail, tailEnclosed, rfl⟩ := Option.map_eq_some_iff.1 enclosed
              obtain ⟨stop, others, rfl, stops, closes⟩ := inductionHypothesis tailEnclosed
              exact ⟨stop, others, rfl, stops, .closing closing closes⟩
        case isFalse notClosing =>
          obtain ⟨tail, tailEnclosed, rfl⟩ := Option.map_eq_some_iff.1 enclosed
          obtain ⟨stop, others, rfl, stops, closes⟩ := inductionHypothesis tailEnclosed
          exact ⟨stop, others, rfl, stops,
            .pass (Bool.not_eq_true _ ▸ notOpening) (Bool.not_eq_true _ ▸ notClosing) closes⟩

theorem enclosed?_cons_of_opens
    {cell : Cell}
    (opens : cell.isCode '(' = true)
    (depth : Nat)
    (rest : List Cell) :
    enclosed? '(' ')' depth (cell :: rest) =
      (enclosed? '(' ')' (depth + 1) rest).map (cell :: ·) := by
  rw [enclosed?.eq_def]
  exact if_pos opens

theorem enclosed?_cons_of_closes
    {cell : Cell}
    (closes : cell.isCode ')' = true)
    (outer : Nat)
    (rest : List Cell) :
    enclosed? '(' ')' (outer + 1) (cell :: rest) =
      (enclosed? '(' ')' outer rest).map (cell :: ·) := by
  have notOpening : cell.isCode '(' = false := Cell.isCode_eq_false_of_isCode closes (by decide)
  rw [enclosed?.eq_def]
  simp [notOpening, closes]

theorem closes_of_no_parenthesis
    {cells : List Cell}
    (noParenthesis : ∀ cell ∈ cells, cell.isCode '(' = false ∧ cell.isCode ')' = false) :
    Closes 0 cells := by
  induction cells with
  | nil => exact .nil
  | cons cell rest inductionHypothesis =>
      obtain ⟨⟨notOpening, notClosing⟩, others⟩ := List.forall_mem_cons.1 noParenthesis
      exact .pass notOpening notClosing (inductionHypothesis others)

namespace Closes

variable {depth : Nat} {cells : List Cell}

/-- What is enclosed goes on behind, with less parentheses open. -/
theorem enclosed?_append
    (closes : Closes depth cells)
    (outer : Nat)
    (rest : List Cell) :
    enclosed? '(' ')' (depth + outer) (cells ++ rest) =
      (enclosed? '(' ')' outer rest).map (cells ++ ·) := by
  induction closes with
  | nil => simp
  | opening opens _ inductionHypothesis =>
      rw [List.cons_append, enclosed?_cons_of_opens opens, Nat.add_right_comm, inductionHypothesis,
        Option.map_map]
      rfl
  | closing isClosing _ inductionHypothesis =>
      rw [List.cons_append, Nat.add_right_comm, enclosed?_cons_of_closes isClosing,
        inductionHypothesis, Option.map_map]
      rfl
  | pass notOpening notClosing _ inductionHypothesis =>
      rw [List.cons_append, Nesting.enclosed?_cons_of_isCode_eq_false notOpening notClosing,
        inductionHypothesis, Option.map_map]
      rfl

/-- A parenthesis behind the cells closes the one in front of them. -/
theorem enclosed?_eq_some
    (closes : Closes depth cells)
    {stop : Cell}
    (stops : stop.isCode ')' = true)
    (rest : List Cell) :
    enclosed? '(' ')' depth (cells ++ stop :: rest) = some cells := by
  have notOpening : stop.isCode '(' = false := Cell.isCode_eq_false_of_isCode stops (by decide)
  have whole := closes.enclosed?_append 0 (stop :: rest)
  rw [enclosed?, if_neg (by simp [notOpening]), if_pos stops] at whole
  simpa using whole

/-- Cells at the end close what those in front of them leave open. -/
theorem exists_of_append
    {front back : List Cell}
    (closes : Closes depth (front ++ back)) :
    ∃ further, Closes further back := by
  induction front generalizing depth with
  | nil => exact ⟨depth, closes⟩
  | cons cell rest inductionHypothesis =>
      cases closes with
      | opening _ rest | closing _ rest | pass _ _ rest => exact inductionHypothesis rest

/-- No more parentheses are left open than those around. -/
theorem foldl_openBehind_le
    (closes : Closes depth cells)
    {opened outer : Nat}
    (le : opened ≤ depth + outer) :
    cells.foldl openBehind opened ≤ outer := by
  induction closes generalizing opened with
  | nil => simpa using le
  | opening opens _ inductionHypothesis =>
      apply inductionHypothesis
      rw [openBehind_of_isCode opens]
      exact Nat.le_trans (Nat.succ_le_succ le) (by omega)
  | closing isClosing _ inductionHypothesis =>
      apply inductionHypothesis
      rw [openBehind_of_isCode isClosing]
      exact Nat.sub_le_of_le_add (Nat.le_trans le (by omega))
  | @pass cell depth cells notOpening notClosing _ inductionHypothesis =>
      apply inductionHypothesis
      refine Nat.le_trans ?_ le
      unfold openBehind
      split
      case isFalse => exact Nat.le_refl _
      case isTrue isCode =>
        have noOpening : cell.char ≠ '(' := by simpa [Cell.isCode, isCode] using notOpening
        rw [parenthesisDepth, if_neg noOpening]
        split_ifs
        · exact Nat.sub_le _ 1
        · exact Nat.zero_le _
        · exact Nat.le_refl _

/-- Without braces exactly the parentheses around are left open. -/
theorem foldl_openBehind_eq
    (closes : Closes depth cells)
    (noBrace : ∀ cell ∈ cells, cell.isCode '{' = false ∧ cell.isCode '}' = false)
    (outer : Nat) :
    cells.foldl openBehind (depth + outer) = outer := by
  induction closes with
  | nil => simp
  | opening opens _ inductionHypothesis =>
      rw [List.foldl_cons, openBehind_of_isCode opens]
      have further := inductionHypothesis (List.forall_mem_cons.1 noBrace).2
      rwa [Nat.add_right_comm] at further
  | closing isClosing _ inductionHypothesis =>
      rw [List.foldl_cons, openBehind_of_isCode isClosing, Nat.add_right_comm]
      exact inductionHypothesis (List.forall_mem_cons.1 noBrace).2
  | pass notOpening notClosing _ inductionHypothesis =>
      obtain ⟨⟨noOpening, noClosing⟩, others⟩ := List.forall_mem_cons.1 noBrace
      rw [List.foldl_cons, openBehind_of_isCode_eq_false, inductionHypothesis others]
      rintro char (rfl | rfl | rfl | rfl) <;> assumption

end Closes

/-! ## Calls -/

/-- The cells of a call: its name, and its arguments between parentheses. -/
structure CallParts where
  /-- The cells of the name. -/
  name : List Cell
  /-- The parenthesis behind the name. -/
  opening : Cell
  /-- The cells between the parentheses. -/
  arguments : List Cell
  /-- The parenthesis that closes the other one. -/
  closing : Cell
  nonempty : name ≠ []
  named : ∀ cell ∈ name, cell.isCodeName = true
  opens : opening.isCode '(' = true
  balanced : Closes 0 arguments
  closes : closing.isCode ')' = true

namespace CallParts

/-- All cells of a call. -/
def cells (parts : CallParts) : List Cell :=
  parts.name ++ parts.opening :: (parts.arguments ++ [parts.closing])

/-- The call that stands behind the given number of characters. -/
def call (parts : CallParts) (start : Nat) : Call :=
  ⟨start, chars parts.name, chars parts.arguments⟩

variable (parts : CallParts)

@[simp] theorem chars_cells (start : Nat) : chars parts.cells = (parts.call start).text := by
  simp [cells, call, Call.text, Cell.char_of_isCode parts.opens, Cell.char_of_isCode parts.closes]

theorem exists_cells_eq_cons : ∃ cell rest, parts.cells = cell :: rest ∧ cell.isCodeName = true := by
  obtain ⟨cell, rest, isName⟩ := List.exists_cons_of_ne_nil parts.nonempty
  refine ⟨cell, rest ++ parts.opening :: (parts.arguments ++ [parts.closing]), ?_, ?_⟩
  · rw [cells, isName, List.cons_append]
  · exact parts.named cell (isName ▸ List.mem_cons_self)

theorem exists_cells_eq_concat : ∃ front, parts.cells = front ++ [parts.closing] :=
  ⟨parts.name ++ parts.opening :: parts.arguments, by simp [cells]⟩

/-- What is enclosed by the parentheses of a call are its arguments. -/
theorem enclosed?_arguments (rest : List Cell) :
    enclosed? '(' ')' 0 (parts.arguments ++ parts.closing :: rest) = some parts.arguments :=
  parts.balanced.enclosed?_eq_some parts.closes rest

/-- A call is found where a call may begin. -/
theorem callAt?_append
    (start : Nat)
    (before : Option Cell)
    (rest : List Cell) :
    callAt? start before (parts.cells ++ rest) =
      if mayStartCall before = true then some (parts.call start) else none := by
  have noName : parts.opening.isCodeName = false := by
    rw [Cell.eq_of_isCode parts.opens]
    rfl
  have whole : parts.cells ++ rest =
      parts.name ++ parts.opening :: (parts.arguments ++ parts.closing :: rest) := by
    simp [cells]
  have nameEq : (parts.cells ++ rest).takeWhile Cell.isCodeName = parts.name := by
    rw [whole, List.takeWhile_append_of_pos parts.named,
      List.takeWhile_cons_of_neg (by simp [noName]), List.append_nil]
  have behindName : (parts.cells ++ rest).dropWhile Cell.isCodeName =
      parts.opening :: (parts.arguments ++ parts.closing :: rest) := by
    rw [whole, List.dropWhile_append_of_pos parts.named,
      List.dropWhile_cons_of_neg (by simp [noName])]
  unfold callAt?
  rw [nameEq, behindName, delimited?, if_pos parts.opens, parts.enclosed?_arguments]
  simp [parts.nonempty, call]

/-- A call closes all parentheses that it opens. -/
theorem enclosed?_append
    (depth : Nat)
    (rest : List Cell) :
    enclosed? '(' ')' depth (parts.cells ++ rest) =
      (enclosed? '(' ')' depth rest).map (parts.cells ++ ·) := by
  have name : Closes 0 parts.name := closes_of_no_parenthesis fun cell member =>
    ⟨Cell.isCode_eq_false_of_isCodeName (parts.named cell member) rfl,
      Cell.isCode_eq_false_of_isCodeName (parts.named cell member) rfl⟩
  have arguments := parts.balanced.enclosed?_append (depth + 1) (parts.closing :: rest)
  rw [Nat.zero_add, enclosed?_cons_of_closes parts.closes, Option.map_map] at arguments
  have whole := name.enclosed?_append depth
    (parts.opening :: (parts.arguments ++ parts.closing :: rest))
  rw [Nat.zero_add, enclosed?_cons_of_opens parts.opens, arguments, Option.map_map, Option.map_map]
    at whole
  simpa [cells, Function.comp_def] using whole

/-- Behind a call as many parentheses are open as before, unless a brace in it closes them. -/
theorem foldl_openBehind
    {depth : Nat}
    (keeps : depth = 0 ∨
      ∀ cell ∈ parts.cells, cell.isCode '{' = false ∧ cell.isCode '}' = false) :
    parts.cells.foldl openBehind depth = depth := by
  have inner : parts.arguments.foldl openBehind (depth + 1) = depth + 1 ∨
      depth = 0 ∧ parts.arguments.foldl openBehind (depth + 1) ≤ 1 := by
    obtain rfl | noBrace := keeps
    · exact Or.inr ⟨rfl, parts.balanced.foldl_openBehind_le (Nat.le_refl _)⟩
    · left
      have inArguments : ∀ cell ∈ parts.arguments,
          cell.isCode '{' = false ∧ cell.isCode '}' = false :=
        fun cell member => noBrace cell (by simp [cells, member])
      simpa using parts.balanced.foldl_openBehind_eq inArguments (depth + 1)
  rw [cells, List.foldl_append, foldl_openBehind_of_isCodeName parts.named, List.foldl_cons,
    openBehind_of_isCode parts.opens, List.foldl_append, List.foldl_cons, List.foldl_nil,
    openBehind_of_isCode parts.closes]
  change parts.arguments.foldl openBehind (depth + 1) - 1 = depth
  omega

end CallParts

/-- A call that is found stands at the front with all its parts. -/
theorem exists_callParts_of_callAt?_eq_some
    {start : Nat}
    {before : Option Cell}
    {cells : List Cell}
    {call : Call}
    (found : callAt? start before cells = some call) :
    mayStartCall before = true ∧
      ∃ (parts : CallParts) (rest : List Cell),
        cells = parts.cells ++ rest ∧ call = parts.call start := by
  unfold callAt? at found
  simp only at found
  split at found
  case isFalse => contradiction
  case isTrue begins =>
    simp only [Bool.and_eq_true, Bool.not_eq_true', List.isEmpty_eq_false_iff] at begins
    obtain ⟨mayStart, nonempty⟩ := begins
    obtain ⟨inner, delimited, rfl⟩ := Option.map_eq_some_iff.1 found
    have whole := List.takeWhile_append_dropWhile (p := Cell.isCodeName) (l := cells)
    cases behindName : cells.dropWhile Cell.isCodeName with
    | nil => simp [behindName, delimited?] at delimited
    | cons opening others =>
        rw [behindName, delimited?, Option.ite_none_right_eq_some] at delimited
        obtain ⟨opens, enclosed⟩ := delimited
        obtain ⟨stop, rest, rfl, stops, closes⟩ := exists_closes_of_enclosed?_eq_some enclosed
        rw [behindName] at whole
        refine ⟨mayStart, ⟨cells.takeWhile Cell.isCodeName, opening, inner, stop, nonempty,
          List.all_eq_true.1 List.all_takeWhile, opens, closes, stops⟩, rest, ?_, rfl⟩
        rw [CallParts.cells, List.append_assoc, List.cons_append, List.append_assoc]
        exact whole.symm

end Source
end LessTheme
