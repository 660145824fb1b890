import LessTheme.Proofs.Lowering.Statement
import LessTheme.Proofs.Source.Closed
import LessTheme.Proofs.Source.Collapse
import LessTheme.Proofs.Source.Literal

/-!
# Binding selectors that are bound already

A bound selector is read as a statement that declares a variable and as a
selector that begins with an at sign, so none of it is bound a second time.
Also when a backslash at the end of the selector keeps the string open, the
string ends with the line, and the selector behind it begins with the at sign
of the declaration.
-/

namespace LessTheme
namespace Lowering

open Source

/-! ## Statements that are not bound -/

namespace Statement

/-- Only a selector in front of a brace is bound. -/
theorem binding?_eq_none_of_stop
    {statement : Statement}
    (noBrace : statement.stop.any (fun cell => cell.char == '{') = false) :
    statement.binding? = none := by
  rw [binding?, isComplex, noBrace]
  rfl

/-- A selector that begins with an at sign is not bound. -/
theorem binding?_eq_none_of_at
    {lead rest : List Cell}
    {cell : Cell}
    (isLead : ∀ cell ∈ lead, Statement.isLead cell = true)
    (notLead : Statement.isLead cell = false)
    (isAt : cell.char = '@')
    (stop : Option Cell) :
    binding? ⟨lead ++ cell :: rest, stop⟩ = none := by
  have selectorEq : selector ⟨lead ++ cell :: rest, stop⟩ = cell :: rest := by
    rw [selector, List.dropWhile_append_of_pos isLead,
      List.dropWhile_cons_of_neg (by simp [notLead])]
  have noSelector : isComplexSelector (chars (cell :: rest)).trimEnd = false := by
    have begins : (chars (cell :: rest)).trimEnd <+: chars (cell :: rest) :=
      List.rdropWhile_prefix isWhiteSpace _
    cases trimmed : (chars (cell :: rest)).trimEnd with
    | nil => rfl
    | cons char others =>
        rw [trimmed, chars_cons, isAt] at begins
        rw [(List.cons_prefix_cons.1 begins).1]
        rfl
  rw [binding?, isComplex, selectorEq, noSelector, Bool.and_false]
  rfl

/-- What a bound statement is, and what its selector is bound to. -/
theorem exists_of_binding?_eq_some
    {statement : Statement}
    {literal : Text}
    (bound : statement.binding? = some literal) :
    statement.stop.any (fun cell => cell.char == '{') = true ∧
      (∃ cell rest, statement.selector = cell :: rest) ∧
      '\n' ∉ (chars statement.selector).collapse ∧
      ∃ quote, (quote = '"' ∨ quote = '\'') ∧ quote ∉ (chars statement.selector).collapse ∧
        literal = '~' :: quote :: ((chars statement.selector).collapse ++ [quote]) := by
  unfold binding? at bound
  split at bound
  case isFalse => contradiction
  case isTrue complex =>
    rw [isComplex, Bool.and_eq_true, Bool.and_eq_true] at complex
    obtain ⟨⟨isBrace, -⟩, isComplex⟩ := complex
    refine ⟨isBrace, List.exists_cons_of_ne_nil ?_, fun member => ?_, ?_⟩
    · intro isEmpty
      rw [isEmpty] at isComplex
      contradiction
    · obtain isSpace | ⟨-, notBlank⟩ := Text.mem_of_mem_collapse member
      · contradiction
      · contradiction
    · rw [collapse_trimEnd] at bound
      exact Text.exists_quote_of_literal?_eq_some bound

end Statement

/-! ## Reading a bound selector -/

/-- The name of the variable with the given number. -/
def variableName (number : UInt64) : Text := selectorVariable ++ (toString number).toList

theorem toList_toString (number : UInt64) :
    (toString number).toList = Nat.toDigits 10 number.toNat :=
  Nat.toList_repr

theorem boundSelector_eq
    (number : UInt64)
    (literal : Text) :
    boundSelector number literal =
      ('@' :: (variableName number ++ [':', ' '])) ++ (literal ++ (';' :: '\n' ::
        '@' :: '{' :: (variableName number ++ ['}', ' ']))) := by
  simp [boundSelector, variableName]

theorem isNameChar_of_mem_variableName
    {number : UInt64}
    {char : Char}
    (member : char ∈ variableName number) :
    isNameChar char = true := by
  obtain inPrefix | inNumber := List.mem_append.1 member
  · have named : ∀ char ∈ selectorVariable, isNameChar char = true :=
      List.all_iff_forall_prop.1 rfl
    exact named char inPrefix
  · rw [toList_toString] at inNumber
    have isDigit := Nat.isDigit_of_mem_toDigits (by decide) (by decide) inNumber
    simp [isNameChar, Char.isAlphanum, isDigit]

/-- The cells of a declaration's name, from the at sign to the space in front of its value. -/
def declarationCells (number : UInt64) : List Cell :=
  .ofCode '@' :: ((variableName number).map .ofCode ++ [.ofCode ':', .ofCode ' '])

/-- The cells of an interpolation and the space behind it. -/
def interpolationCells (number : UInt64) : List Cell :=
  .ofCode '@' :: .ofCode '{' :: ((variableName number).map .ofCode ++ [.ofCode '}', .ofCode ' '])

theorem read_name_append
    (number : UInt64)
    (depth : Nat)
    (rest : Text)
    (next : Option Char) :
    (Mode.code depth false).cellsBefore (variableName number ++ rest) next =
        (variableName number).map .ofCode ++ (Mode.code depth false).cellsBefore rest next ∧
      (Mode.code depth false).after (variableName number ++ rest) next =
        (Mode.code depth false).after rest next := by
  have inert : IsInert (variableName number) :=
    isInert_of_forall_isNameChar fun _ => isNameChar_of_mem_variableName
  obtain ⟨-, sameCells, behind⟩ := inert.read depth false (rest.head?.or next)
  rw [Bool.false_and] at behind
  rw [Mode.cellsBefore_append, Mode.after_append, sameCells, behind]
  exact ⟨rfl, rfl⟩

theorem read_at
    (depth : Nat)
    (afterColon : Bool)
    (next : Option Char) :
    (Mode.code depth afterColon).read '@' next = (.ofCode '@', .code depth false) :=
  Mode.read_of_not_mem_specialChars (by decide) depth afterColon next

/-- The declaration of a variable is read as code up to its value. -/
theorem read_declaration
    (number : UInt64)
    (depth : Nat)
    (afterColon : Bool)
    (next : Option Char) :
    (Mode.code depth afterColon).cellsBefore ('@' :: (variableName number ++ [':', ' '])) next =
        declarationCells number ∧
      (Mode.code depth afterColon).after ('@' :: (variableName number ++ [':', ' '])) next =
        .code depth false := by
  obtain ⟨sameCells, behind⟩ := read_name_append number depth [':', ' '] next
  rw [Mode.cellsBefore, Mode.after, read_at, sameCells, behind]
  exact ⟨rfl, rfl⟩

/-- An interpolation is read as code, and all parentheses are closed behind it. -/
theorem read_interpolation
    (number : UInt64)
    (depth : Nat)
    (next : Option Char) :
    (Mode.code depth false).cellsBefore ('@' :: '{' :: (variableName number ++ ['}', ' '])) next =
        interpolationCells number ∧
      (Mode.code depth false).after ('@' :: '{' :: (variableName number ++ ['}', ' '])) next =
        .code 0 false := by
  have brace : ∀ next, (Mode.code depth false).read '{' next = (.ofCode '{', .code 0 false) := by
    intro next
    simp [Mode.read, parenthesisDepth, Cell.ofCode]
  obtain ⟨sameCells, behind⟩ := read_name_append number 0 ['}', ' '] next
  rw [Mode.cellsBefore, Mode.after, read_at, Mode.cellsBefore, Mode.after, brace, sameCells,
    behind]
  exact ⟨rfl, rfl⟩

/-- The semicolon behind a bound selector, which belongs to the string if the quote is escaped. -/
def semicolonCell (text : Text) : Cell :=
  ⟨';', if escapesNext false text then .string else .code, false⟩

theorem semicolonCell_cases (text : Text) :
    semicolonCell text = .ofCode ';' ∨ (semicolonCell text).kind = .string := by
  unfold semicolonCell
  split_ifs
  · exact Or.inr rfl
  · exact Or.inl rfl

/-- A bound selector is read as code around its string, to which the semicolon may belong. -/
theorem read_boundSelector
    {quote : Char}
    {text : Text}
    (isQuote : quote = '"' ∨ quote = '\'')
    (noQuote : quote ∉ text)
    (oneLine : '\n' ∉ text)
    (number : UInt64)
    (depth : Nat)
    (afterColon : Bool)
    (next : Option Char) :
    (Mode.code depth afterColon).cellsBefore
        (boundSelector number ('~' :: quote :: (text ++ [quote]))) next =
      declarationCells number ++
        ((⟨'~', .code, false⟩ :: opened .string (quote :: (text ++ [quote]))) ++
          semicolonCell text :: .ofCode '\n' :: interpolationCells number) ∧
      (Mode.code depth afterColon).after
        (boundSelector number ('~' :: quote :: (text ++ [quote]))) next = .code 0 false := by
  obtain ⟨literal, behindLiteral⟩ := Mode.read_literal isQuote noQuote
    (staysOpen_of_not_mem oneLine false) depth false (some ';')
  -- In a string that stays open the semicolon belongs to it, and the line end closes it.
  have endsLine : (Mode.after (.code depth false) ('~' :: quote :: (text ++ [quote]))
        (some ';')).cellsBefore [';', '\n'] (some '@') = [semicolonCell text, .ofCode '\n'] ∧
      (Mode.after (.code depth false) ('~' :: quote :: (text ++ [quote]))
        (some ';')).after [';', '\n'] (some '@') = .code depth false := by
    rw [behindLiteral, semicolonCell]
    split_ifs
    · obtain rfl | rfl := isQuote
      all_goals exact ⟨rfl, rfl⟩
    · exact ⟨rfl, rfl⟩
  rw [boundSelector_eq]
  exact Mode.reads_append (read_declaration number depth afterColon _)
    (Mode.reads_append ⟨literal, rfl⟩
      (Mode.reads_append endsLine (read_interpolation number depth next)))

/-! ## The statements of a bound selector -/

theorem plain_of_kind_ne
    {cell : Cell}
    (noCode : cell.kind ≠ .code) :
    endsStatement (cell, false) = false ∧ cell.isCode '@' = false := by
  simp [endsStatement, Cell.isCode, noCode]

theorem plain_of_isLead
    {cell : Cell}
    (isLead : Statement.isLead cell = true) :
    endsStatement (cell, false) = false ∧ cell.isCode '@' = false := by
  obtain ⟨char, kind, opens⟩ := cell
  by_cases isCode : kind = .code
  · subst isCode
    have isSpace : isAsciiWhiteSpace char = true := by
      simpa [Statement.isLead, Cell.isComment] using isLead
    have noMark : ∀ mark, isAsciiWhiteSpace mark = false → char ≠ mark := by
      rintro mark notSpace rfl
      exact Bool.false_ne_true (notSpace.symm.trans isSpace)
    simp [endsStatement, Cell.isCode, noMark ';' rfl, noMark '{' rfl, noMark '}' rfl,
      noMark '@' rfl]
  · exact plain_of_kind_ne isCode

theorem plain_of_mem_name
    {number : UInt64}
    {cell : Cell}
    (member : cell ∈ (variableName number).map Cell.ofCode) :
    (endsStatement (cell, false) = false ∧ cell.isCode '@' = false) ∧ cell.char ≠ '}' := by
  obtain ⟨char, inName, rfl⟩ := List.mem_map.1 member
  have named := isNameChar_of_mem_variableName inName
  have noMark : ∀ mark, isNameChar mark = false → char ≠ mark := by
    rintro mark noName rfl
    exact Bool.false_ne_true (noName.symm.trans named)
  simp [endsStatement, Cell.isCode, Cell.ofCode, noMark ';' rfl, noMark '{' rfl, noMark '}' rfl,
    noMark '@' rfl]

/-- No statement ends in the declaration of a variable. -/
theorem unstopped_declaration
    {behind : List Cell}
    (unstopped : Unstopped false behind)
    (number : UInt64) :
    Unstopped false (declarationCells number ++ behind) := by
  have name : Unstopped false ((variableName number).map .ofCode ++
      (.ofCode ':' :: .ofCode ' ' :: behind)) :=
    Unstopped.plain_append (fun _ member => (plain_of_mem_name member).1)
      (.outside rfl nofun (.outside rfl nofun unstopped))
  rw [declarationCells, List.cons_append, List.append_assoc]
  exact .outside rfl (fun _ => show some 't' ≠ some '{' by decide) name

/-- No statement ends in an interpolation. -/
theorem unstopped_interpolation (number : UInt64) :
    Unstopped false (interpolationCells number) := by
  have closing : Unstopped true [Cell.ofCode '}', Cell.ofCode ' '] :=
    .inside (.outside rfl nofun .nil)
  exact .opening rfl rfl (.inside (.inside_append (fun _ member => (plain_of_mem_name member).2)
    closing))

theorem staysOpen_of_noAt
    {back : List Cell}
    (nonempty : back ≠ [])
    (noAt : ∀ cell ∈ back, cell.isCode '@' = false)
    (front rest : List Cell) :
    StaysOpen (front ++ back) rest := by
  intro endsInAt
  rw [List.getLast?_append, List.getLast?_eq_some_getLast nonempty, Option.some_or,
    Option.any_some, noAt _ (List.getLast_mem nonempty)] at endsInAt
  contradiction

/-- Behind an interpolation and a space no at sign stands. -/
theorem staysOpen_interpolation
    (front rest : List Cell)
    (number : UInt64) :
    StaysOpen (front ++ interpolationCells number) rest := by
  have split : front ++ interpolationCells number =
      (front ++ .ofCode '@' :: .ofCode '{' :: (variableName number).map .ofCode) ++
        [.ofCode '}', .ofCode ' '] := by
    rw [List.append_assoc]
    rfl
  rw [split]
  refine staysOpen_of_noAt (List.cons_ne_nil _ _) (fun cell member => ?_) _ _
  obtain rfl | isSpace := List.mem_cons.1 member
  · rfl
  · obtain rfl := List.mem_singleton.1 isSpace
    rfl

/-- No statement of some cells is bound. -/
def IsUnbound (cells : List Cell) : Prop :=
  ∀ statement ∈ statements (markInterpolations false cells), statement.binding? = none

/-- A bound selector is read as statements that are not bound. -/
theorem isUnbound_boundSelector
    {lead rest : List Cell}
    {quote : Char}
    {text : Text}
    {semicolon : Cell}
    (isLead : ∀ cell ∈ lead, Statement.isLead cell = true)
    (isSemicolon : semicolon = .ofCode ';' ∨ semicolon.kind = .string)
    (number : UInt64)
    (restUnbound : IsUnbound rest) :
    IsUnbound (lead ++ (declarationCells number ++
      ((⟨'~', .code, false⟩ :: opened .string (quote :: (text ++ [quote]))) ++
        semicolon :: .ofCode '\n' :: interpolationCells number)) ++ .ofCode '{' :: rest) := by
  have leadPlain : ∀ cell ∈ lead, endsStatement (cell, false) = false ∧ cell.isCode '@' = false :=
    fun cell member => plain_of_isLead (isLead cell member)
  have stringPlain : ∀ cell ∈ (⟨'~', .code, false⟩ : Cell) ::
      opened .string (quote :: (text ++ [quote])),
        endsStatement (cell, false) = false ∧ cell.isCode '@' = false := by
    refine List.forall_mem_cons.2 ⟨⟨rfl, rfl⟩, fun cell member => plain_of_kind_ne ?_⟩
    simp [kind_of_mem_opened member]
  have selector : Unstopped false (.ofCode '\n' :: interpolationCells number) :=
    .outside rfl nofun (unstopped_interpolation number)
  generalize stringEq : (⟨'~', .code, false⟩ : Cell) ::
    opened .string (quote :: (text ++ [quote])) = string at stringPlain ⊢
  obtain rfl | inString := isSemicolon
  case inl =>
    have declaration : Unstopped false (lead ++ (declarationCells number ++ string)) := by
      have value : Unstopped false (string ++ []) := .plain_append stringPlain .nil
      rw [List.append_nil] at value
      exact .plain_append leadPlain (unstopped_declaration value number)
    have closed (rest : List Cell) :
        StaysOpen (lead ++ (declarationCells number ++ string)) rest := by
      rw [← List.append_assoc]
      exact staysOpen_of_noAt (stringEq ▸ List.cons_ne_nil _ _)
        (fun cell member => (stringPlain cell member).2) _ _
    have split : lead ++ (declarationCells number ++
        (string ++ .ofCode ';' :: .ofCode '\n' :: interpolationCells number)) ++
          .ofCode '{' :: rest =
        (lead ++ (declarationCells number ++ string)) ++ .ofCode ';' ::
          ((.ofCode '\n' :: interpolationCells number) ++ .ofCode '{' :: rest) := by
      simp
    rw [split, IsUnbound, declaration.statements_append_cons rfl (closed _),
      selector.statements_append_cons rfl (staysOpen_interpolation [.ofCode '\n'] _ number)]
    refine List.forall_mem_cons.2 ⟨Statement.binding?_eq_none_of_stop rfl,
      List.forall_mem_cons.2 ⟨?_, restUnbound⟩⟩
    exact @Statement.binding?_eq_none_of_at [.ofCode '\n'] _ (.ofCode '@') (by decide) rfl rfl _
  case inr =>
    have semicolonPlain : endsStatement (semicolon, false) = false ∧
        semicolon.isCode '@' = false :=
      plain_of_kind_ne (by simp [inString])
    have whole : Unstopped false (lead ++ (declarationCells number ++
        (string ++ semicolon :: .ofCode '\n' :: interpolationCells number))) :=
      .plain_append leadPlain (unstopped_declaration (.plain_append stringPlain
        (.outside semicolonPlain.1 (fun isAt => absurd isAt (by simp [semicolonPlain.2])) selector))
        number)
    have closed : StaysOpen (lead ++ (declarationCells number ++
        (string ++ semicolon :: .ofCode '\n' :: interpolationCells number)))
          (.ofCode '{' :: rest) := by
      have split : lead ++ (declarationCells number ++
          (string ++ semicolon :: .ofCode '\n' :: interpolationCells number)) =
          (lead ++ (declarationCells number ++ (string ++ [semicolon, .ofCode '\n']))) ++
            interpolationCells number := by
        simp
      rw [split]
      exact staysOpen_interpolation _ _ number
    rw [IsUnbound, whole.statements_append_cons rfl closed]
    refine List.forall_mem_cons.2 ⟨?_, restUnbound⟩
    exact Statement.binding?_eq_none_of_at isLead rfl rfl _

/-! ## White space and comments in front -/

/-- A mode outside of strings, with no colon right before. -/
def IsBetween : Mode → Prop
  | .code _ afterColon => afterColon = false
  | .string _ _ | .escape _ _ => False
  | .commentOpening _ | .comment _ _ | .lineComment => True

/-- White space and comments lead into no string. -/
theorem IsBetween.read
    {mode : Mode}
    (between : IsBetween mode)
    {char : Char}
    {next : Option Char}
    (isLead : Statement.isLead (mode.read char next).1 = true) :
    IsBetween (mode.read char next).2 := by
  cases mode with
  | string | escape => contradiction
  | code depth afterColon =>
      rw [Mode.read] at isLead ⊢
      split_ifs at isLead ⊢ with isQuote
      · obtain rfl | rfl := isQuote <;> contradiction
      · trivial
      · trivial
      · have isSpace : isAsciiWhiteSpace char = true := by
          simpa [Statement.isLead, Cell.isComment] using isLead
        refine beq_eq_false_iff_ne.2 ?_
        rintro rfl
        contradiction
  | comment depth afterStar =>
      rw [Mode.read]
      split_ifs
      · rfl
      · trivial
  | lineComment =>
      rw [Mode.read]
      split_ifs
      · rfl
      · trivial
  | commentOpening => trivial

/-- In front of a selector code is read. -/
theorem IsBetween.exists_eq_code
    {mode : Mode}
    (between : IsBetween mode)
    {char : Char}
    {next : Option Char}
    (notLead : Statement.isLead (mode.read char next).1 = false) :
    ∃ depth, mode = .code depth false := by
  cases mode with
  | string | escape => contradiction
  | code depth afterColon =>
      obtain rfl := between
      exact ⟨depth, rfl⟩
  | comment depth afterStar =>
      rw [Mode.read] at notLead
      split_ifs at notLead
      all_goals simp [Statement.isLead, Cell.isComment] at notLead
  | lineComment =>
      rw [Mode.read] at notLead
      split_ifs at notLead with isEnd
      · subst isEnd
        contradiction
      · simp [Statement.isLead, Cell.isComment] at notLead
  | commentOpening => simp [Mode.read, Statement.isLead, Cell.isComment] at notLead

/-- The end of white space and comments does not depend on what follows. -/
theorem IsBetween.read_eq
    {mode : Mode}
    (between : IsBetween mode)
    {char : Char}
    {next : Option Char}
    (isLead : Statement.isLead (mode.read char next).1 = true)
    {depth : Nat}
    (behind : (mode.read char next).2 = .code depth false)
    (other : Option Char) :
    mode.read char other = mode.read char next := by
  cases mode with
  | string | escape => contradiction
  | comment | lineComment | commentOpening => rfl
  | code outer afterColon =>
      by_cases isSlash : char = '/'
      · subst isSlash
        rw [Mode.read] at isLead behind
        split_ifs at isLead behind
        all_goals contradiction
      · have joins (next : Option Char) : Mode.Joins [char] next :=
          fun isLast => absurd (Option.some.inj isLast) isSlash
        rw [Mode.read_of_joins _ (joins other), Mode.read_of_joins _ (joins next)]

/-- White space and comments in front of a selector are read the same in front of anything. -/
theorem read_lead
    {mode : Mode}
    (between : IsBetween mode)
    {lead : List Cell}
    {char : Char}
    {ahead : Option Char}
    (reads : mode.cellsBefore (chars lead) (some char) = lead)
    (isLead : ∀ cell ∈ lead, Statement.isLead cell = true)
    (notLead : Statement.isLead ((mode.after (chars lead) (some char)).read char ahead).1 = false) :
    ∃ depth, ∀ next, mode.cellsBefore (chars lead) next = lead ∧
      mode.after (chars lead) next = .code depth false := by
  induction lead generalizing mode with
  | nil =>
      obtain ⟨depth, isCode⟩ := between.exists_eq_code notLead
      exact ⟨depth, fun _ => ⟨rfl, isCode⟩⟩
  | cons cell rest inductionHypothesis =>
      rw [chars_cons, Mode.cellsBefore] at reads
      rw [chars_cons, Mode.after] at notLead
      obtain ⟨isCell, restReads⟩ := List.cons.inj reads
      obtain ⟨here, further⟩ := List.forall_mem_cons.1 isLead
      rw [← isCell] at here
      obtain ⟨depth, same⟩ := inductionHypothesis (between.read here) restReads further notLead
      have readsSo : ∀ next, mode.read cell.char ((chars rest).head?.or next) =
          mode.read cell.char ((chars rest).head?.or (some char)) := by
        intro next
        cases rest with
        | nil => exact between.read_eq here (same none).2 next
        | cons => rfl
      refine ⟨depth, fun next => ?_⟩
      obtain ⟨restCells, behind⟩ := same next
      rw [chars_cons, Mode.cellsBefore, Mode.after, readsSo next, restCells, isCell]
      exact ⟨rfl, behind⟩

/-! ## The pass -/

/--
A statement that is not bound and ends in an `@{` that is not closed is
followed by no statement that is bound: the interpolation of a bound selector
would close it.
-/
def KeepsOpen (statement later : Statement) : Prop :=
  statement.binding? = none → statement.body.getLast?.any (·.isCode '@') = true →
    statement.stop.any (fun cell => cell.char == '{') = true → later.binding? = none

instance : DecidableRel KeepsOpen := fun _ _ => inferInstanceAs (Decidable (_ → _ → _ → _))

theorem selectorPatch_of_none
    {statement : Statement}
    (unbound : statement.binding? = none)
    (number : UInt64)
    (rest : List Statement) :
    selectorPatch number (statement :: rest) =
      .keep (statement.keptBody ++ statement.stopText) :: selectorPatch number rest := by
  rw [selectorPatch, unbound]

theorem selectorPatch_of_some
    {statement : Statement}
    {literal : Text}
    (bound : statement.binding? = some literal)
    (number : UInt64)
    (rest : List Statement) :
    selectorPatch number (statement :: rest) =
      .keep (chars statement.lead) ::
        .replace (chars statement.selector) (boundSelector number literal) ::
          .keep statement.stopText :: selectorPatch (number + 1) rest := by
  rw [selectorPatch, bound]

theorem after_selectorPatch_of_none
    {statement : Statement}
    (unbound : statement.binding? = none)
    (number : UInt64)
    (rest : List Statement) :
    (selectorPatch number (statement :: rest)).after =
      chars statement.body ++ (statement.stopText ++ (selectorPatch number rest).after) := by
  rw [selectorPatch_of_none unbound]
  exact List.append_assoc _ _ _

theorem after_selectorPatch_of_some
    {statement : Statement}
    {literal : Text}
    (bound : statement.binding? = some literal)
    (number : UInt64)
    (rest : List Statement) :
    (selectorPatch number (statement :: rest)).after =
      chars statement.lead ++ (boundSelector number literal ++
        (statement.stopText ++ (selectorPatch (number + 1) rest).after)) := by
  rw [selectorPatch_of_some bound]
  rfl

theorem after_selectorPatch_eq_chars
    {cells : List Cell}
    {number : UInt64}
    (unbound : IsUnbound cells) :
    (selectorPatch number (statements (markInterpolations false cells))).after = chars cells := by
  rw [Patch.after_eq_before (replaced_selectorPatch_eq_nil_iff.2 unbound), before_selectorPatch,
    flatMap_text_statements, map_fst_markInterpolations]

/-- Behind the end of a statement the next one is read as code. -/
theorem exists_read_eq_of_endsStatement
    {mode : Mode}
    {stop : Cell}
    {next : Option Char}
    (reads : (mode.read stop.char next).1 = stop)
    (ends : endsStatement (stop, false) = true) :
    ∃ depth, (stop.char = '{' → depth = 0) ∧
      ∀ other, mode.read stop.char other = (stop, .code depth false) := by
  have isStop : stop.kind = .code ∧ (stop.char = ';' ∨ stop.char = '{' ∨ stop.char = '}') := by
    simp only [endsStatement, Cell.isCode, Bool.not_false, Bool.true_and, Bool.or_eq_true,
      Bool.and_eq_true, beq_iff_eq] at ends
    tauto
  obtain ⟨isCode, isMark⟩ := isStop
  have noSlash : stop.char ≠ '/' := by
    obtain isMark | isMark | isMark := isMark <;> rw [isMark] <;> decide
  have joins (next : Option Char) : Mode.Joins [stop.char] next :=
    fun isLast => absurd (Option.some.inj isLast) noSlash
  have kind : (mode.read stop.char next).1.kind = .code := by rw [reads, isCode]
  obtain ⟨isModeCode | isLineEnd, depth, behind⟩ := Mode.read_of_kind_eq_code kind
  case inr => obtain isMark | isMark | isMark := isMark <;> simp [isMark] at isLineEnd
  have noColon : (stop.char == ':') = false := by
    obtain isMark | isMark | isMark := isMark <;> rw [isMark] <;> rfl
  rw [noColon] at behind
  refine ⟨depth, fun isBrace => ?_, fun other => ?_⟩
  · obtain ⟨afterColon, modeEq⟩ := Mode.exists_eq_code_of_isCode isModeCode
    rw [modeEq, isBrace] at behind
    simpa [Mode.read, parenthesisDepth] using behind.symm
  · rw [mode.read_of_joins (joins other), ← mode.read_of_joins (joins next)]
    exact Prod.ext reads behind

/-- A statement that is read as code up to its end, whatever follows. -/
structure IsReadStatement
    (depth : Nat)
    (body : List Cell)
    (stop : Cell)
    (behindDepth : Nat) : Prop where
  unstopped : Unstopped false body
  ends : endsStatement (stop, false) = true
  readsBody : (Mode.code depth false).cellsBefore (chars body) (some stop.char) = body
  readsStop : ∀ other, ((Mode.code depth false).after (chars body) (some stop.char)).read
    stop.char other = (stop, .code behindDepth false)
  isFlat : stop.char = '{' → behindDepth = 0

namespace IsReadStatement

variable {depth behindDepth : Nat} {body rest : List Cell} {stop : Cell}

/-- Read cells that begin with a statement are the statement and what is read behind it. -/
theorem exists_of_reads
    (unstopped : Unstopped false body)
    (ends : endsStatement (stop, false) = true)
    (reads : (Mode.code depth false).cells (chars (body ++ stop :: rest)) = body ++ stop :: rest) :
    ∃ behindDepth, IsReadStatement depth body stop behindDepth ∧
      (Mode.code behindDepth false).cells (chars rest) = rest := by
  rw [chars_append] at reads
  obtain ⟨readsBody, readsStop⟩ := Mode.parts_of_cells_eq_append reads
  rw [chars_cons, List.head?_cons] at readsBody readsStop
  rw [Mode.cells] at readsStop
  obtain ⟨isStop, readsRest⟩ := List.cons.inj readsStop
  obtain ⟨behindDepth, isFlat, readsStop⟩ := exists_read_eq_of_endsStatement isStop ends
  rw [readsStop] at readsRest
  exact ⟨behindDepth, ⟨unstopped, ends, readsBody, readsStop, isFlat⟩, readsRest⟩

/-- A statement is read as before, whatever follows. -/
theorem cells_append
    (isRead : IsReadStatement depth body stop behindDepth)
    (behind : Text) :
    (Mode.code depth false).cells (chars body ++ stop.char :: behind) =
      body ++ stop :: (Mode.code behindDepth false).cells behind := by
  rw [Mode.cells_append, List.head?_cons, isRead.readsBody, Mode.cells, isRead.readsStop]

/-- A statement that is not bound is read as before. -/
theorem isUnbound_of_none
    (isRead : IsReadStatement depth body stop behindDepth)
    {behind : Text}
    (unbound : Statement.binding? ⟨body, some stop⟩ = none)
    (staysOpen : StaysOpen body (stop :: (Mode.code behindDepth false).cells behind))
    (further : IsUnbound ((Mode.code behindDepth false).cells behind)) :
    IsUnbound ((Mode.code depth false).cells (chars body ++ stop.char :: behind)) := by
  rw [isRead.cells_append, IsUnbound,
    isRead.unstopped.statements_append_cons isRead.ends staysOpen]
  exact List.forall_mem_cons.2 ⟨unbound, further⟩

/-- The parts of a statement that is bound, of which the selector is read in code. -/
theorem exists_parts_of_some
    (isRead : IsReadStatement depth body stop behindDepth)
    {literal : Text}
    (bound : Statement.binding? ⟨body, some stop⟩ = some literal) :
    stop.char = '{' ∧ behindDepth = 0 ∧ ∃ lead selector leadDepth,
      body = lead ++ selector ∧ Statement.lead ⟨body, some stop⟩ = lead ∧
      Statement.selector ⟨body, some stop⟩ = selector ∧
      (∀ cell ∈ lead, Statement.isLead cell = true) ∧
      (∀ next, (Mode.code depth false).cellsBefore (chars lead) next = lead ∧
        (Mode.code depth false).after (chars lead) next = .code leadDepth false) ∧
      (Mode.code leadDepth false).cellsBefore (chars selector) (some '{') = selector := by
  obtain ⟨isBrace, ⟨first, others, isSelector⟩, -⟩ := Statement.exists_of_binding?_eq_some bound
  have isBrace : stop.char = '{' := by simpa using isBrace
  have isLead : ∀ cell ∈ body.takeWhile Statement.isLead, Statement.isLead cell = true :=
    List.all_eq_true.1 List.all_takeWhile
  have notLead : Statement.isLead first = false := by
    have stops := List.head?_dropWhile_not Statement.isLead body
    change body.dropWhile Statement.isLead = first :: others at isSelector
    rwa [isSelector] at stops
  have split : body = body.takeWhile Statement.isLead ++ first :: others := by
    rw [← isSelector]
    exact List.takeWhile_append_dropWhile.symm
  have sameLead : Statement.lead ⟨body, some stop⟩ = body.takeWhile Statement.isLead := rfl
  generalize body.takeWhile Statement.isLead = lead at isLead split sameLead
  have readsBody := isRead.readsBody
  rw [split, chars_append, Mode.cellsBefore_append, chars_cons, List.head?_cons,
    Option.some_or] at readsBody
  obtain ⟨readsLead, readsSelector⟩ := List.append_inj readsBody
    (by rw [← length_chars, Mode.chars_cellsBefore, length_chars])
  have isFirst := readsSelector
  rw [Mode.cellsBefore] at isFirst
  rw [← (List.cons.inj isFirst).1] at notLead
  have between : IsBetween (.code depth false) := rfl
  obtain ⟨leadDepth, same⟩ := read_lead between readsLead isLead notLead
  refine ⟨isBrace, isRead.isFlat isBrace, lead, first :: others, leadDepth, split, sameLead,
    isSelector, isLead, same, ?_⟩
  rwa [(same _).2, isBrace, ← chars_cons] at readsSelector

/-- The declaration and the interpolation of a bound selector are read behind its lead. -/
theorem exists_cells_boundSelector
    (isRead : IsReadStatement depth body stop behindDepth)
    {literal : Text}
    (bound : Statement.binding? ⟨body, some stop⟩ = some literal)
    (number : UInt64)
    (behind : Text) :
    ∃ lead quote text,
      (∀ cell ∈ lead, Statement.isLead cell = true) ∧ lead ⊆ body ∧
      (Mode.code depth false).cells (chars (Statement.lead ⟨body, some stop⟩) ++
          (boundSelector number literal ++ stop.char :: behind)) =
        lead ++ (declarationCells number ++
          ((⟨'~', .code, false⟩ :: opened .string (quote :: (text ++ [quote]))) ++
            semicolonCell text :: .ofCode '\n' :: interpolationCells number)) ++
          .ofCode '{' :: (Mode.code behindDepth false).cells behind := by
  obtain ⟨isBrace, rfl, lead, selector, leadDepth, rfl, sameLead, -, isLead, same, -⟩ :=
    isRead.exists_parts_of_some bound
  obtain ⟨-, -, oneLine, quote, isQuote, noQuote, rfl⟩ :=
    Statement.exists_of_binding?_eq_some bound
  obtain ⟨boundReads, behindBound⟩ :=
    read_boundSelector isQuote noQuote oneLine number leadDepth false (some '{')
  refine ⟨lead, quote, (chars (Statement.selector ⟨lead ++ selector, some stop⟩)).collapse, isLead,
    List.subset_append_left _ _, ?_⟩
  rw [sameLead, Mode.cells_append, (same _).1, (same _).2, Mode.cells_append, isBrace,
    List.head?_cons, boundReads, behindBound, ← List.append_assoc]
  rfl

/-- A statement that is bound is read as statements that are not bound. -/
theorem isUnbound_of_some
    (isRead : IsReadStatement depth body stop behindDepth)
    {literal behind : Text}
    (bound : Statement.binding? ⟨body, some stop⟩ = some literal)
    (number : UInt64)
    (further : IsUnbound ((Mode.code behindDepth false).cells behind)) :
    IsUnbound ((Mode.code depth false).cells (chars (Statement.lead ⟨body, some stop⟩) ++
      (boundSelector number literal ++ stop.char :: behind))) := by
  obtain ⟨lead, quote, text, isLead, -, boundReads⟩ :=
    isRead.exists_cells_boundSelector bound number behind
  rw [boundReads]
  exact isUnbound_boundSelector isLead (semicolonCell_cases text) number further

end IsReadStatement

/-- Read afresh, no statement behind the patch is bound. -/
theorem isUnbound_cells_after
    {cells : List Cell}
    {depth : Nat}
    (reads : (Mode.code depth false).cells (chars cells) = cells)
    (keepsOpen : (statements (markInterpolations false cells)).Pairwise KeepsOpen)
    (number : UInt64) :
    IsUnbound ((Mode.code depth false).cells
      (selectorPatch number (statements (markInterpolations false cells))).after) := by
  induction length : cells.length using Nat.strong_induction_on generalizing cells depth number with
  | _ count inductionHypothesis =>
  subst length
  have braces : BracesStandAsCode cells := reads ▸ bracesStandAsCode_cells _ _
  obtain unstopped | ⟨body, stop, rest, rfl, unstopped, ends, staysOpen⟩ :=
    unstopped_or_exists_stop braces (absurd · Bool.false_ne_true)
  case inl =>
    have unbound : IsUnbound cells := by
      intro statement member
      apply Statement.binding?_eq_none_of_stop
      rw [stop_eq_none_of_mem_statements unstopped.endsStatement_eq_false member]
      rfl
    rw [after_selectorPatch_eq_chars unbound, reads]
    exact unbound
  case inr =>
    obtain ⟨behindDepth, isRead, readsRest⟩ := IsReadStatement.exists_of_reads unstopped ends reads
    rw [unstopped.statements_append_cons ends staysOpen] at keepsOpen ⊢
    obtain ⟨keepsHere, keepsRest⟩ := List.pairwise_cons.1 keepsOpen
    have further := inductionHypothesis rest.length (by simp; omega) readsRest keepsRest
    cases bound : Statement.binding? ⟨body, some stop⟩ with
    | some literal =>
        rw [after_selectorPatch_of_some bound]
        exact isRead.isUnbound_of_some bound number (further (number + 1) rfl)
    | none =>
        have stillOpen : StaysOpen body (stop :: (Mode.code behindDepth false).cells
            (selectorPatch number (statements (markInterpolations false rest))).after) := by
          -- Behind an open interpolation nothing is bound, so the text there is the same.
          intro endsInAt isBrace
          have later : IsUnbound rest := fun statement member =>
            keepsHere statement member bound endsInAt (by simpa using isBrace)
          rw [after_selectorPatch_eq_chars later, readsRest]
          exact staysOpen endsInAt isBrace
        rw [after_selectorPatch_of_none bound]
        exact isRead.isUnbound_of_none bound stillOpen (further number rfl)

/-- No line comment begins in what is written for a bound selector. -/
theorem kind_ne_lineComment_of_mem_boundSelector
    {number : UInt64}
    {quote : Char}
    {text : Text}
    {cell : Cell}
    (member : cell ∈ declarationCells number ++
      ((⟨'~', .code, false⟩ :: opened .string (quote :: (text ++ [quote]))) ++
        semicolonCell text :: .ofCode '\n' :: interpolationCells number)) :
    cell.kind ≠ .lineComment := by
  have ofCode : ∀ {text : Text}, cell ∈ text.map .ofCode → cell.kind ≠ .lineComment := by
    intro text inText
    obtain ⟨char, -, rfl⟩ := List.mem_map.1 inText
    simp [Cell.ofCode]
  have declaration : declarationCells number =
      ('@' :: (variableName number ++ [':', ' '])).map .ofCode := by
    simp [declarationCells]
  have interpolation : .ofCode '\n' :: interpolationCells number =
      ('\n' :: '@' :: '{' :: (variableName number ++ ['}', ' '])).map .ofCode := by
    simp [interpolationCells]
  rw [declaration, interpolation, List.mem_append, List.cons_append, List.mem_cons,
    List.mem_append, List.mem_cons] at member
  obtain inDeclaration | rfl | inString | rfl | inInterpolation := member
  · exact ofCode inDeclaration
  · decide
  · simp [kind_of_mem_opened inString]
  · obtain isCode | isString := semicolonCell_cases text
    · simp [isCode, Cell.ofCode]
    · simp [isString]
  · exact ofCode inInterpolation

/-- Read afresh, the text behind the patch has a line comment only where there was one. -/
theorem kind_ne_lineComment_of_mem_cells_after
    {cells : List Cell}
    {depth : Nat}
    (reads : (Mode.code depth false).cells (chars cells) = cells)
    (noComment : ∀ cell ∈ cells, cell.kind ≠ .lineComment)
    (number : UInt64) :
    ∀ cell ∈ (Mode.code depth false).cells
        (selectorPatch number (statements (markInterpolations false cells))).after,
      cell.kind ≠ .lineComment := by
  induction length : cells.length using Nat.strong_induction_on generalizing cells depth number with
  | _ count inductionHypothesis =>
  subst length
  have braces : BracesStandAsCode cells := reads ▸ bracesStandAsCode_cells _ _
  obtain unstopped | ⟨body, stop, rest, rfl, unstopped, ends, staysOpen⟩ :=
    unstopped_or_exists_stop braces (absurd · Bool.false_ne_true)
  case inl =>
    have unbound : IsUnbound cells := by
      intro statement member
      apply Statement.binding?_eq_none_of_stop
      rw [stop_eq_none_of_mem_statements unstopped.endsStatement_eq_false member]
      rfl
    rwa [after_selectorPatch_eq_chars unbound, reads]
  case inr =>
    obtain ⟨behindDepth, isRead, readsRest⟩ := IsReadStatement.exists_of_reads unstopped ends reads
    rw [List.forall_mem_append, List.forall_mem_cons] at noComment
    obtain ⟨bodyComment, stopComment, restComment⟩ := noComment
    have further := inductionHypothesis rest.length (by simp; omega) readsRest restComment
    rw [unstopped.statements_append_cons ends staysOpen]
    cases bound : Statement.binding? ⟨body, some stop⟩ with
    | some literal =>
        obtain ⟨lead, quote, text, -, leadSubset, boundReads⟩ :=
          isRead.exists_cells_boundSelector bound number _
        rw [after_selectorPatch_of_some bound]
        change ∀ cell ∈ (Mode.code depth false).cells (_ ++ (_ ++ stop.char :: _)), _
        rw [boundReads, List.append_assoc, List.forall_mem_append, List.forall_mem_append,
          List.forall_mem_cons]
        exact ⟨fun cell member => bodyComment cell (leadSubset member),
          fun cell => kind_ne_lineComment_of_mem_boundSelector, by decide, further (number + 1) rfl⟩
    | none =>
        rw [after_selectorPatch_of_none bound]
        change ∀ cell ∈ (Mode.code depth false).cells (_ ++ stop.char :: _), _
        rw [isRead.cells_append, List.forall_mem_append, List.forall_mem_cons]
        exact ⟨bodyComment, stopComment, further number rfl⟩

/-- No complex selector is left where no open interpolation stands in front of a bound one. -/
theorem hasNoComplexSelector_bindComplexSelectors
    {source : Text}
    (keepsOpen : (statements (markInterpolations false (cells source))).Pairwise KeepsOpen) :
    HasNoComplexSelector (bindComplexSelectors source) := by
  have reads : (Mode.code 0 false).cells (chars (cells source)) = cells source :=
    congrArg Mode.initial.cells (chars_cells source)
  exact isUnbound_cells_after reads keepsOpen _

theorem hasNoLineComment_bindComplexSelectors
    {source : Text}
    (noLineComment : HasNoLineComment source) :
    HasNoLineComment (bindComplexSelectors source) := by
  have reads : (Mode.code 0 false).cells (chars (cells source)) = cells source :=
    congrArg Mode.initial.cells (chars_cells source)
  exact kind_ne_lineComment_of_mem_cells_after reads noLineComment _

/--
Binding complex selectors twice is binding them once, if no open interpolation
stands in front of a bound selector.
-/
theorem bindComplexSelectors_bindComplexSelectors
    {source : Text}
    (keepsOpen : (statements (markInterpolations false (cells source))).Pairwise KeepsOpen) :
    bindComplexSelectors (bindComplexSelectors source) = bindComplexSelectors source :=
  addsInkUnless_bindComplexSelectors.eq_self _ (hasNoComplexSelector_bindComplexSelectors keepsOpen)

/-- A selector whose string a backslash keeps open is not bound a second time. -/
theorem bindComplexSelectors_bindComplexSelectors_backslash :
    (statements (markInterpolations false
        (cells "@\x7bb\x7d;a:is(b,c:not(d))\\\x7b//e"))).Pairwise KeepsOpen ∧
      bindComplexSelectors (bindComplexSelectors "@\x7bb\x7d;a:is(b,c:not(d))\\\x7b//e") =
        bindComplexSelectors "@\x7bb\x7d;a:is(b,c:not(d))\\\x7b//e" :=
  ⟨by decide, bindComplexSelectors_bindComplexSelectors (by decide)⟩

/-- The interpolation of a bound selector closes an open one, and a longer selector comes about. -/
theorem bindComplexSelectors_ne_self_open_interpolation :
    bindComplexSelectors "y@\x7b:is(a,b:not(c));d:is(a,b:not(c))\x7b" =
        "y@\x7b:is(a,b:not(c));@tw-selector-1: ~\"d:is(a,b:not(c))\";\n@\x7btw-selector-1\x7d \x7b" ∧
      bindComplexSelectors (bindComplexSelectors "y@\x7b:is(a,b:not(c));d:is(a,b:not(c))\x7b") ≠
        bindComplexSelectors "y@\x7b:is(a,b:not(c));d:is(a,b:not(c))\x7b" := by
  decide +kernel

end Lowering
end LessTheme
