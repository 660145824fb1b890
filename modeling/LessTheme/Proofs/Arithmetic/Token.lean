import Mathlib.Data.List.DropRight
import LessTheme.Arithmetic.Token

/-!
# Tokens of joined texts

The tokens of a text are read from left to right, and what is read of a part
depends on the parts before it by two flags only: whether an operand has to
come next and whether white space stands right before.  So the tokens of a
joined text are those of its parts.
-/

namespace LessTheme
namespace Arithmetic

/-! ## Lexemes -/

/-- A character of a run. -/
def isRunChar (char : Char) : Bool := isNumeralChar char || isUnitChar char

/-- The text does not begin with a run. -/
def StartsApart (text : Text) : Prop := ∀ char, text.head? = some char → isRunChar char = false

/-- The text does not end with a run. -/
def EndsApart (text : Text) : Prop := ∀ char, text.getLast? = some char → isRunChar char = false

theorem startsApart_nil : StartsApart [] := fun _ impossible => nomatch impossible

theorem startsApart_cons
    {char : Char}
    (isApart : isRunChar char = false)
    (rest : Text) :
    StartsApart (char :: rest) := by
  intro first isFirst
  obtain rfl := Option.some.inj isFirst
  exact isApart

theorem lexemes_cons_of_isRunChar_eq_false
    {char : Char}
    (isApart : isRunChar char = false)
    (rest : Text) :
    lexemes (char :: rest) = .mark char :: lexemes rest := by
  rw [lexemes]
  exact if_neg (by simpa [isRunChar] using isApart)

/-- The lexemes with a character of a run in front. -/
def prependToRun (char : Char) : List Lexeme → List Lexeme
  | .run text :: others => .run (char :: text) :: others
  | others => .run [char] :: others

theorem lexemes_cons_of_isRunChar
    {char : Char}
    (isRun : isRunChar char = true)
    (rest : Text) :
    lexemes (char :: rest) = prependToRun char (lexemes rest) := by
  rw [lexemes]
  exact if_pos isRun

theorem prependToRun_ne_nil (char : Char) (lexemes : List Lexeme) :
    prependToRun char lexemes ≠ [] := by
  unfold prependToRun
  split <;> exact List.cons_ne_nil _ _

theorem prependToRun_append
    {lexemes : List Lexeme}
    (nonempty : lexemes ≠ [])
    (char : Char)
    (others : List Lexeme) :
    prependToRun char (lexemes ++ others) = prependToRun char lexemes ++ others := by
  cases lexemes with
  | nil => contradiction
  | cons first rest => cases first <;> rfl

theorem lexemes_eq_nil_iff {text : Text} : lexemes text = [] ↔ text = [] := by
  cases text with
  | nil => exact iff_of_true rfl rfl
  | cons char rest =>
      refine iff_of_false ?_ (List.cons_ne_nil char rest)
      cases isRun : isRunChar char with
      | true =>
          rw [lexemes_cons_of_isRunChar isRun]
          exact prependToRun_ne_nil char (lexemes rest)
      | false =>
          rw [lexemes_cons_of_isRunChar_eq_false isRun]
          exact List.cons_ne_nil _ _

/-- A text that begins with no run has a mark for its first lexeme. -/
theorem exists_lexemes_eq_mark_cons
    {text : Text}
    (apart : StartsApart text)
    (nonempty : text ≠ []) :
    ∃ char others, lexemes text = .mark char :: others := by
  cases text with
  | nil => contradiction
  | cons char rest =>
      exact ⟨char, lexemes rest, lexemes_cons_of_isRunChar_eq_false (apart char rfl) rest⟩

/-- Lexemes do not cross the place where two texts are joined apart. -/
theorem lexemes_append
    {text other : Text}
    (apart : EndsApart text ∨ StartsApart other) :
    lexemes (text ++ other) = lexemes text ++ lexemes other := by
  induction text with
  | nil => rfl
  | cons char rest inductionHypothesis =>
      have restApart : EndsApart rest ∨ StartsApart other := by
        refine apart.imp_left fun ends last isLast => ends last ?_
        rw [List.getLast?_cons, isLast]
        rfl
      specialize inductionHypothesis restApart
      rw [List.cons_append]
      cases isRun : isRunChar char with
      | false =>
          rw [lexemes_cons_of_isRunChar_eq_false isRun, lexemes_cons_of_isRunChar_eq_false isRun,
            inductionHypothesis, List.cons_append]
      | true =>
          rw [lexemes_cons_of_isRunChar isRun, lexemes_cons_of_isRunChar isRun,
            inductionHypothesis]
          by_cases isLast : rest = []
          · subst isLast
            have otherApart : StartsApart other :=
              apart.resolve_left fun ends => Bool.noConfusion (isRun.symm.trans (ends char rfl))
            by_cases isEmpty : other = []
            · rw [isEmpty]
              rfl
            · obtain ⟨mark, others, read⟩ := exists_lexemes_eq_mark_cons otherApart isEmpty
              rw [read]
              rfl
          · exact prependToRun_append (mt lexemes_eq_nil_iff.1 isLast) char (lexemes other)

theorem lexemes_of_isRunChar
    {text : Text}
    (nonempty : text ≠ [])
    (isRun : ∀ char ∈ text, isRunChar char = true) :
    lexemes text = [.run text] := by
  induction text with
  | nil => contradiction
  | cons char rest inductionHypothesis =>
      rw [List.forall_mem_cons] at isRun
      rw [lexemes_cons_of_isRunChar isRun.1]
      by_cases isLast : rest = []
      · rw [isLast]
        rfl
      · rw [inductionHypothesis isLast isRun.2]
        rfl

theorem getLast?_lexemes_of_isRunChar_eq_false
    {text : Text}
    {last : Char}
    (isLast : text.getLast? = some last)
    (isApart : isRunChar last = false) :
    (lexemes text).getLast? = some (.mark last) := by
  obtain ⟨front, rfl⟩ := List.getLast?_eq_some_iff.1 isLast
  rw [lexemes_append (Or.inr (startsApart_cons isApart [])),
    lexemes_cons_of_isRunChar_eq_false isApart, List.getLast?_append]
  rfl

theorem exists_getLast?_lexemes_eq_run
    {text : Text}
    {last : Char}
    (isLast : text.getLast? = some last)
    (isRun : isRunChar last = true) :
    ∃ run, (lexemes text).getLast? = some (.run run) := by
  have frontApart : EndsApart (text.rdropWhile isRunChar) := by
    intro char isFrontLast
    obtain ⟨front, ends⟩ := List.getLast?_eq_some_iff.1 isFrontLast
    have stops := List.rdropWhile_last_not isRunChar text (by simp [ends])
    simpa [ends] using stops
  have nonempty : text.rtakeWhile isRunChar ≠ [] := by
    obtain ⟨front, rfl⟩ := List.getLast?_eq_some_iff.1 isLast
    rw [List.rtakeWhile_concat_pos _ _ _ isRun]
    exact List.append_ne_nil_of_right_ne_nil _ (List.cons_ne_nil last [])
  refine ⟨text.rtakeWhile isRunChar, ?_⟩
  have split : text.rdropWhile isRunChar ++ text.rtakeWhile isRunChar = text :=
    List.rdropWhile_append_rtakeWhile
  rw [← congrArg lexemes split, lexemes_append (Or.inl frontApart),
    lexemes_of_isRunChar nonempty fun char => List.mem_rtakeWhile_imp, List.getLast?_concat]

/-! ## Tokens -/

/-- Whether an operand has to follow a token. -/
def Token.isOpen : Token → Bool
  | .operator _ | .opening => true
  | .quantity .. | .closing => false

/-- Whether an operand has to come after some tokens, given whether it had to before. -/
def expectsOperand : Bool → List Token → Bool
  | operandNext, [] => operandNext
  | _, token :: rest => expectsOperand token.isOpen rest

/-- Whether white space stands right after some lexemes, given whether it stood before. -/
def endsBlank : Bool → List Lexeme → Bool
  | afterBlank, [] => afterBlank
  | _, .run _ :: rest => endsBlank false rest
  | _, .mark char :: rest => endsBlank (isBlankMark char) rest

/-- What begins with white space still does with more behind it. -/
theorem startsBlank_append
    {lexemes : List Lexeme}
    (isBlank : startsBlank lexemes = true)
    (others : List Lexeme) :
    startsBlank (lexemes ++ others) = true := by
  cases lexemes with
  | nil => contradiction
  | cons first rest => cases first <;> exact isBlank

/-- A run is read as a number with its unit. -/
theorem exists_eq_quantity_of_quantity?_eq_some
    {negative : Bool}
    {run : Text}
    {token : Token}
    (read : quantity? negative run = some token) :
    ∃ numeral unit,
      token = .quantity negative numeral unit ∧ ∀ char ∈ unit, isUnitChar char = true := by
  unfold quantity? at read
  dsimp only at read
  split at read
  case isTrue proper =>
    obtain ⟨numeral, -, rfl⟩ := Option.map_eq_some_iff.1 read
    exact ⟨numeral, _, rfl, List.all_eq_true.1 proper⟩
  case isFalse => contradiction

/-! ### One token -/

section OneToken

variable (operandNext afterBlank : Bool) {text : Text} {token : Token} (rest : List Lexeme)

/-- The sign of a quantity. -/
def sign (negative : Bool) : Text := if negative then ['-'] else []

theorem endsApart_sign (negative : Bool) : EndsApart (sign negative) := by
  intro char isLast
  cases negative
  case true =>
    obtain rfl := Option.some.inj isLast
    rfl
  case false => contradiction

theorem tokens?_quantity
    {negative : Bool}
    (read : quantity? negative text = some token) :
    tokens? true afterBlank (lexemes (sign negative) ++ .run text :: rest) =
      (tokens? false false rest).map (token :: ·) := by
  cases negative
  case true =>
    change tokens? true afterBlank (.mark '-' :: .run text :: rest) = _
    rw [tokens?, read, Option.map_eq_bind]
    rfl
  case false =>
    change tokens? true afterBlank (.run text :: rest) = _
    rw [tokens?, read, Option.map_eq_bind]
    rfl

theorem tokens?_negation :
    tokens? true afterBlank (.mark '-' :: .mark '(' :: rest) =
      (tokens? true false rest).map
        ([.quantity true ⟨1, 0⟩ [], .operator .multiply, .opening] ++ ·) := by
  rw [tokens?, Option.map_eq_bind]
  rfl

theorem tokens?_opening :
    tokens? true afterBlank (.mark '(' :: rest) =
      (tokens? true false rest).map (.opening :: ·) := by
  rw [tokens?, Option.map_eq_bind]
  rfl

theorem tokens?_closing :
    tokens? false afterBlank (.mark ')' :: rest) =
      (tokens? false false rest).map (.closing :: ·) := by
  rw [tokens?, Option.map_eq_bind]
  rfl

/-- White space between tokens is skipped. -/
theorem tokens?_blank {char : Char} (isBlank : isBlankMark char = true) :
    tokens? operandNext afterBlank (.mark char :: rest) = tokens? operandNext true rest := by
  simp only [isBlankMark, Bool.or_eq_true, beq_iff_eq] at isBlank
  cases operandNext <;> obtain (rfl | rfl) | rfl := isBlank <;> rfl

/-- An operator behind an operand is read unless it is a sign. -/
theorem tokens?_operator
    {char : Char}
    {operator : Operator}
    (isOperator : operator? char = some operator) :
    tokens? false afterBlank (.mark char :: rest) =
      if operator = .subtract ∧ afterBlank = true ∧ startsBlank rest = false then none
      else (tokens? true false rest).map (.operator operator :: ·) := by
  have asBind : (tokens? true false rest).map (.operator operator :: ·) =
      do return .operator operator :: (← tokens? true false rest) := Option.map_eq_bind
  rw [asBind]
  unfold operator? at isOperator
  split at isOperator
  case h_5 => contradiction
  all_goals
    obtain rfl := Option.some.inj isOperator
    simp [tokens?, isBlankMark, operator?]

/-- Where an operand has to come, it does not matter whether white space stands before. -/
theorem tokens?_true :
    tokens? true afterBlank rest = tokens? true false rest := by
  generalize due : true = operandNext
  fun_cases tokens? operandNext afterBlank rest
  case case8 isBlank _ _ _ _ _ => rw [tokens?_blank _ _ _ isBlank]
  case case9 | case10 => contradiction
  case case11 notBlank _ _ _ _ _ _ =>
    subst due
    simp only [tokens?, notBlank, Bool.false_eq_true, if_false]
  all_goals rfl

end OneToken

/-! ### All tokens -/

/-- The tokens of joined lexemes, the first part having tokens. -/
theorem tokens?_append
    {operandNext afterBlank : Bool}
    {lexemes : List Lexeme}
    {tokens : List Token}
    (read : tokens? operandNext afterBlank lexemes = some tokens)
    (others : List Lexeme) :
    tokens? operandNext afterBlank (lexemes ++ others) =
      (tokens? (expectsOperand operandNext tokens) (endsBlank afterBlank lexemes) others).map
        (tokens ++ ·) := by
  fun_induction tokens? operandNext afterBlank lexemes generalizing tokens with
  | case1 =>
      obtain rfl := Option.some.inj read
      exact Option.map_id'.symm
  | case2 _ _ _ inductionHypothesis
  | case3 _ _ _ inductionHypothesis
  | case4 _ _ _ inductionHypothesis =>
      obtain ⟨quantity, isQuantity, read⟩ := Option.bind_eq_some_iff.1 read
      obtain ⟨later, isLater, same⟩ := Option.bind_eq_some_iff.1 read
      obtain rfl := Option.some.inj same
      obtain ⟨numeral, unit, rfl, -⟩ := exists_eq_quantity_of_quantity?_eq_some isQuantity
      simp only [List.cons_append, tokens?, isQuantity, inductionHypothesis isLater,
        expectsOperand, Token.isOpen, Option.map_eq_bind, Option.bind_eq_bind, Option.bind_some,
        Option.bind_assoc]
      rfl
  | case5 _ _ inductionHypothesis
  | case6 _ _ inductionHypothesis
  | case7 _ _ inductionHypothesis =>
      obtain ⟨later, isLater, same⟩ := Option.bind_eq_some_iff.1 read
      obtain rfl := Option.some.inj same
      simp only [List.cons_append, tokens?_negation, tokens?_opening, tokens?_closing,
        inductionHypothesis isLater, Option.map_map]
      rfl
  | case8 _ _ _ _ _ _ _ _ _ isBlank inductionHypothesis =>
      rw [List.cons_append, tokens?_blank _ _ _ isBlank, inductionHypothesis read, endsBlank,
        isBlank]
  | case10 =>
      rename_i notBlank _ isOperator isInfix _ _ _ _ _ inductionHypothesis
      obtain ⟨later, isLater, same⟩ := Option.bind_eq_some_iff.1 read
      obtain rfl := Option.some.inj same
      rw [List.cons_append, tokens?_operator _ _ isOperator, if_neg, inductionHypothesis isLater,
        Option.map_map, endsBlank, Bool.eq_false_iff.2 notBlank]
      · rfl
      · rintro ⟨isMinus, isAfterBlank, notBeforeBlank⟩
        refine isInfix ⟨isMinus, isAfterBlank, Bool.eq_false_iff.2 fun isBeforeBlank => ?_⟩
        rw [startsBlank_append isBeforeBlank] at notBeforeBlank
        contradiction
  | case9 | case11 | case12 => contradiction

/-! ### Where texts are joined -/

theorem expectsOperand_of_getLast?
    {tokens : List Token}
    {token : Token}
    (isLast : tokens.getLast? = some token)
    (operandNext : Bool) :
    expectsOperand operandNext tokens = token.isOpen := by
  induction tokens generalizing operandNext with
  | nil => contradiction
  | cons first rest inductionHypothesis =>
      cases rest with
      | nil =>
          obtain rfl := Option.some.inj isLast
          rfl
      | cons second others => exact inductionHypothesis isLast first.isOpen

/-- Some lexemes end with a run, or there are none and no operand is due. -/
def EndsInRun (operandNext : Bool) (lexemes : List Lexeme) : Prop :=
  (lexemes = [] → operandNext = false) ∧ ∀ char, lexemes.getLast? ≠ some (.mark char)

theorem EndsInRun.tail
    {operandNext next : Bool}
    {first : Lexeme}
    {rest : List Lexeme}
    (ends : EndsInRun operandNext (first :: rest))
    (isComplete : next = true → ∃ char, first = .mark char) :
    EndsInRun next rest := by
  constructor
  · rintro rfl
    rw [Bool.eq_false_iff]
    intro isDue
    obtain ⟨char, rfl⟩ := isComplete isDue
    exact ends.2 char rfl
  · intro char isLast
    refine ends.2 char ?_
    rw [List.getLast?_cons, isLast]
    rfl

/-- A run is the end of an operand. -/
theorem EndsInRun.expectsOperand_eq_false
    {operandNext afterBlank : Bool}
    {lexemes : List Lexeme}
    {tokens : List Token}
    (ends : EndsInRun operandNext lexemes)
    (read : tokens? operandNext afterBlank lexemes = some tokens) :
    expectsOperand operandNext tokens = false := by
  fun_induction tokens? operandNext afterBlank lexemes generalizing tokens with
  | case1 =>
      obtain rfl := Option.some.inj read
      exact ends.1 rfl
  | case2 _ _ _ inductionHypothesis =>
      obtain ⟨quantity, isQuantity, read⟩ := Option.bind_eq_some_iff.1 read
      obtain ⟨later, isLater, same⟩ := Option.bind_eq_some_iff.1 read
      obtain rfl := Option.some.inj same
      obtain ⟨numeral, unit, rfl, -⟩ := exists_eq_quantity_of_quantity?_eq_some isQuantity
      exact inductionHypothesis (ends.tail fun isDue => nomatch isDue) isLater
  | case3 _ _ _ inductionHypothesis
  | case4 _ _ _ inductionHypothesis =>
      obtain ⟨quantity, isQuantity, read⟩ := Option.bind_eq_some_iff.1 read
      obtain ⟨later, isLater, same⟩ := Option.bind_eq_some_iff.1 read
      obtain rfl := Option.some.inj same
      obtain ⟨numeral, unit, rfl, -⟩ := exists_eq_quantity_of_quantity?_eq_some isQuantity
      have runEnds : EndsInRun true _ := ends.tail fun _ => ⟨_, rfl⟩
      exact inductionHypothesis (runEnds.tail fun isDue => nomatch isDue) isLater
  | case5 _ _ inductionHypothesis =>
      obtain ⟨later, isLater, same⟩ := Option.bind_eq_some_iff.1 read
      obtain rfl := Option.some.inj same
      have groupEnds : EndsInRun true _ := ends.tail fun _ => ⟨_, rfl⟩
      have isComplete := inductionHypothesis (groupEnds.tail fun _ => ⟨_, rfl⟩) isLater
      exact isComplete
  | case6 _ _ inductionHypothesis
  | case7 _ _ inductionHypothesis =>
      obtain ⟨later, isLater, same⟩ := Option.bind_eq_some_iff.1 read
      obtain rfl := Option.some.inj same
      have isComplete := inductionHypothesis (ends.tail fun _ => ⟨_, rfl⟩) isLater
      exact isComplete
  | case8 _ _ _ _ _ _ _ _ _ isBlank inductionHypothesis =>
      exact inductionHypothesis (ends.tail fun _ => ⟨_, rfl⟩) read
  | case10 =>
      rename_i inductionHypothesis
      obtain ⟨later, isLater, same⟩ := Option.bind_eq_some_iff.1 read
      obtain rfl := Option.some.inj same
      exact inductionHypothesis (ends.tail fun _ => ⟨_, rfl⟩) isLater
  | case9 | case11 | case12 => contradiction

theorem endsApart_of_expectsOperand
    {operandNext afterBlank : Bool}
    {text : Text}
    {tokens : List Token}
    (read : tokens? operandNext afterBlank (lexemes text) = some tokens)
    (isDue : expectsOperand operandNext tokens = true) :
    EndsApart text := by
  intro last isLast
  by_contra isRun
  obtain ⟨run, ends⟩ := exists_getLast?_lexemes_eq_run isLast (Bool.not_eq_false _ ▸ isRun)
  have endsInRun : EndsInRun operandNext (lexemes text) := by
    rw [EndsInRun, ends]
    refine ⟨fun isEmpty => ?_, fun char same => nomatch same⟩
    rw [isEmpty] at ends
    contradiction
  rw [endsInRun.expectsOperand_eq_false read] at isDue
  contradiction

/-- No run follows an operand. -/
theorem startsApart_of_tokens?_false
    {afterBlank : Bool}
    {text : Text}
    {tokens : List Token}
    (read : tokens? false afterBlank (lexemes text) = some tokens) :
    StartsApart text := by
  intro first isFirst
  by_contra isRun
  obtain ⟨rest, rfl⟩ := List.head?_eq_some_iff.1 isFirst
  rw [lexemes_cons_of_isRunChar (Bool.not_eq_false _ ▸ isRun)] at read
  unfold prependToRun at read
  split at read <;> contradiction

theorem endsBlank_of_getLast?
    {lexemes : List Lexeme}
    {last : Lexeme}
    (isLast : lexemes.getLast? = some last)
    (afterBlank : Bool) :
    endsBlank afterBlank lexemes = startsBlank [last] := by
  induction lexemes generalizing afterBlank with
  | nil => contradiction
  | cons first rest inductionHypothesis =>
      cases rest with
      | nil =>
          obtain rfl := Option.some.inj isLast
          cases first <;> rfl
      | cons second others =>
          cases first
          case run => exact inductionHypothesis isLast false
          case mark char => exact inductionHypothesis isLast (isBlankMark char)

theorem endsBlank_lexemes_eq_false
    {text : Text}
    (notBlank : ∀ char, text.getLast? = some char → isBlankMark char = false) :
    endsBlank false (lexemes text) = false := by
  cases isLast : text.getLast? with
  | none =>
      obtain rfl := List.getLast?_eq_none_iff.1 isLast
      rfl
  | some last =>
      cases isRun : isRunChar last with
      | true =>
          obtain ⟨run, ends⟩ := exists_getLast?_lexemes_eq_run isLast isRun
          exact endsBlank_of_getLast? ends false
      | false =>
          have ends := getLast?_lexemes_of_isRunChar_eq_false isLast isRun
          exact (endsBlank_of_getLast? ends false).trans (notBlank last isLast)

/-! ## Parentheses -/

/-- A text in parentheses where they are needed. -/
def enclosed (isNeeded : Bool) (text : Text) : Text :=
  if isNeeded then '(' :: (text ++ [')']) else text

/-- Tokens in parentheses where they are needed. -/
def enclosedTokens (isNeeded : Bool) (tokens : List Token) : List Token :=
  if isNeeded then .opening :: (tokens ++ [.closing]) else tokens

theorem units_append (front back : List Token) :
    units (front ++ back) = units front ++ units back := by
  rw [units, List.map_append, List.filter_append]
  rfl

theorem units_enclosedTokens (isNeeded : Bool) (tokens : List Token) :
    units (enclosedTokens isNeeded tokens) = units tokens := by
  cases isNeeded
  case true =>
    change units ([.opening] ++ (tokens ++ [.closing])) = _
    rw [units_append, units_append]
    exact List.append_nil _
  case false => rfl

/-! ## Texts of operands -/

/-- Wherever an operand has to come, the text is read as the given tokens. -/
def Writes (text : Text) (tokens : List Token) : Prop :=
  ∀ afterBlank rest, StartsApart rest →
    tokens? true afterBlank (lexemes (text ++ rest)) =
      (tokens? false false (lexemes rest)).map (tokens ++ ·)

namespace Writes

variable {text left right : Text} {tokens leftTokens rightTokens : List Token}

theorem tokensOf?_eq_some (writes : Writes text tokens) : tokensOf? text = some tokens := by
  have read := writes false [] startsApart_nil
  rw [List.append_nil] at read
  exact read.trans (congrArg some (List.append_nil tokens))

/-- A run with digits is a quantity, with or without a minus in front. -/
theorem quantity
    {negative : Bool}
    {token : Token}
    (nonempty : text ≠ [])
    (isRun : ∀ char ∈ text, isRunChar char = true)
    (read : quantity? negative text = some token) :
    Writes (sign negative ++ text) [token] := by
  intro afterBlank rest apart
  rw [List.append_assoc, lexemes_append (Or.inl (endsApart_sign negative)),
    lexemes_append (Or.inr apart), lexemes_of_isRunChar nonempty isRun]
  exact tokens?_quantity _ _ read

theorem before_closing
    (writes : Writes text tokens)
    (afterBlank : Bool)
    (rest : Text) :
    tokens? true afterBlank (lexemes (text ++ [')'] ++ rest)) =
      (tokens? false false (lexemes rest)).map (tokens ++ [.closing] ++ ·) := by
  rw [List.append_assoc, List.singleton_append, writes _ _ (startsApart_cons rfl _),
    lexemes_cons_of_isRunChar_eq_false rfl, tokens?_closing, Option.map_map]
  simp [Function.comp_def]

theorem group (writes : Writes text tokens) :
    Writes ('(' :: (text ++ [')'])) (.opening :: (tokens ++ [.closing])) := by
  intro afterBlank rest _
  rw [List.cons_append, lexemes_cons_of_isRunChar_eq_false rfl, tokens?_opening,
    writes.before_closing, Option.map_map]
  rfl

/-- A minus in front of a parenthesis multiplies by minus one. -/
theorem negation (writes : Writes text tokens) :
    Writes ('-' :: '(' :: (text ++ [')']))
      (.quantity true ⟨1, 0⟩ [] :: .operator .multiply :: .opening :: (tokens ++ [.closing])) := by
  intro afterBlank rest _
  rw [List.cons_append, List.cons_append, lexemes_cons_of_isRunChar_eq_false rfl,
    lexemes_cons_of_isRunChar_eq_false rfl, tokens?_negation, writes.before_closing,
    Option.map_map]
  rfl

theorem enclosed
    (writes : Writes text tokens)
    (isNeeded : Bool) :
    Writes (Arithmetic.enclosed isNeeded text) (enclosedTokens isNeeded tokens) := by
  cases isNeeded
  case true => exact writes.group
  case false => exact writes

/-- An operator with a space on either side stands between two operands. -/
theorem operation
    {operator : Operator}
    {char : Char}
    (isOperator : operator? char = some operator)
    (writesLeft : Writes left leftTokens)
    (writesRight : Writes right rightTokens) :
    Writes (left ++ ' ' :: char :: ' ' :: right)
      (leftTokens ++ .operator operator :: rightTokens) := by
  intro afterBlank rest apart
  have isApart : isRunChar char = false := by
    unfold operator? at isOperator
    split at isOperator <;> first | rfl | contradiction
  have spaced : startsBlank (lexemes (' ' :: (right ++ rest))) = true := by
    rw [lexemes_cons_of_isRunChar_eq_false rfl]
    rfl
  simp only [List.append_assoc, List.cons_append]
  rw [writesLeft _ _ (startsApart_cons rfl _), lexemes_cons_of_isRunChar_eq_false rfl,
    tokens?_blank _ _ _ rfl, lexemes_cons_of_isRunChar_eq_false isApart,
    tokens?_operator _ _ isOperator, if_neg (by simp [spaced]),
    lexemes_cons_of_isRunChar_eq_false rfl, tokens?_blank _ _ _ rfl,
    writesRight _ _ apart]
  simp [Function.comp_def]

/-- A text that ends with an operand is read the same with more behind it. -/
theorem of_tokensOf?_eq_some
    (read : tokensOf? text = some tokens)
    (isComplete : expectsOperand true tokens = false)
    (notBlank : endsBlank false (lexemes text) = false) :
    Writes text tokens := by
  intro afterBlank rest apart
  rw [lexemes_append (Or.inr apart), tokens?_true, tokens?_append read, isComplete, notBlank]

end Writes

end Arithmetic
end LessTheme
