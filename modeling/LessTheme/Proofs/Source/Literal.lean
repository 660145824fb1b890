import LessTheme.Proofs.Source.Part
import LessTheme.Proofs.Source.Segment
import LessTheme.Text.Quoted
import Mathlib.Data.List.DropRight

/-!
# Reading literal strings

A literal string is read as a tilde of code and one string, whatever text it
holds, as long as no line feed in the text ends the string.  A line feed right
behind a backslash does not.
-/

namespace LessTheme

namespace Text

/-- A literal form puts the text between quotes that do not occur in it. -/
theorem exists_quote_of_literal?_eq_some
    {text literal : Text}
    (written : text.literal? = some literal) :
    ∃ quote, (quote = '"' ∨ quote = '\'') ∧ quote ∉ text ∧
      literal = '~' :: quote :: (text ++ [quote]) := by
  unfold literal? at written
  split at written
  case isTrue =>
    split at written
    case isTrue => contradiction
    case isFalse noSingle =>
      exact ⟨'\'', Or.inr rfl, by simpa using noSingle, (Option.some.inj written).symm⟩
  case isFalse noDouble =>
    exact ⟨'"', Or.inl rfl, by simpa using noDouble, (Option.some.inj written).symm⟩

/-- Only a text with quotes of both kinds has no literal form. -/
theorem literal?_eq_none_iff (text : Text) :
    text.literal? = none ↔ '"' ∈ text ∧ '\'' ∈ text := by
  simp only [literal?, List.contains_iff_mem]
  split_ifs with double single
  · simp [double, single]
  · simp [single]
  · simp [double]

end Text

namespace Source

/--
Whether no line feed ends a string with the given text, each standing behind a
backslash; the flag tells whether a backslash stands in front of the text.
-/
def staysOpen : Bool → Text → Bool
  | _, [] => true
  | true, _ :: rest => staysOpen false rest
  | false, char :: rest => char != '\n' && staysOpen (char == '\\') rest

theorem staysOpen_of_not_mem
    {text : Text}
    (oneLine : '\n' ∉ text)
    (escaped : Bool) :
    staysOpen escaped text = true := by
  induction text generalizing escaped with
  | nil => cases escaped <;> rfl
  | cons char rest inductionHypothesis =>
      rw [List.mem_cons, not_or] at oneLine
      cases escaped with
      | true => exact inductionHypothesis oneLine.2 false
      | false =>
          rw [staysOpen, inductionHypothesis oneLine.2, Bool.and_true, bne_iff_ne]
          exact fun isLineFeed => oneLine.1 isLineFeed.symm

/--
Whether a backslash at the end of a string's text escapes what follows; the
flag tells whether one escapes the first character.
-/
def escapesNext : Bool → Text → Bool
  | escaped, [] => escaped
  | true, _ :: rest => escapesNext false rest
  | false, char :: rest => escapesNext (char == '\\') rest

theorem escapesNext_append_singleton
    (escaped : Bool)
    (text : Text)
    (char : Char) :
    escapesNext escaped (text ++ [char]) = (!escapesNext escaped text && char == '\\') := by
  induction text generalizing escaped with
  | nil => cases escaped <;> simp [escapesNext]
  | cons first rest inductionHypothesis =>
      cases escaped
      all_goals exact inductionHypothesis _

/-- Whether an odd number of backslashes stands at the end of a text. -/
def endsEscaped (text : Text) : Bool := (text.rtakeWhile (· == '\\')).length % 2 == 1

/-- Of the backslashes at the end of a text every second one is escaped itself. -/
theorem escapesNext_false_eq (text : Text) :
    escapesNext false text = endsEscaped text := by
  induction text using List.reverseRecOn with
  | nil => rfl
  | append_singleton text char inductionHypothesis =>
      rw [escapesNext_append_singleton, inductionHypothesis, endsEscaped, endsEscaped]
      by_cases isBackslash : char = '\\'
      · subst isBackslash
        rw [List.rtakeWhile_concat_pos (· == '\\') text '\\' rfl, List.length_append]
        obtain isEven | isOdd := Nat.mod_two_eq_zero_or_one
          (text.rtakeWhile (· == '\\')).length
        · simp [isEven, Nat.add_mod]
        · simp [isOdd, Nat.add_mod]
      · rw [List.rtakeWhile_concat_neg (· == '\\') text char (by simpa using isBackslash)]
        simp [isBackslash]

namespace Mode

/-- Inside of a string, where a backslash may stand right before. -/
def withinString (escaped : Bool) (quote : Char) (depth : Nat) : Mode :=
  if escaped then .escape quote depth else .string quote depth

variable {quote : Char}

/-- The text of a string stays in the string. -/
theorem read_withinString
    {text : Text}
    {escaped : Bool}
    (noQuote : quote ∉ text)
    (whole : staysOpen escaped text = true)
    (depth : Nat)
    (next : Option Char) :
    (withinString escaped quote depth).cellsBefore text next = inside .string text ∧
      (withinString escaped quote depth).after text next =
        withinString (escapesNext escaped text) quote depth := by
  induction text generalizing escaped with
  | nil =>
      cases escaped
      all_goals exact ⟨rfl, rfl⟩
  | cons char rest inductionHypothesis =>
      rw [List.mem_cons, not_or] at noQuote
      -- Only a backslash that is not itself behind a backslash escapes what follows.
      have step : ∃ further, staysOpen further rest = true ∧
          (∀ ahead, (withinString escaped quote depth).read char ahead =
            (⟨char, .string, false⟩, withinString further quote depth)) ∧
          escapesNext escaped (char :: rest) = escapesNext further rest := by
        cases escaped with
        | true => exact ⟨false, whole, fun _ => rfl, rfl⟩
        | false =>
            rw [staysOpen, Bool.and_eq_true, bne_iff_ne] at whole
            refine ⟨char == '\\', whole.2, fun _ => ?_, rfl⟩
            by_cases isBackslash : char = '\\'
            · simp [withinString, read, isBackslash]
            · simp [withinString, read, isBackslash, whole.1, Ne.symm noQuote.1]
      obtain ⟨further, restWhole, reads, escapes⟩ := step
      obtain ⟨cells, behind⟩ := inductionHypothesis noQuote.2 restWhole
      rw [cellsBefore, after, reads, cells, behind, escapes]
      exact ⟨rfl, rfl⟩

/-- A quote in code begins a string. -/
theorem read_quote
    (isQuote : quote = '"' ∨ quote = '\'')
    (depth : Nat)
    (afterColon : Bool)
    (next : Option Char) :
    (code depth afterColon).read quote next =
      (⟨quote, .string, true⟩, withinString false quote depth) :=
  if_pos isQuote

/-- The text of a literal string is read as one string; behind an escaped quote it goes on. -/
theorem read_literal
    {text : Text}
    (isQuote : quote = '"' ∨ quote = '\'')
    (noQuote : quote ∉ text)
    (whole : staysOpen false text = true)
    (depth : Nat)
    (afterColon : Bool)
    (next : Option Char) :
    (code depth afterColon).cellsBefore ('~' :: quote :: (text ++ [quote])) next =
        ⟨'~', .code, false⟩ :: opened .string (quote :: (text ++ [quote])) ∧
      (code depth afterColon).after ('~' :: quote :: (text ++ [quote])) next =
        if escapesNext false text then .string quote depth else .code depth false := by
  obtain ⟨cells, behindText⟩ := read_withinString noQuote whole depth (some quote)
  have tilde : ∀ ahead, (code depth afterColon).read '~' ahead =
      (⟨'~', .code, false⟩, code depth false) := by
    intro ahead
    simp [read, parenthesisDepth]
  have closing : (withinString (escapesNext false text) quote depth).read quote next =
      (⟨quote, .string, false⟩,
        if escapesNext false text then .string quote depth else .code depth false) := by
    cases escapesNext false text with
    | true => rfl
    | false => obtain rfl | rfl := isQuote <;> rfl
  constructor
  · rw [cellsBefore, tilde, cellsBefore, read_quote isQuote, cellsBefore_append, List.head?_cons,
      Option.some_or, cells, behindText, cellsBefore, List.head?_nil, Option.none_or, closing]
    simp [opened, inside, cellsBefore]
  · rw [after, tilde, after, read_quote isQuote, after_append, List.head?_cons,
      Option.some_or, behindText, after, List.head?_nil, Option.none_or, closing, after]

end Mode
end Source
end LessTheme
