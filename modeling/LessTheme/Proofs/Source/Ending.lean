import LessTheme.Proofs.Source.Literal
import Mathlib.Data.List.TakeWhile

/-!
# Where strings and comments end

A string ends behind the first quote of its kind that no backslash escapes, or
before the first such line feed.  A block comment ends behind its first `*/`, a
line comment before a line feed.  Each of them ends with the text at the
latest, and code goes on behind it.
-/

namespace LessTheme
namespace Source

/-! ## Line comments -/

/-- How a line comment ends, given its words and the text behind it. -/
structure EndsLine (words behind : Text) : Prop where
  /-- No line ends in the comment. -/
  oneLine : ∀ char ∈ words, char ≠ '\n'
  /-- A line feed follows, or nothing. -/
  ends : ∀ char, behind.head? = some char → char = '\n'

/-- A text goes on to the end of its line. -/
theorem exists_endsLine (text : Text) :
    ∃ words behind, text = words ++ behind ∧ EndsLine words behind := by
  refine ⟨text.takeWhile (· != '\n'), text.dropWhile (· != '\n'),
    List.takeWhile_append_dropWhile.symm, fun char member => ?_, fun char isFirst => ?_⟩
  · simpa using List.mem_takeWhile_imp member
  · have stops := List.head?_dropWhile_not (· != '\n') text
    rw [isFirst] at stops
    simpa using stops

/-- A line comment goes on to the end of its line. -/
theorem EndsLine.cells_lineComment
    {words behind : Text}
    (endsLine : EndsLine words behind) :
    Mode.lineComment.cells (words ++ behind) =
      inside .lineComment words ++ (Mode.code 0 false).cells behind := by
  obtain ⟨oneLine, ends⟩ := endsLine
  induction words with
  | nil =>
      cases behind with
      | nil => rfl
      | cons char others =>
          obtain rfl := ends char rfl
          rfl
  | cons char others inductionHypothesis =>
      obtain ⟨here, further⟩ := List.forall_mem_cons.1 oneLine
      rw [List.cons_append, Mode.cells, Mode.read, if_neg here, inductionHypothesis further]
      rfl

/-! ## Block comments -/

/-- How a block comment ends, given what follows its opening and the text behind it. -/
inductive EndsComment : Text → Text → Prop
  /-- It ends with its first `*/`. -/
  | closed {words : Text}
      (first : ¬['*', '/'] <:+: words ++ ['*'])
      (behind : Text) :
      EndsComment (words ++ ['*', '/']) behind
  /-- It is never closed and ends with the text. -/
  | unclosed {words : Text}
      (never : ¬['*', '/'] <:+: words) :
      EndsComment words []

theorem not_infix_cons
    {char : Char}
    {words : Text}
    (noEnd : char = '*' → words.head? ≠ some '/')
    (never : ¬['*', '/'] <:+: words) :
    ¬['*', '/'] <:+: char :: words := by
  rw [List.infix_cons_iff, List.cons_prefix_cons, not_or]
  refine ⟨?_, never⟩
  rintro ⟨isStar, slash, rfl⟩
  exact noEnd isStar.symm rfl

theorem EndsComment.cons
    {char : Char}
    {words behind : Text}
    (noEnd : char = '*' → words.head? ≠ some '/')
    (endsComment : EndsComment words behind) :
    EndsComment (char :: words) behind := by
  cases endsComment with
  | @closed words first behind =>
      have noEarlierEnd : char = '*' → (words ++ ['*']).head? ≠ some '/' := by
        intro isStar isSlash
        cases words with
        | nil => contradiction
        | cons next others => exact noEnd isStar isSlash
      have firstEnd : ¬['*', '/'] <:+: (char :: words) ++ ['*'] :=
        not_infix_cons noEarlierEnd first
      exact .closed firstEnd behind
  | unclosed never => exact .unclosed (not_infix_cons noEnd never)

/-- A block comment is read to its end, where a star may stand right before. -/
theorem Mode.exists_cells_comment
    (depth : Nat)
    (afterStar : Bool)
    (text : Text) :
    ∃ words behind, text = words ++ behind ∧
      (Mode.comment depth afterStar).cells text =
        inside .blockComment words ++ (Mode.code depth false).cells behind ∧
      EndsComment ((if afterStar then ['*'] else []) ++ words) behind := by
  induction text generalizing afterStar with
  | nil =>
      refine ⟨[], [], rfl, rfl, .unclosed ?_⟩
      cases afterStar <;> decide
  | cons char rest inductionHypothesis =>
      by_cases closes : char = '/' ∧ afterStar = true
      · obtain ⟨rfl, rfl⟩ := closes
        have first : ¬['*', '/'] <:+: ([] : Text) ++ ['*'] := by decide
        exact ⟨['/'], rest, rfl, rfl, .closed first rest⟩
      · obtain ⟨words, behind, rfl, cells, ends⟩ := inductionHypothesis (char == '*')
        refine ⟨char :: words, behind, rfl, ?_, ?_⟩
        · rw [Mode.cells, Mode.read, if_neg closes, cells]
          rfl
        · -- The star that the mode remembers is the character itself.
          have fromHere : EndsComment (char :: words) behind := by
            by_cases isStar : char = '*'
            · simpa [isStar] using ends
            · exact EndsComment.cons (fun isStar' => absurd isStar' isStar)
                (by simpa [isStar] using ends)
          cases afterStar with
          | false => exact fromHere
          | true =>
              refine EndsComment.cons (fun _ isSlash => closes ⟨?_, rfl⟩) fromHere
              exact Option.some.inj isSlash

/-! ## Strings -/

section Strings

variable {quote : Char} {isEscaped : Text → Bool}

/--
No quote of the given kind and no line feed stands in a text without being
escaped, where the text in front of a character tells whether it is.
-/
def StaysInString (quote : Char) (isEscaped : Text → Bool) (text : Text) : Prop :=
  ∀ front char back, text = front ++ char :: back → isEscaped front = false →
    char ≠ quote ∧ char ≠ '\n'

theorem staysInString_nil : StaysInString quote isEscaped [] := by
  intro front char back split
  simp at split

theorem StaysInString.cons
    {char : Char}
    {text : Text}
    (here : isEscaped [] = false → char ≠ quote ∧ char ≠ '\n')
    (further : StaysInString quote (fun front => isEscaped (char :: front)) text) :
    StaysInString quote isEscaped (char :: text) := by
  intro front other back split unescaped
  cases front with
  | nil =>
      obtain ⟨rfl, -⟩ := List.cons.inj split
      exact here unescaped
  | cons first rest =>
      obtain ⟨rfl, restSplit⟩ := List.cons.inj split
      exact further rest other back restSplit unescaped

/-- How a string ends, given what follows its opening quote and the text behind it. -/
inductive EndsString (quote : Char) (isEscaped : Text → Bool) : Text → Text → Prop
  /-- It ends with its quote. -/
  | closed {content : Text}
      (stays : StaysInString quote isEscaped content)
      (unescaped : isEscaped content = false)
      (behind : Text) :
      EndsString quote isEscaped (content ++ [quote]) behind
  /-- It ends before the end of its line. -/
  | line {content : Text}
      (stays : StaysInString quote isEscaped content)
      (unescaped : isEscaped content = false)
      (behind : Text) :
      EndsString quote isEscaped content ('\n' :: behind)
  /-- It ends with the text. -/
  | unclosed {content : Text}
      (stays : StaysInString quote isEscaped content) :
      EndsString quote isEscaped content []

theorem EndsString.cons
    {char : Char}
    {words behind : Text}
    (here : isEscaped [] = false → char ≠ quote ∧ char ≠ '\n')
    (endsString : EndsString quote (fun front => isEscaped (char :: front)) words behind) :
    EndsString quote isEscaped (char :: words) behind := by
  cases endsString with
  | @closed content stays unescaped behind =>
      have unescapedEnd : isEscaped (char :: content) = false := unescaped
      exact EndsString.closed (stays.cons here) unescapedEnd behind
  | line stays unescaped behind => exact .line (stays.cons here) unescaped behind
  | unclosed stays => exact .unclosed (stays.cons here)

/-- The text of a string is read to its end, where a backslash may stand right before. -/
theorem Mode.exists_cells_withinString
    (isQuote : quote = '"' ∨ quote = '\'')
    (depth : Nat)
    (escaped : Bool)
    (text : Text) :
    ∃ words behind, text = words ++ behind ∧
      (withinString escaped quote depth).cells text =
        inside .string words ++ (code depth false).cells behind ∧
      EndsString quote (escapesNext escaped) words behind := by
  induction text generalizing escaped with
  | nil => exact ⟨[], [], rfl, rfl, .unclosed staysInString_nil⟩
  | cons char rest inductionHypothesis =>
      -- A character that stays in the string stands in front of the words behind it.
      have goesOn : (escaped = false → char ≠ quote ∧ char ≠ '\n') →
          (withinString escaped quote depth).read char rest.head? =
            (⟨char, .string, false⟩, withinString (!escaped && char == '\\') quote depth) →
          ∃ words behind, char :: rest = words ++ behind ∧
            (withinString escaped quote depth).cells (char :: rest) =
              inside .string words ++ (code depth false).cells behind ∧
            EndsString quote (escapesNext escaped) words behind := by
        intro here reads
        obtain ⟨words, behind, rfl, cells, ends⟩ := inductionHypothesis (!escaped && char == '\\')
        have sameEnd : escapesNext (!escaped && char == '\\') =
            fun front => escapesNext escaped (char :: front) := by
          cases escaped <;> rfl
        rw [sameEnd] at ends
        refine ⟨char :: words, behind, rfl, ?_, ends.cons here⟩
        rw [Mode.cells, reads, cells]
        rfl
      cases escaped with
      | true => exact goesOn (by rintro ⟨⟩) rfl
      | false =>
          by_cases closes : char = quote
          · subst closes
            refine ⟨[char], rest, rfl, ?_, .closed staysInString_nil rfl rest⟩
            have reads : (withinString false char depth).read char rest.head? =
                (⟨char, .string, false⟩, code depth false) := by
              obtain rfl | rfl := isQuote <;> rfl
            rw [Mode.cells, reads]
            rfl
          · by_cases isLineFeed : char = '\n'
            · subst isLineFeed
              exact ⟨[], '\n' :: rest, rfl, rfl, .line staysInString_nil rfl rest⟩
            · refine goesOn (fun _ => ⟨closes, isLineFeed⟩) ?_
              by_cases isBackslash : char = '\\'
              · simp [withinString, read, isBackslash]
              · simp [withinString, read, isBackslash, closes, isLineFeed]

end Strings

end Source
end LessTheme
