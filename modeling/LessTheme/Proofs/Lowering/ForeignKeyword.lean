import LessTheme.Lowering.AtRule
import LessTheme.Proofs.Declaration.Parts
import LessTheme.Proofs.Source.Closed

/-!
# Keywords of foreign at-rules

An at-rule begins with a keyword, and a keyword that a colon follows declares
a variable.  So it is decided by the name behind an at sign and by the first
character behind the name that is no ASCII white space.
-/

namespace LessTheme
namespace Lowering

open Source

/-! ## Keywords and names -/

theorem isNameChar_of_isNameChar_toLower
    {char : Char}
    (named : isNameChar char.toLower = true) :
    isNameChar char = true := by
  unfold Char.toLower at named
  split at named
  case isTrue isUpper =>
    have letter : char.isAlpha = true := by
      unfold Char.isAlpha Char.isUpper
      simpa using Or.inl isUpper
    simp [isNameChar, Char.isAlphanum, letter]
  case isFalse => exact named

/-- Only name characters are equal to those of a keyword. -/
theorem isNameChar_of_equalsIgnoringCase
    {text keyword : Text}
    (named : ∀ char ∈ keyword, isNameChar char.toLower = true)
    (equal : Text.equalsIgnoringCase text keyword = true) :
    ∀ char ∈ text, isNameChar char = true := by
  intro char member
  have lowered : char.toLower ∈ Text.lower keyword := by
    rw [← beq_iff_eq.1 equal]
    exact List.mem_map_of_mem member
  obtain ⟨other, inKeyword, same⟩ := List.mem_map.1 lowered
  exact isNameChar_of_isNameChar_toLower (same ▸ named other inKeyword)

theorem length_eq_of_equalsIgnoringCase
    {left right : Text}
    (equal : Text.equalsIgnoringCase left right = true) :
    left.length = right.length := by
  have lengths := congrArg List.length (beq_iff_eq.1 equal)
  simpa [Text.lower] using lengths

/-- Whether a keyword begins a text depends on the name there and on what follows it. -/
theorem startsWithKeyword_append
    {name rest keyword : Text}
    (named : ∀ char ∈ name, isNameChar char = true)
    (ends : rest.head?.any isNameChar = false)
    (isKeyword : ∀ char ∈ keyword, isNameChar char.toLower = true) :
    startsWithKeyword (name ++ rest) keyword =
      (Text.equalsIgnoringCase name keyword &&
        rest.find? (fun char => !isAsciiWhiteSpace char) != some ':') := by
  obtain longer | same | shorter := Nat.lt_trichotomy keyword.length name.length
  · have different : Text.equalsIgnoringCase name keyword = false :=
      Bool.eq_false_iff.2 fun equal => longer.ne' (length_eq_of_equalsIgnoringCase equal)
    have goesOn : ((name ++ rest).drop keyword.length).head?.any isNameChar = true := by
      rw [List.drop_append_of_le_length longer.le, List.head?_append,
        List.head?_drop, List.getElem?_eq_getElem longer]
      exact named _ (List.getElem_mem longer)
    rw [startsWithKeyword, goesOn, different]
    simp
  · rw [startsWithKeyword, same, List.take_left, List.drop_left, ends]
    simp
  · have different : Text.equalsIgnoringCase name keyword = false :=
      Bool.eq_false_iff.2 fun equal => shorter.ne (length_eq_of_equalsIgnoringCase equal)
    have otherEnd :
        Text.equalsIgnoringCase ((name ++ rest).take keyword.length) keyword = false := by
      rw [Bool.eq_false_iff]
      intro equal
      have lengths := length_eq_of_equalsIgnoringCase equal
      cases rest with
      | nil => simp at lengths; omega
      | cons char others =>
          have member : char ∈ (name ++ char :: others).take keyword.length := by
            rw [List.take_append, List.mem_append]
            right
            obtain ⟨count, isCount⟩ := Nat.exists_eq_add_of_lt shorter
            have positive : keyword.length - name.length = count + 1 := by omega
            rw [positive, List.take_succ_cons]
            exact List.mem_cons_self
          have isName := isNameChar_of_equalsIgnoringCase isKeyword equal char member
          rw [List.head?_cons, Option.any_some, isName] at ends
          contradiction
    rw [startsWithKeyword, otherEnd, different]
    simp

/-! ## Where a foreign at-rule begins -/

/-- What follows a name in front of a colon tells a declaration from an at-rule. -/
theorem any_startsWithKeyword_append
    {name rest : Text}
    (named : ∀ char ∈ name, isNameChar char = true)
    (ends : rest.head?.any isNameChar = false) :
    foreignAtRules.any (startsWithKeyword (name ++ rest)) =
      (name.isOneOf foreignAtRules &&
        rest.find? (fun char => !isAsciiWhiteSpace char) != some ':') := by
  have isKeyword : ∀ keyword ∈ foreignAtRules,
      ∀ char ∈ keyword, isNameChar char.toLower = true := by
    have names : foreignAtRules.all (·.all (isNameChar ·.toLower)) = true := rfl
    exact fun keyword member => List.all_eq_true.1 (List.all_eq_true.1 names keyword member)
  rw [Text.isOneOf, Bool.eq_iff_iff, Bool.and_eq_true, List.any_eq_true, List.any_eq_true]
  constructor
  · rintro ⟨keyword, member, starts⟩
    rw [startsWithKeyword_append named ends (isKeyword keyword member), Bool.and_eq_true] at starts
    exact ⟨⟨keyword, member, starts.1⟩, starts.2⟩
  · rintro ⟨⟨keyword, member, equal⟩, noColon⟩
    refine ⟨keyword, member, ?_⟩
    rw [startsWithKeyword_append named ends (isKeyword keyword member), equal, noColon]
    rfl

/-- The at sign of a declaration begins a foreign at-rule. -/
def hasForeignGap (line : Text) (declaration : Declaration) : Bool :=
  declaration.name.isOneOf foreignAtRules &&
    (nameGap line).any fun char => !isAsciiWhiteSpace char

theorem ne_colon_of_find?_eq_some
    {spaces : Text}
    (blank : ∀ char ∈ spaces, isWhiteSpace char = true)
    {test : Char → Bool}
    {char : Char}
    (found : spaces.find? test = some char) :
    char ≠ ':' :=
  ne_of_isWhiteSpace (blank char (List.mem_of_find?_eq_some found)) rfl

theorem any_isNameChar_head?_append
    {spaces : Text}
    (blank : ∀ char ∈ spaces, isWhiteSpace char = true)
    {mark : Char}
    (noName : isNameChar mark = false)
    (rest : Text) :
    (spaces ++ mark :: rest).head?.any isNameChar = false :=
  (Option.any_eq_false _ _).2 (isNameChar_of_head?_append blank mark noName rest)

/-- A foreign at-rule begins at the at sign of a declaration exactly if its gap is foreign. -/
theorem any_startsWithKeyword_of_isDividedInto
    {line : Text}
    {declaration : Declaration}
    {lead gap written behind : Text}
    (divided : IsDividedInto line declaration lead gap written behind)
    (rest : Text) :
    foreignAtRules.any (startsWithKeyword (declaration.name ++ (gap ++ ':' :: rest))) =
      hasForeignGap line declaration := by
  have ends : (gap ++ ':' :: rest).head?.any isNameChar = false :=
    any_isNameChar_head?_append divided.gapBlank rfl rest
  rw [any_startsWithKeyword_append divided.named ends, hasForeignGap, divided.nameGap_eq,
    List.find?_append]
  congr 1
  cases found : gap.find? fun char => !isAsciiWhiteSpace char with
  | none =>
      have allAscii : (gap.any fun char => !isAsciiWhiteSpace char) = false := by
        simpa using found
      rw [allAscii]
      rfl
  | some char =>
      have noColon := ne_colon_of_find?_eq_some divided.gapBlank found
      have foreign : (gap.any fun char => !isAsciiWhiteSpace char) = true :=
        List.any_eq_true.2
          ⟨char, List.mem_of_find?_eq_some found, by simpa using List.find?_some found⟩
      rw [foreign]
      simpa using noColon

/-- A text is a name and what follows it. -/
theorem exists_eq_name_append (text : Text) :
    ∃ name tail, text = name ++ tail ∧ (∀ char ∈ name, isNameChar char = true) ∧
      tail.head?.any isNameChar = false := by
  refine ⟨text.takeWhile isNameChar, text.dropWhile isNameChar,
    List.takeWhile_append_dropWhile.symm, fun _ => List.mem_takeWhile_imp, ?_⟩
  have stops := List.head?_dropWhile_not isNameChar text
  cases front : (text.dropWhile isNameChar).head? with
  | none => rfl
  | some char => rwa [front] at stops

/-- What follows a mark that is no colon makes no difference, nor does the mark itself. -/
theorem any_startsWithKeyword_append_mark
    {mark : Char}
    (noName : isNameChar mark = false)
    (noSpace : isAsciiWhiteSpace mark = false)
    (noColon : mark ≠ ':')
    (front rest : Text) :
    foreignAtRules.any (startsWithKeyword (front ++ mark :: rest)) =
      foreignAtRules.any (startsWithKeyword front) := by
  obtain ⟨name, tail, rfl, named, ends⟩ := exists_eq_name_append front
  have endsSo : (tail ++ mark :: rest).head?.any isNameChar = false := by
    cases tail with
    | nil => exact noName
    | cons char more => exact ends
  rw [List.append_assoc, any_startsWithKeyword_append named endsSo,
    any_startsWithKeyword_append named ends, List.find?_append]
  cases tail.find? fun char => !isAsciiWhiteSpace char with
  | some char => rfl
  | none =>
      have differs : (some mark != some ':') = true :=
        bne_iff_ne.2 fun equal => noColon (Option.some.inj equal)
      rw [Option.none_or, List.find?_cons_of_pos (by simp [noSpace]), differs]
      rfl

/-- In front of white space and a semicolon it makes no difference what follows. -/
theorem startsForeignAtRule_append
    {cells spaces : List Cell}
    (nonempty : cells ≠ [])
    (blank : ∀ char ∈ chars spaces, isWhiteSpace char = true)
    (rest : List Cell) :
    startsForeignAtRule (cells ++ (spaces ++ .ofCode ';' :: rest)) = startsForeignAtRule cells := by
  obtain ⟨first, others, rfl⟩ := List.exists_cons_of_ne_nil nonempty
  obtain ⟨name, tail, split, named, ends⟩ := exists_eq_name_append (chars others)
  have endsSo : (tail ++ (chars spaces ++ ';' :: chars rest)).head?.any isNameChar = false := by
    cases tail with
    | nil => exact any_isNameChar_head?_append blank rfl _
    | cons char more => exact ends
  have whole : chars (others ++ (spaces ++ .ofCode ';' :: rest)) =
      name ++ (tail ++ (chars spaces ++ ';' :: chars rest)) := by
    rw [chars_append, chars_append, chars_cons, split, List.append_assoc]
    rfl
  rw [List.cons_append, startsForeignAtRule, startsForeignAtRule, whole, split,
    any_startsWithKeyword_append named endsSo, any_startsWithKeyword_append named ends,
    List.find?_append]
  cases tail.find? fun char => !isAsciiWhiteSpace char with
  | some char => rfl
  | none =>
      have noColon : (chars spaces ++ ';' :: chars rest).find?
          (fun char => !isAsciiWhiteSpace char) ≠ some ':' := by
        rw [List.find?_append]
        cases found : (chars spaces).find? fun char => !isAsciiWhiteSpace char with
        | none =>
            rw [Option.none_or, List.find?_cons_of_pos rfl]
            decide
        | some char => simpa using ne_colon_of_find?_eq_some blank found
      rw [Option.none_or, bne_iff_ne.2 noColon]
      rfl

end Lowering
end LessTheme
