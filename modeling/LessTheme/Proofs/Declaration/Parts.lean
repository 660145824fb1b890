import LessTheme.Proofs.Declaration.Line

/-!
# The parts of a declaration line

A line that declares a variable begins with white space and an at sign.  The
name follows, white space, a colon, the value with white space around it, a
semicolon, and at most a comment.
-/

namespace LessTheme

/-- A line is divided into the parts of the declaration that it makes. -/
structure IsDividedInto
    (line : Text)
    (declaration : Declaration)
    (lead gap written behind : Text) : Prop where
  line_eq : line = lead ++ '@' :: (declaration.name ++ (gap ++ ':' :: (written ++ ';' :: behind)))
  leadBlank : ∀ char ∈ lead, isWhiteSpace char = true
  named : ∀ char ∈ declaration.name, isNameChar char = true
  gapBlank : ∀ char ∈ gap, isWhiteSpace char = true
  unbroken : ';' ∉ written
  trimmed : written.trim = declaration.value
  ends : isDeclarationEnd behind = true

/-- The white space between the name and the colon of a declaration line. -/
def nameGap (line : Text) : Text :=
  ((line.trimStart.drop 1).dropWhile isNameChar).takeWhile isWhiteSpace

/-- The text behind the first semicolon of a line. -/
def behindSemicolon (line : Text) : Text := (line.dropWhile (· != ';')).drop 1

theorem exists_of_declaredValue?_eq_some
    {text value : Text}
    (declared : declaredValue? text = some value) :
    ∃ gap written behind, text = gap ++ ':' :: (written ++ ';' :: behind) ∧
      (∀ char ∈ gap, isWhiteSpace char = true) ∧ ';' ∉ written ∧ Text.trim written = value ∧
      isDeclarationEnd behind = true := by
  have split : text = text.takeWhile isWhiteSpace ++ text.trimStart :=
    List.takeWhile_append_dropWhile.symm
  have blank : ∀ char ∈ text.takeWhile isWhiteSpace, isWhiteSpace char = true :=
    fun _ => List.mem_takeWhile_imp
  rw [declaredValue?_eq_trimStart] at declared
  cases start : text.trimStart with
  | nil =>
      rw [start] at declared
      contradiction
  | cons mark rest =>
      have dark : isWhiteSpace mark = false :=
        Text.isWhiteSpace_of_head?_trimStart (by rw [start, List.head?_cons])
      rw [start] at declared split
      by_cases isColon : mark = ':'
      case neg =>
        rw [declaredValue?_of_ne_colon dark isColon] at declared
        contradiction
      case pos =>
        subst isColon
        by_cases ends : ';' ∈ rest
        case neg =>
          rw [declaredValue?_colon_of_not_mem ends] at declared
          contradiction
        case pos =>
          obtain ⟨written, behind, rfl, unbroken⟩ := List.eq_append_cons_of_mem ends
          rw [declaredValue?_colon unbroken] at declared
          split_ifs at declared with isEnd
          exact ⟨_, written, behind, split, blank, unbroken, Option.some.inj declared, isEnd⟩

/-- A line that declares a variable has the parts of a declaration. -/
theorem exists_isDividedInto
    {line : Text}
    {declaration : Declaration}
    (declares : declaration? line = some declaration) :
    ∃ lead gap written behind, IsDividedInto line declaration lead gap written behind := by
  have split : line = line.takeWhile isWhiteSpace ++ line.trimStart :=
    List.takeWhile_append_dropWhile.symm
  have blank : ∀ char ∈ line.takeWhile isWhiteSpace, isWhiteSpace char = true :=
    fun _ => List.mem_takeWhile_imp
  rw [declaration?_eq_trimStart] at declares
  cases start : line.trimStart with
  | nil =>
      rw [start] at declares
      contradiction
  | cons mark rest =>
      have dark : isWhiteSpace mark = false :=
        Text.isWhiteSpace_of_head?_trimStart (by rw [start, List.head?_cons])
      rw [start] at declares split
      by_cases isSign : mark = '@'
      case neg =>
        rw [declaration?_of_ne_sign dark isSign] at declares
        contradiction
      case pos =>
        subst isSign
        rw [declaration?_sign] at declares
        split_ifs at declares
        obtain ⟨value, declared, rfl⟩ := Option.map_eq_some_iff.1 declares
        obtain ⟨gap, written, behind, restEq, gapBlank, unbroken, trimmed, ends⟩ :=
          exists_of_declaredValue?_eq_some declared
        refine ⟨_, gap, written, behind, ?_, blank, fun _ => List.mem_takeWhile_imp, gapBlank,
          unbroken, trimmed, ends⟩
        rw [← restEq, List.takeWhile_append_dropWhile]
        exact split

/-- A name ends before white space and a mark that is no part of names. -/
theorem isNameChar_of_head?_append
    {spaces : Text}
    (blank : ∀ char ∈ spaces, isWhiteSpace char = true)
    (mark : Char)
    (noName : isNameChar mark = false)
    (rest : Text)
    (char : Char)
    (isFirst : (spaces ++ mark :: rest).head? = some char) :
    isNameChar char = false := by
  cases spaces with
  | nil =>
      obtain rfl := Option.some.inj isFirst
      exact noName
  | cons space others =>
      obtain rfl := Option.some.inj isFirst
      exact isNameChar_of_isWhiteSpace (blank _ List.mem_cons_self)

namespace IsDividedInto

variable {line : Text} {declaration : Declaration} {lead gap written behind : Text}

theorem nameGap_eq
    (divided : IsDividedInto line declaration lead gap written behind) :
    nameGap line = gap := by
  have trimmed : line.trimStart =
      '@' :: (declaration.name ++ (gap ++ ':' :: (written ++ ';' :: behind))) := by
    rw [divided.line_eq, Text.trimStart, List.dropWhile_append_of_pos divided.leadBlank]
    rfl
  have noName := isNameChar_of_head?_append divided.gapBlank ':' rfl (written ++ ';' :: behind)
  have noSpace : ∀ char, (':' :: (written ++ ';' :: behind)).head? = some char →
      isWhiteSpace char = false := by
    intro char isFirst
    obtain rfl := Option.some.inj isFirst
    rfl
  rw [nameGap, trimmed, List.drop_one, List.tail_cons,
    (Text.takeWhile_append_and_dropWhile_append divided.named noName).2,
    (Text.takeWhile_append_and_dropWhile_append divided.gapBlank noSpace).1]

theorem behindSemicolon_eq
    (divided : IsDividedInto line declaration lead gap written behind) :
    behindSemicolon line = behind := by
  have noSemicolon : ∀ char ∈ lead ++ '@' :: (declaration.name ++ (gap ++ ':' :: written)),
      (char != ';') = true := by
    intro char member
    rw [bne_iff_ne]
    rintro rfl
    simp only [List.mem_append, List.mem_cons] at member
    obtain member | member | member | member | member | member := member
    · exact not_mem_of_forall_isWhiteSpace divided.leadBlank rfl member
    · contradiction
    · exact absurd (divided.named _ member) (by decide)
    · exact not_mem_of_forall_isWhiteSpace divided.gapBlank rfl member
    · contradiction
    · exact divided.unbroken member
  have split : line = (lead ++ '@' :: (declaration.name ++ (gap ++ ':' :: written))) ++
      ';' :: behind := by
    rw [divided.line_eq]
    simp
  rw [behindSemicolon, split, List.dropWhile_append_of_pos noSemicolon]
  rfl

end IsDividedInto

/-- In a line that is written for a variable the colon follows the name. -/
theorem nameGap_declarationLine
    {name : Text}
    (clean : ∀ char ∈ name, isNameChar char = true)
    (value : Text) :
    nameGap (Overrides.declarationLine name value) = [] := by
  have apart : Overrides.declarationLine name value =
      '@' :: (name ++ ':' :: (' ' :: value ++ [';'])) := by
    simp [Overrides.declarationLine]
  have noName : ∀ char, (':' :: (' ' :: value ++ [';'])).head? = some char →
      isNameChar char = false :=
    isNameChar_of_head?_append (List.forall_mem_nil _) ':' rfl (' ' :: value ++ [';'])
  have trimmed : (Overrides.declarationLine name value).trimStart =
      '@' :: (name ++ ':' :: (' ' :: value ++ [';'])) := by
    rw [apart]
    rfl
  rw [nameGap, trimmed, List.drop_one, List.tail_cons,
    (Text.takeWhile_append_and_dropWhile_append clean noName).2]
  rfl

end LessTheme
