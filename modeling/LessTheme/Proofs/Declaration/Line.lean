import LessTheme.Override.Layer
import LessTheme.Declaration
import LessTheme.Proofs.Text.Trim

/-!
# Declaration lines

White space around a line does not change what it declares, and the line that
is written for a variable declares this variable.
-/

namespace LessTheme

theorem isNameChar_of_isNameStart
    {char : Char}
    (starts : isNameStart char = true) :
    isNameChar char = true := by
  simp only [isNameStart, isNameChar, Char.isAlphanum, Bool.or_eq_true] at starts ⊢
  tauto

theorem not_mem_of_forall_isNameChar
    {name : Text}
    (named : ∀ char ∈ name, isNameChar char = true)
    {char : Char}
    (noName : isNameChar char = false) :
    char ∉ name :=
  fun inside => Bool.false_ne_true (noName.symm.trans (named char inside))

theorem ne_of_isWhiteSpace
    {char mark : Char}
    (blank : isWhiteSpace char = true)
    (dark : isWhiteSpace mark = false) :
    char ≠ mark := by
  rintro rfl
  rw [blank] at dark
  contradiction

theorem not_mem_of_forall_isWhiteSpace
    {spaces : Text}
    (blank : ∀ char ∈ spaces, isWhiteSpace char = true)
    {mark : Char}
    (dark : isWhiteSpace mark = false) :
    mark ∉ spaces :=
  fun inside => ne_of_isWhiteSpace (blank mark inside) dark rfl

/-! ## The value behind a name -/

theorem declaredValue?_eq_trimStart
    (text : Text) :
    declaredValue? text = declaredValue? text.trimStart := by
  have same : text.trimStart.trimStart = text.trimStart :=
    Text.trimStart_eq_self fun _ => Text.isWhiteSpace_of_head?_trimStart
  rw [declaredValue?, declaredValue?, same]

/-- The value ends at the first semicolon. -/
theorem declaredValue?_colon
    {written : Text}
    (unbroken : ';' ∉ written)
    (behind : Text) :
    declaredValue? (':' :: (written ++ ';' :: behind)) =
      if isDeclarationEnd behind then some written.trim else none := by
  have inside : ∀ char ∈ written, (char != ';') = true := by
    intro char member
    rw [bne_iff_ne]
    rintro rfl
    exact unbroken member
  rw [declaredValue?, Text.trimStart_eq_self]
  · simp only [List.dropWhile_append_of_pos inside, List.takeWhile_append_of_pos inside]
    simp
  · rintro char equal
    obtain rfl := Option.some.inj equal
    rfl

theorem declaredValue?_colon_of_not_mem
    {rest : Text}
    (endless : ';' ∉ rest) :
    declaredValue? (':' :: rest) = none := by
  have dropped : rest.dropWhile (· != ';') = [] := by
    rw [List.dropWhile_eq_nil_iff]
    intro char member
    rw [bne_iff_ne]
    rintro rfl
    exact endless member
  rw [declaredValue?, Text.trimStart_eq_self]
  · simp only [dropped]
  · rintro char equal
    obtain rfl := Option.some.inj equal
    rfl

theorem declaredValue?_of_ne_colon
    {mark : Char}
    (dark : isWhiteSpace mark = false)
    (other : mark ≠ ':')
    (rest : Text) :
    declaredValue? (mark :: rest) = none := by
  rw [declaredValue?, Text.trimStart_eq_self]
  · split
    case h_1 equal => exact absurd (List.cons.inj equal).1 other
    case h_2 => rfl
  · rintro char equal
    obtain rfl := Option.some.inj equal
    exact dark

/-! ## The declaration behind an at sign -/

theorem declaration?_eq_trimStart
    (line : Text) :
    declaration? line = declaration? line.trimStart := by
  have same : line.trimStart.trimStart = line.trimStart :=
    Text.trimStart_eq_self fun _ => Text.isWhiteSpace_of_head?_trimStart
  rw [declaration?, declaration?, same]

theorem declaration?_sign
    (rest : Text) :
    declaration? ('@' :: rest) =
      if rest.head?.any isNameStart then
        (declaredValue? (rest.dropWhile isNameChar)).map fun value =>
          ⟨rest.takeWhile isNameChar, value⟩
      else none := rfl

/-- A line that declares a variable begins with an at sign. -/
theorem exists_trimStart_eq_sign_cons
    {line : Text}
    (declares : (declaration? line).isSome = true) :
    ∃ rest, line.trimStart = '@' :: rest := by
  rw [declaration?] at declares
  split at declares
  case h_1 rest front => exact ⟨rest, front⟩
  case h_2 => contradiction

theorem declaration?_of_ne_sign
    {mark : Char}
    (dark : isWhiteSpace mark = false)
    (other : mark ≠ '@')
    (rest : Text) :
    declaration? (mark :: rest) = none := by
  rw [declaration?, Text.trimStart_eq_self]
  · split
    case h_1 equal => exact absurd (List.cons.inj equal).1 other
    case h_2 => rfl
  · rintro char equal
    obtain rfl := Option.some.inj equal
    exact dark

/-! ## White space around a line -/

section Behind

variable {spaces : Text}

theorem blockCommentBody?_append_spaces
    (blank : ∀ char ∈ spaces, isWhiteSpace char = true)
    (text : Text) :
    blockCommentBody? (text ++ spaces) = blockCommentBody? text := by
  rw [blockCommentBody?, Text.trimEnd_append_spaces blank, blockCommentBody?]

theorem isLineEndComment_append_spaces
    (blank : ∀ char ∈ spaces, isWhiteSpace char = true)
    (noFeed : '\n' ∉ spaces)
    {text : Text}
    (nonempty : text ≠ []) :
    isLineEndComment (text ++ spaces) = isLineEndComment text := by
  have sameFront : List.isPrefixOf ['/', '/'] (text ++ spaces) =
      List.isPrefixOf ['/', '/'] text := by
    match text, nonempty with
    | [first], _ =>
        cases spaces with
        | nil => rfl
        | cons space others =>
            have dark : space ≠ '/' := ne_of_isWhiteSpace (blank space List.mem_cons_self) rfl
            simp [List.isPrefixOf, dark.symm]
    | first :: second :: rest, _ => simp [List.isPrefixOf]
  have sameFeeds : (text ++ spaces).contains '\n' = text.contains '\n' := by
    simp [List.contains_eq_mem, noFeed]
  rw [isLineEndComment, blockCommentBody?_append_spaces blank, sameFront, sameFeeds,
    isLineEndComment]

theorem isDeclarationEnd_append_spaces
    (blank : ∀ char ∈ spaces, isWhiteSpace char = true)
    (noFeed : '\n' ∉ spaces)
    (text : Text) :
    isDeclarationEnd (text ++ spaces) = isDeclarationEnd text := by
  unfold isDeclarationEnd
  obtain ⟨left, right⟩ | ⟨kept, nonempty⟩ := Text.trimStart_append_spaces blank text
  · rw [left, right]
  · have isEmptyEq : (text.trimStart ++ spaces).isEmpty = text.trimStart.isEmpty := by
      cases front : text.trimStart with
      | nil => contradiction
      | cons => rfl
    simp only [kept, isEmptyEq, isLineEndComment_append_spaces blank noFeed nonempty]

theorem declaredValue?_append_spaces
    (blank : ∀ char ∈ spaces, isWhiteSpace char = true)
    (noFeed : '\n' ∉ spaces)
    (text : Text) :
    declaredValue? (text ++ spaces) = declaredValue? text := by
  have noEnd : ';' ∉ spaces := not_mem_of_forall_isWhiteSpace blank rfl
  obtain ⟨left, right⟩ | ⟨kept, nonempty⟩ := Text.trimStart_append_spaces blank text
  · rw [declaredValue?, left, declaredValue?, right]
  · rw [declaredValue?_eq_trimStart, kept, declaredValue?_eq_trimStart text]
    cases front : text.trimStart with
    | nil => contradiction
    | cons mark rest =>
        by_cases colon : mark = ':'
        · subst colon
          by_cases ends : ';' ∈ rest
          · obtain ⟨written, behind, rfl, unbroken⟩ := List.eq_append_cons_of_mem ends
            rw [List.cons_append, List.append_assoc, List.cons_append,
              declaredValue?_colon unbroken, declaredValue?_colon unbroken,
              isDeclarationEnd_append_spaces blank noFeed]
          · rw [List.cons_append, declaredValue?_colon_of_not_mem ends,
              declaredValue?_colon_of_not_mem]
            simp [ends, noEnd]
        · have first : text.trimStart.head? = some mark := by
            rw [front]
            rfl
          have dark := Text.isWhiteSpace_of_head?_trimStart first
          rw [List.cons_append, declaredValue?_of_ne_colon dark colon,
            declaredValue?_of_ne_colon dark colon]

theorem dropWhile_isNameChar_append_spaces
    (blank : ∀ char ∈ spaces, isWhiteSpace char = true)
    (text : Text) :
    (text ++ spaces).dropWhile isNameChar = text.dropWhile isNameChar ++ spaces := by
  have kept : spaces.dropWhile isNameChar = spaces := by
    cases spaces with
    | nil => rfl
    | cons space others =>
        apply List.dropWhile_cons_of_neg
        simp [isNameChar_of_isWhiteSpace (blank space List.mem_cons_self)]
  rw [List.dropWhile_append]
  split
  case isTrue empty => rw [kept, List.isEmpty_iff.1 empty, List.nil_append]
  case isFalse => rfl

theorem takeWhile_isNameChar_append_spaces
    (blank : ∀ char ∈ spaces, isWhiteSpace char = true)
    (text : Text) :
    (text ++ spaces).takeWhile isNameChar = text.takeWhile isNameChar := by
  refine List.append_cancel_right (?_ : _ ++ (text.dropWhile isNameChar ++ spaces) = _)
  rw [← dropWhile_isNameChar_append_spaces blank, List.takeWhile_append_dropWhile,
    dropWhile_isNameChar_append_spaces blank, ← List.append_assoc,
    List.takeWhile_append_dropWhile]

theorem declaration?_sign_append_spaces
    (blank : ∀ char ∈ spaces, isWhiteSpace char = true)
    (noFeed : '\n' ∉ spaces)
    (rest : Text) :
    declaration? ('@' :: (rest ++ spaces)) = declaration? ('@' :: rest) := by
  have sameStart : (rest ++ spaces).head?.any isNameStart = rest.head?.any isNameStart := by
    cases rest with
    | nil =>
        cases spaces with
        | nil => rfl
        | cons space others =>
            cases starts : isNameStart space with
            | false => exact starts
            | true =>
                have named := isNameChar_of_isNameStart starts
                rw [isNameChar_of_isWhiteSpace (blank space List.mem_cons_self)] at named
                contradiction
    | cons char others => rfl
  rw [declaration?_sign, declaration?_sign, sameStart,
    dropWhile_isNameChar_append_spaces blank, takeWhile_isNameChar_append_spaces blank,
    declaredValue?_append_spaces blank noFeed]

theorem declaration?_append_spaces
    (blank : ∀ char ∈ spaces, isWhiteSpace char = true)
    (noFeed : '\n' ∉ spaces)
    (line : Text) :
    declaration? (line ++ spaces) = declaration? line := by
  rw [declaration?_eq_trimStart (line ++ spaces), declaration?_eq_trimStart line]
  obtain ⟨left, right⟩ | ⟨kept, nonempty⟩ := Text.trimStart_append_spaces blank line
  · rw [left, right]
  · rw [kept]
    cases front : line.trimStart with
    | nil => contradiction
    | cons mark rest =>
        have first : line.trimStart.head? = some mark := by
          rw [front]
          rfl
        have dark := Text.isWhiteSpace_of_head?_trimStart first
        by_cases sign : mark = '@'
        · rw [sign, List.cons_append, declaration?_sign_append_spaces blank noFeed]
        · rw [List.cons_append, declaration?_of_ne_sign dark sign,
            declaration?_of_ne_sign dark sign]

end Behind

/-- A line and the line without the white space around it declare the same. -/
theorem declaration?_trim
    {line : Text}
    (noFeed : '\n' ∉ line) :
    declaration? line.trim = declaration? line := by
  obtain ⟨spaces, split, blank⟩ := Text.exists_trimStart_eq_trim_append line
  have noFeedBehind : '\n' ∉ spaces := by
    intro member
    have inside : '\n' ∈ line.trimStart := by
      rw [split]
      exact List.mem_append_right _ member
    exact noFeed (List.dropWhile_subset _ inside)
  rw [declaration?_eq_trimStart line, split, declaration?_append_spaces blank noFeedBehind]

/-! ## Written lines -/

/-- The line that is written for a variable is read back. -/
theorem declaration?_declarationLine
    {name value : Text}
    (clean : ∀ char ∈ name, isNameChar char = true)
    (trimmed : value.trim = value)
    (unbroken : ';' ∉ value) :
    declaration? (Overrides.declarationLine name value) =
      if name.head?.any isNameStart then some ⟨name, value⟩ else none := by
  have apart : Overrides.declarationLine name value =
      '@' :: (name ++ ':' :: (' ' :: value ++ [';'])) := by
    simp [Overrides.declarationLine]
  have sameStart : (name ++ ':' :: (' ' :: value ++ [';'])).head?.any isNameStart =
      name.head?.any isNameStart := by
    cases name <;> rfl
  have unbroken' : ';' ∉ ' ' :: value := by
    simpa using unbroken
  rw [apart, declaration?_sign, sameStart, List.dropWhile_append_of_pos clean,
    List.takeWhile_append_of_pos clean]
  split
  · change (declaredValue? (':' :: (' ' :: value ++ ';' :: []))).map _ = _
    rw [declaredValue?_colon unbroken', Text.trim_cons_of_isWhiteSpace rfl, trimmed]
    simp [isDeclarationEnd, Text.trimStart, List.takeWhile, isNameChar]
  · rfl

end LessTheme
