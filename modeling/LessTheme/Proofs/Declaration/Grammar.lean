import LessTheme.Proofs.Declaration.Parts

/-!
# The grammar of declaration lines

The lines that declare a variable are described without reading them, as a text
with parts in a fixed order.  A line is read as a declaration exactly if it has
such parts, so no two ways to divide it declare different variables or values.
-/

namespace LessTheme

/--
A comment that may stand behind a declaration.  It ends with its line, which a
text of one line always satisfies; a block comment may have white space behind it.
-/
inductive IsLastComment : Text → Prop
  | line (body : Text)
      (oneLine : '\n' ∉ body) :
      IsLastComment ('/' :: '/' :: body)
  | block (body spaces : Text)
      (oneLine : '\n' ∉ body)
      (blank : ∀ char ∈ spaces, isWhiteSpace char = true) :
      IsLastComment ('/' :: '*' :: (body ++ '*' :: '/' :: spaces))

/--
A line that declares a variable: white space, an at sign, the name, white space,
a colon, white space, the value, white space, a semicolon, white space, and at
most a comment.
-/
inductive Declares : Text → Declaration → Prop
  | intro (lead name gap before value after space comment : Text)
      (leadBlank : ∀ char ∈ lead, isWhiteSpace char = true)
      (starts : name.head?.any isNameStart = true)
      (named : ∀ char ∈ name, isNameChar char = true)
      (gapBlank : ∀ char ∈ gap, isWhiteSpace char = true)
      (beforeBlank : ∀ char ∈ before, isWhiteSpace char = true)
      (unbroken : ';' ∉ value)
      (startsDark : ∀ char, value.head? = some char → isWhiteSpace char = false)
      (endsDark : ∀ char, value.getLast? = some char → isWhiteSpace char = false)
      (afterBlank : ∀ char ∈ after, isWhiteSpace char = true)
      (spaceBlank : ∀ char ∈ space, isWhiteSpace char = true)
      (ends : comment = [] ∨ IsLastComment comment) :
      Declares
        (lead ++ '@' :: (name ++ (gap ++ ':' ::
          (before ++ (value ++ after) ++ ';' :: (space ++ comment)))))
        ⟨name, value⟩

/-! ## What stands behind the semicolon -/

/-- A block comment is its body between the marks, with white space behind it. -/
theorem blockCommentBody?_eq_some_iff {text body : Text} :
    blockCommentBody? text = some body ↔
      ∃ spaces, text = '/' :: '*' :: (body ++ '*' :: '/' :: spaces) ∧
        ∀ char ∈ spaces, isWhiteSpace char = true := by
  have bodyOf : ∀ inner : Text,
      (inner ++ ['*', '/']).take ((inner ++ ['*', '/']).length - 2) = inner := by
    intro inner
    rw [List.length_append]
    exact List.take_left
  constructor
  · intro isBody
    obtain ⟨spaces, split, blank⟩ := Text.exists_eq_trimEnd_append text
    rw [blockCommentBody?] at isBody
    split at isBody
    case h_1 rest isTrimmed =>
      split_ifs at isBody with closes
      obtain ⟨inner, rfl⟩ := List.isSuffixOf_iff_suffix.1 closes
      rw [bodyOf] at isBody
      obtain rfl := Option.some.inj isBody
      refine ⟨spaces, ?_, blank⟩
      rw [isTrimmed] at split
      simpa using split
    case h_2 => contradiction
  · rintro ⟨spaces, rfl, blank⟩
    have apart : '/' :: '*' :: (body ++ '*' :: '/' :: spaces) =
        '/' :: '*' :: (body ++ ['*', '/']) ++ spaces := by
      simp
    have isTrimmed : Text.trimEnd ('/' :: '*' :: (body ++ ['*', '/'])) =
        '/' :: '*' :: (body ++ ['*', '/']) := by
      refine Text.dropEndWhile_eq_self fun char isLast => ?_
      rw [show '/' :: '*' :: (body ++ ['*', '/']) = '/' :: '*' :: (body ++ ['*']) ++ ['/'] by simp,
        List.getLast?_concat] at isLast
      obtain rfl := Option.some.inj isLast
      rfl
    rw [apart, blockCommentBody?_append_spaces blank, blockCommentBody?, isTrimmed]
    change (if List.isSuffixOf ['*', '/'] (body ++ ['*', '/']) = true then _ else _) = _
    rw [if_pos (List.isSuffixOf_iff_suffix.2 (List.suffix_append body _)), bodyOf]

theorem isLineEndComment_iff {text : Text} :
    isLineEndComment text = true ↔ IsLastComment text := by
  have noFeed : ∀ body : Text, (!body.contains '\n') = true ↔ '\n' ∉ body := by simp
  rw [isLineEndComment, Bool.or_eq_true, Bool.and_eq_true, Option.any_eq_true]
  constructor
  · rintro (⟨slashes, oneLine⟩ | ⟨body, isBody, oneLine⟩)
    · obtain ⟨body, rfl⟩ := List.isPrefixOf_iff_prefix.1 slashes
      exact .line body fun member =>
        (noFeed _).1 oneLine (List.mem_append_right ['/', '/'] member)
    · obtain ⟨spaces, rfl, blank⟩ := blockCommentBody?_eq_some_iff.1 isBody
      exact .block body spaces ((noFeed body).1 oneLine) blank
  · rintro (⟨body, oneLine⟩ | ⟨body, spaces, oneLine, blank⟩)
    · exact Or.inl ⟨rfl, by simpa using oneLine⟩
    · exact Or.inr ⟨body, blockCommentBody?_eq_some_iff.2 ⟨spaces, rfl, blank⟩,
        (noFeed body).2 oneLine⟩

theorem IsLastComment.head?_eq_slash
    {comment : Text}
    (isComment : IsLastComment comment) :
    comment.head? = some '/' := by
  cases isComment <;> rfl

/-- Nothing but white space and a comment may stand behind a declaration. -/
theorem isDeclarationEnd_iff {text : Text} :
    isDeclarationEnd text = true ↔
      ∃ space comment, text = space ++ comment ∧
        (∀ char ∈ space, isWhiteSpace char = true) ∧ (comment = [] ∨ IsLastComment comment) := by
  rw [isDeclarationEnd, Bool.or_eq_true, List.isEmpty_iff, isLineEndComment_iff]
  constructor
  · intro ends
    exact ⟨_, _, List.takeWhile_append_dropWhile.symm, fun _ => List.mem_takeWhile_imp, ends⟩
  · rintro ⟨space, comment, rfl, blank, ends⟩
    have isComment : Text.trimStart (space ++ comment) = comment := by
      refine (Text.takeWhile_append_and_dropWhile_append blank fun char isFirst => ?_).2
      obtain rfl | isComment := ends
      · contradiction
      · rw [isComment.head?_eq_slash] at isFirst
        obtain rfl := Option.some.inj isFirst
        rfl
    rwa [isComment]

/-! ## The whole line -/

variable {line : Text} {declaration : Declaration}

/-- The name ends at the first character that is not part of names. -/
theorem declaration?_lead_sign_name
    {lead name rest : Text}
    (leadBlank : ∀ char ∈ lead, isWhiteSpace char = true)
    (named : ∀ char ∈ name, isNameChar char = true)
    (stops : ∀ char, rest.head? = some char → isNameChar char = false) :
    declaration? (lead ++ '@' :: (name ++ rest)) =
      if name.head?.any isNameStart then
        (declaredValue? rest).map fun value => ⟨name, value⟩
      else none := by
  have isTrimmed : Text.trimStart (lead ++ '@' :: (name ++ rest)) = '@' :: (name ++ rest) := by
    rw [Text.trimStart, List.dropWhile_append_of_pos leadBlank]
    rfl
  have sameStart : (name ++ rest).head?.any isNameStart = name.head?.any isNameStart := by
    cases name with
    | cons first others => rfl
    | nil =>
        cases isFirst : rest.head? with
        | none => rw [List.nil_append, isFirst]; rfl
        | some first =>
            have noStart := mt isNameChar_of_isNameStart (Bool.eq_false_iff.1 (stops first isFirst))
            rw [List.nil_append, isFirst]
            exact Bool.eq_false_iff.2 noStart
  obtain ⟨isName, isRest⟩ := Text.takeWhile_append_and_dropWhile_append named stops
  rw [declaration?_eq_trimStart, isTrimmed, declaration?_sign, sameStart, isName, isRest]

theorem declaredValue?_gap
    {gap : Text}
    (gapBlank : ∀ char ∈ gap, isWhiteSpace char = true)
    (rest : Text) :
    declaredValue? (gap ++ ':' :: rest) = declaredValue? (':' :: rest) := by
  rw [declaredValue?_eq_trimStart, Text.trimStart, List.dropWhile_append_of_pos gapBlank]
  rfl

theorem Declares.declaration?_eq_some
    (declares : Declares line declaration) :
    declaration? line = some declaration := by
  obtain ⟨lead, name, gap, before, value, after, space, comment, leadBlank, starts, named,
    gapBlank, beforeBlank, unbroken, startsDark, endsDark, afterBlank, spaceBlank, ends⟩ := declares
  have noEndBefore : ';' ∉ before := not_mem_of_forall_isWhiteSpace beforeBlank rfl
  have noEndAfter : ';' ∉ after := not_mem_of_forall_isWhiteSpace afterBlank rfl
  have writtenUnbroken : ';' ∉ before ++ (value ++ after) := by
    simp [noEndBefore, unbroken, noEndAfter]
  have isEnd : isDeclarationEnd (space ++ comment) = true :=
    isDeclarationEnd_iff.2 ⟨space, comment, rfl, spaceBlank, ends⟩
  rw [declaration?_lead_sign_name leadBlank named (isNameChar_of_head?_append gapBlank ':' rfl _),
    if_pos starts, declaredValue?_gap gapBlank, declaredValue?_colon writtenUnbroken,
    if_pos isEnd, Text.trim_append_append beforeBlank startsDark endsDark afterBlank]
  rfl

theorem declares_of_declaration?_eq_some
    (declared : declaration? line = some declaration) :
    Declares line declaration := by
  obtain ⟨lead, gap, written, behind, divided⟩ := exists_isDividedInto declared
  have stops := isNameChar_of_head?_append divided.gapBlank ':' rfl (written ++ ';' :: behind)
  rw [divided.line_eq, declaration?_lead_sign_name divided.leadBlank divided.named stops]
    at declared
  split_ifs at declared with starts
  obtain ⟨before, after, split, beforeBlank, afterBlank⟩ :=
    Text.exists_eq_append_trim_append written
  obtain ⟨space, comment, rfl, spaceBlank, ends⟩ := isDeclarationEnd_iff.1 divided.ends
  have unbroken : ';' ∉ written.trim := by
    have inWritten := divided.unbroken
    rw [split] at inWritten
    exact fun member => inWritten (List.mem_append_right _ (List.mem_append_left _ member))
  have declares := Declares.intro lead declaration.name gap before written.trim after space
    comment divided.leadBlank starts divided.named divided.gapBlank beforeBlank unbroken
    (fun _ => Text.isWhiteSpace_of_head?_trim) (fun _ => Text.isWhiteSpace_of_getLast?_trim)
    afterBlank spaceBlank ends
  rwa [← split, divided.trimmed, ← divided.line_eq] at declares

/-- The line that is written for a declared variable declares the same. -/
theorem Declares.declarationLine
    (declares : Declares line declaration) :
    Declares (Overrides.declarationLine declaration.name declaration.value)
      declaration := by
  cases declares with
  | intro lead name gap before value after space comment leadBlank starts named gapBlank beforeBlank
      unbroken startsDark endsDark =>
    have noSpace := List.forall_mem_nil fun char => isWhiteSpace char = true
    have oneSpace : ∀ char ∈ [' '], isWhiteSpace char = true := List.forall_mem_singleton.2 rfl
    have declares := Declares.intro [] name [] [' '] value [] [] [] noSpace starts named
      noSpace oneSpace unbroken startsDark endsDark noSpace noSpace (Or.inl rfl)
    have sameLine : Overrides.declarationLine name value =
        [] ++ '@' :: (name ++ ([] ++ ':' :: ([' '] ++ (value ++ []) ++ ';' :: ([] ++ [])))) := by
      simp [Overrides.declarationLine]
    rwa [← sameLine] at declares

/--
Exactly the lines of the grammar declare a variable.  A line declares one
variable with one value, and the line that is written for them declares them
again.
-/
theorem declaration?_eq_some_iff_declares (line : Text) (declaration : Declaration) :
    (declaration? line = some declaration ↔ Declares line declaration) ∧
      (Declares line declaration →
        (∀ other, Declares line other → other = declaration) ∧
          declaration? (Overrides.declarationLine declaration.name declaration.value) =
            some declaration) := by
  refine ⟨⟨declares_of_declaration?_eq_some, fun declares => declares.declaration?_eq_some⟩,
    fun declares => ⟨fun other isOther => ?_, declares.declarationLine.declaration?_eq_some⟩⟩
  exact Option.some.inj (isOther.declaration?_eq_some.symm.trans declares.declaration?_eq_some)

/-- Spaces of several kinds, a value with a colon and slashes, and two ends of a comment. -/
theorem declaration?_eq_some_iff_declares_sample :
    let line := "\u00A0@_a-1\t:\u2003url(//x:y) 'q\u3000;\u2028/* c */ d */ ".toList
    let declaration : Declaration := ⟨"_a-1".toList, "url(//x:y) 'q".toList⟩
    Declares line declaration ∧ declaration? line = some declaration ∧
      (∀ other, Declares line other → other = declaration) ∧
        declaration? "@_a-1: url(//x:y) 'q;".toList = some declaration := by
  intro line declaration
  obtain ⟨same, unique⟩ := declaration?_eq_some_iff_declares line declaration
  have startsDark : ∀ char, declaration.value.head? = some char → isWhiteSpace char = false := by
    intro char isFirst
    obtain rfl := Option.some.inj isFirst
    rfl
  have endsDark : ∀ char, declaration.value.getLast? = some char → isWhiteSpace char = false := by
    intro char isLast
    obtain rfl := Option.some.inj isLast
    rfl
  have comment : IsLastComment "/* c */ d */ ".toList :=
    .block " c */ d ".toList [' '] (by decide) (List.all_eq_true.1 rfl)
  have divided : line = ['\u00A0'] ++ '@' :: ("_a-1".toList ++ (['\t'] ++ ':' :: (['\u2003'] ++
      ("url(//x:y) 'q".toList ++ ['\u3000']) ++ ';' ::
        (['\u2028'] ++ "/* c */ d */ ".toList)))) := by
    decide +kernel
  have declares : Declares line declaration := by
    rw [divided]
    exact .intro ['\u00A0'] "_a-1".toList ['\t'] ['\u2003'] "url(//x:y) 'q".toList ['\u3000']
      ['\u2028'] "/* c */ d */ ".toList (List.all_eq_true.1 rfl) (by decide)
      (List.all_eq_true.1 rfl) (List.all_eq_true.1 rfl) (List.all_eq_true.1 rfl) (by decide)
      startsDark endsDark (List.all_eq_true.1 rfl) (List.all_eq_true.1 rfl) (Or.inr comment)
  exact ⟨declares, same.2 declares, unique declares⟩

/-- Nothing may stand behind a comment or instead of one. -/
example : declaration? "@a: 1; /* b */ c".toList = none := by decide

end LessTheme
