import LessTheme.Proofs.Lowering.ColorAlpha

/-!
# Expanding the colours of a term

A value that is written with words and calls is the text of a tree.  On this
tree one pass from the leaves to the root writes every colour with an alpha
value in channel form.  The expansion of the text takes the last such colour
first and reads the text again after each step; it ends with the text of the
tree that the pass gives.

A step on the text is a step on the tree: it rewrites the last colour of the
tree, whose arguments hold no further one.  The pass gives the same for the
trees before and after the step, since it rewrites the arguments before the
colour and leaves the channel form as it is.
-/

namespace LessTheme
namespace Lowering

open Source

/-! ## Terms -/

/-- A character that neither separates nor encloses anything. -/
def isWordChar (char : Char) : Bool :=
  !isWhiteSpace char && char != ',' && !specialChars.contains char

/--
A word of a value: an identifier, a reference, a hexadecimal colour, a number
or a dimension, or any other text of word characters.
-/
structure Word where
  /-- The word as it is written. -/
  text : Text
  nonempty : text ≠ [] := by decide
  isWordChar_of_mem : ∀ char ∈ text, isWordChar char = true := by
    exact List.all_eq_true.1 rfl

/-- The name of a function. -/
structure FunctionName where
  /-- The name as it is written. -/
  text : Text
  nonempty : text ≠ [] := by decide
  isNameChar_of_mem : ∀ char ∈ text, isNameChar char = true := by
    exact List.all_eq_true.1 rfl

mutual

/-- A word, or a call with at least one argument. -/
inductive Term
  | word (word : Word)
  | call (name : FunctionName) (arguments : Terms)

/-- Arguments of a call. -/
inductive Terms
  | one (term : Term)
  | cons (term : Term) (rest : Terms)

end

mutual

/-- A term as it is written. -/
def Term.text : Term → Text
  | .word leaf => leaf.text
  | .call name arguments => callText name.text arguments.text

/-- Arguments as they are written. -/
def Terms.text : Terms → Text
  | .one term => term.text
  | .cons term rest => term.text ++ (", " ++ rest.text)

end

/-! ## One pass over a term -/

/-- The functions for the three channels of a colour, if a name is that of a colour function. -/
def FunctionName.channels? (name : FunctionName) :
    Option (FunctionName × FunctionName × FunctionName) :=
  if name.text.equalsIgnoringCase "rgba" then
    some ({ text := "red" }, { text := "green" }, { text := "blue" })
  else if name.text.equalsIgnoringCase "hsla" then
    some ({ text := "hue" }, { text := "saturation" }, { text := "lightness" })
  else none

/-- The channels of a colour and its alpha value. -/
def Terms.channels
    (functions : FunctionName × FunctionName × FunctionName)
    (color alpha : Term) : Terms :=
  .cons (.call functions.1 (.one color)) (.cons (.call functions.2.1 (.one color))
    (.cons (.call functions.2.2 (.one color)) (.one alpha)))

/-- The channel form of a call to a colour function with two arguments. -/
def Term.channelForm? (name : FunctionName) : Terms → Option Term
  | .cons color (.one alpha) =>
      name.channels?.map fun functions => .call name (.channels functions color alpha)
  | _ => none

mutual

/-- A term with every colour with an alpha value in channel form, from the leaves to the root. -/
def Term.expanded : Term → Term
  | .word leaf => .word leaf
  | .call name arguments =>
      (Term.channelForm? name arguments.expanded).getD (.call name arguments.expanded)

/-- Arguments with every colour with an alpha value in channel form. -/
def Terms.expanded : Terms → Terms
  | .one term => .one term.expanded
  | .cons term rest => .cons term.expanded rest.expanded

end

mutual

/-- A term with its last colour with an alpha value in channel form; nothing if it has none. -/
def Term.expandLast? : Term → Option Term
  | .word _ => none
  | .call name arguments =>
      (arguments.expandLast?.map (.call name)).or (Term.channelForm? name arguments)

/-- Arguments with their last colour with an alpha value in channel form. -/
def Terms.expandLast? : Terms → Option Terms
  | .one term => term.expandLast?.map .one
  | .cons term rest =>
      (rest.expandLast?.map (.cons term)).or (term.expandLast?.map fun term => .cons term rest)

end

/-- A channel form is left as it is, and its colour and its alpha value are expanded. -/
theorem Term.expanded_channelForm
    (name : FunctionName)
    (functions : FunctionName × FunctionName × FunctionName)
    (color alpha : Term) :
    (Term.call name (.channels functions color alpha)).expanded =
      .call name (.channels functions color.expanded alpha.expanded) := by
  simp [Terms.channels, Term.expanded, Terms.expanded, Term.channelForm?]

/-- Writing a colour in channel form does not change what a term expands to. -/
theorem Term.expanded_eq_of_channelForm?_eq_some
    {name : FunctionName}
    {arguments : Terms}
    {next : Term}
    (form : Term.channelForm? name arguments = some next) :
    next.expanded = (Term.call name arguments).expanded := by
  match arguments, form with
  | .cons color (.one alpha), form =>
      obtain ⟨functions, areChannels, rfl⟩ := Option.map_eq_some_iff.1 form
      rw [Term.expanded_channelForm, Term.expanded, Terms.expanded, Terms.expanded,
        Term.channelForm?, areChannels]
      rfl

mutual

/-- A step does not change what a term expands to. -/
theorem Term.expanded_eq_of_expandLast?_eq_some
    {next : Term} :
    ∀ {term : Term}, term.expandLast? = some next → next.expanded = term.expanded
  | .call name arguments, step => by
      rw [Term.expandLast?, Option.or_eq_some_iff] at step
      obtain inside | ⟨-, form⟩ := step
      · obtain ⟨further, restStep, rfl⟩ := Option.map_eq_some_iff.1 inside
        rw [Term.expanded, Terms.expanded_eq_of_expandLast?_eq_some restStep, Term.expanded]
      · exact Term.expanded_eq_of_channelForm?_eq_some form

theorem Terms.expanded_eq_of_expandLast?_eq_some
    {next : Terms} :
    ∀ {terms : Terms}, terms.expandLast? = some next → next.expanded = terms.expanded
  | .one term, step => by
      obtain ⟨further, termStep, rfl⟩ := Option.map_eq_some_iff.1 step
      rw [Terms.expanded, Term.expanded_eq_of_expandLast?_eq_some termStep, Terms.expanded]
  | .cons term rest, step => by
      rw [Terms.expandLast?, Option.or_eq_some_iff] at step
      obtain behind | ⟨-, here⟩ := step
      · obtain ⟨further, restStep, rfl⟩ := Option.map_eq_some_iff.1 behind
        rw [Terms.expanded, Terms.expanded_eq_of_expandLast?_eq_some restStep, Terms.expanded]
      · obtain ⟨further, termStep, rfl⟩ := Option.map_eq_some_iff.1 here
        rw [Terms.expanded, Term.expanded_eq_of_expandLast?_eq_some termStep, Terms.expanded]

end

mutual

/-- A term without a colour with an alpha value is expanded. -/
theorem Term.expanded_eq_self :
    ∀ {term : Term}, term.expandLast? = none → term.expanded = term
  | .word _, _ => rfl
  | .call name arguments, settled => by
      rw [Term.expandLast?, Option.or_eq_none_iff, Option.map_eq_none_iff] at settled
      rw [Term.expanded, Terms.expanded_eq_self settled.1, settled.2]
      rfl

theorem Terms.expanded_eq_self :
    ∀ {terms : Terms}, terms.expandLast? = none → terms.expanded = terms
  | .one term, settled => by
      rw [Terms.expandLast?, Option.map_eq_none_iff] at settled
      rw [Terms.expanded, Term.expanded_eq_self settled]
  | .cons term rest, settled => by
      rw [Terms.expandLast?, Option.or_eq_none_iff, Option.map_eq_none_iff,
        Option.map_eq_none_iff] at settled
      rw [Terms.expanded, Term.expanded_eq_self settled.2, Terms.expanded_eq_self settled.1]

end

/-! ## The text of a term -/

/-- Every character of the text of a call stands as code if those of the arguments do. -/
theorem callCells_map_ofCode
    (name arguments : Text) :
    callCells name (arguments.map .ofCode) = (callText name arguments).map .ofCode := by
  simp [callCells, callText]

theorem Word.isInert (word : Word) : IsInert word.text := by
  intro char member special
  have isWordChar := word.isWordChar_of_mem char member
  simp [Lowering.isWordChar, special] at isWordChar

mutual

/-- A term is closed, and all of it stands as code. -/
theorem Term.readsAs : ∀ term : Term, ReadsAs term.text (term.text.map .ofCode)
  | .word leaf => .of_isInert leaf.isInert
  | .call name arguments => by
      have reads := (Terms.readsAs arguments).call name.isNameChar_of_mem
      rwa [callCells_map_ofCode] at reads

theorem Terms.readsAs : ∀ terms : Terms, ReadsAs terms.text (terms.text.map .ofCode)
  | .one term => Term.readsAs term
  | .cons term rest => by
      have behind := readsAs_comma.append (Terms.readsAs rest) fun endsInSlash =>
        absurd (Option.some.inj endsInSlash) (by decide)
      rw [Terms.text, List.map_append, List.map_append]
      exact (Term.readsAs term).append behind fun _ => ⟨by simp, by simp⟩

end

theorem Term.hasDarkEnds : ∀ term : Term, term.text.HasDarkEnds
  | .word leaf => by
      refine Text.hasDarkEnds_of_forall leaf.nonempty fun char member => ?_
      have isWordChar := leaf.isWordChar_of_mem char member
      simp only [Lowering.isWordChar, Bool.and_eq_true, Bool.not_eq_true'] at isWordChar
      exact isWordChar.1.1
  | .call name arguments => by
      obtain ⟨first, others, isName⟩ := List.exists_cons_of_ne_nil name.nonempty
      have named : isNameChar first = true :=
        name.isNameChar_of_mem first (isName ▸ List.mem_cons_self)
      have dark : isWhiteSpace first = false := by
        rw [Bool.eq_false_iff]
        intro blank
        rw [isNameChar_of_isWhiteSpace blank] at named
        contradiction
      refine ⟨⟨first, others ++ '(' :: (arguments.text ++ [')']), ?_, dark⟩,
        name.text ++ '(' :: arguments.text, ')', ?_, rfl⟩
      · rw [Term.text, callText, isName, List.cons_append]
      · simp [Term.text, callText]

/-! ## The arguments of a call -/

/-- The texts of some arguments, in order. -/
def Terms.texts : Terms → List Text
  | .one term => [term.text]
  | .cons term rest => term.text :: rest.texts

theorem Term.isUnsplit : ∀ term : Term,
    IsUnsplit (Cell.isSeparator ',') (term.text.map .ofCode)
  | .word leaf => by
      apply IsUnsplit.of_unmarked
      intro cell member
      refine ⟨?_, unmarked_of_isInert leaf.isInert cell member⟩
      obtain ⟨char, inLeaf, rfl⟩ := List.mem_map.1 member
      have isWordChar := leaf.isWordChar_of_mem char inLeaf
      have noComma : char ≠ ',' := by
        rintro rfl
        contradiction
      simp [Cell.isSeparator, Cell.isCode, Cell.ofCode, noComma]
  | .call name arguments => by
      rw [Term.text, ← callCells_map_ofCode]
      exact isUnsplit_callCells name.isNameChar_of_mem (Terms.readsAs arguments).isBalanced

theorem map_trim_modifyHead_of_isWhiteSpace
    {space : Char}
    (blank : isWhiteSpace space = true)
    (pieces : List Text) :
    (pieces.modifyHead (space :: ·)).map Text.trim = pieces.map Text.trim := by
  cases pieces with
  | nil => rfl
  | cons first rest => simp [Text.trim_cons_of_isWhiteSpace blank]

/-- Arguments are read back at their commas. -/
theorem Terms.splitTopLevel_text : ∀ terms : Terms, splitTopLevel ',' terms.text = terms.texts
  | .one term => by
      have pieces := term.isUnsplit 0 []
      rw [List.append_nil, chars_map_ofCode, splitCells, List.modifyHead_cons, List.append_nil]
        at pieces
      rw [splitTopLevel, Terms.text, term.readsAs.2, pieces, List.map_singleton,
        term.hasDarkEnds.trim_eq, Terms.texts]
  | .cons term rest => by
      have pieces := rest.splitTopLevel_text
      have space : Cell.isSeparator ',' (.ofCode ' ') = false := rfl
      have flat : bracketDepth 0 (.ofCode ' ') = 0 := rfl
      have comma : Cell.isSeparator ',' (.ofCode ',') = true := rfl
      have cells_eq : ((Terms.cons term rest).text.map Cell.ofCode) =
          term.text.map .ofCode ++ .ofCode ',' :: .ofCode ' ' :: rest.text.map .ofCode := by
        rw [Terms.text, List.map_append, List.map_append]
        rfl
      rw [splitTopLevel, rest.readsAs.2] at pieces
      rw [splitTopLevel, (Terms.cons term rest).readsAs.2, cells_eq, term.isUnsplit, splitCells,
        if_pos ⟨rfl, comma⟩, splitCells_cons_of_eq_false space, flat, List.modifyHead_cons,
        List.map_cons, map_trim_modifyHead_of_isWhiteSpace rfl, pieces, chars_map_ofCode,
        List.append_nil, term.hasDarkEnds.trim_eq, Terms.texts]

theorem isOneOf_colorFunctions (name : Text) :
    name.isOneOf ["rgba", "hsla"] =
      (name.equalsIgnoringCase "rgba" || name.equalsIgnoringCase "hsla") := by
  rw [Text.isOneOf, List.any_cons, List.any_cons, List.any_nil, Bool.or_false]

/-- A function without channels is no colour function. -/
theorem FunctionName.isOneOf_of_channels?_eq_none
    {name : FunctionName}
    (noChannels : name.channels? = none) :
    name.text.isOneOf ["rgba", "hsla"] = false := by
  rw [FunctionName.channels?] at noChannels
  split_ifs at noChannels with isRgba isHsla
  rw [isOneOf_colorFunctions, Bool.or_eq_false_iff]
  exact ⟨Bool.eq_false_iff.2 isRgba, Bool.eq_false_iff.2 isHsla⟩

/-- A function with channels is a colour function, and the channels are its own. -/
theorem FunctionName.channels_eq_of_channels?_eq_some
    {name : FunctionName}
    {functions : FunctionName × FunctionName × FunctionName}
    (areChannels : name.channels? = some functions) :
    name.text.isOneOf ["rgba", "hsla"] = true ∧
      channels name.text = [functions.1.text, functions.2.1.text, functions.2.2.text] := by
  rw [FunctionName.channels?] at areChannels
  rw [isOneOf_colorFunctions, channels]
  split_ifs at areChannels with isRgba isHsla
  · have noHsla : ¬ name.text.equalsIgnoringCase "hsla" = true := by
      rw [Text.equalsIgnoringCase, beq_iff_eq] at isRgba
      rw [Text.equalsIgnoringCase, isRgba]
      decide
    obtain rfl := Option.some.inj areChannels
    rw [if_neg noHsla, isRgba]
    exact ⟨rfl, rfl⟩
  · obtain rfl := Option.some.inj areChannels
    rw [if_pos isHsla, isHsla, Bool.or_true]
    exact ⟨rfl, rfl⟩

theorem Term.text_ne_nil (term : Term) : term.text ≠ [] := by
  obtain ⟨⟨first, rest, starts, -⟩, -⟩ := term.hasDarkEnds
  rw [starts]
  exact List.cons_ne_nil first rest

/-- Two arguments are a colour and an alpha value. -/
theorem alphaArguments?_of_two
    (color alpha : Term)
    (start : Nat)
    (name : Text) :
    alphaArguments? ⟨start, name, (Terms.cons color (.one alpha)).text⟩ =
      some (color.text, alpha.text) := by
  simp [alphaArguments?, Terms.splitTopLevel_text, Terms.texts, color.text_ne_nil,
    alpha.text_ne_nil]

/-- The channel form of a call is written as that of its text. -/
theorem Term.map_text_channelForm?
    (name : FunctionName)
    (start : Nat) : ∀ arguments : Terms,
    (Term.channelForm? name arguments).map Term.text =
      if isAlphaColor ⟨start, name.text, arguments.text⟩ then
        (alphaArguments? ⟨start, name.text, arguments.text⟩).map fun pair =>
          channelForm name.text pair.1 pair.2
      else none
  | .one term => by
      have noPair : alphaArguments? ⟨start, name.text, (Terms.one term).text⟩ = none := by
        rw [alphaArguments?, Terms.splitTopLevel_text]
        rfl
      rw [noPair, Term.channelForm?, Option.map_none, Option.map_none, ite_self]
      nofun
  | .cons first (.cons second rest) => by
      have noPair : alphaArguments?
          ⟨start, name.text, (Terms.cons first (.cons second rest)).text⟩ = none := by
        rw [alphaArguments?, Terms.splitTopLevel_text]
        cases rest <;> rfl
      rw [noPair, Term.channelForm?, Option.map_none, Option.map_none, ite_self]
      nofun
  | .cons color (.one alpha) => by
      rw [isAlphaColor, alphaArguments?_of_two, Call.isNamed, Option.isSome_some, Bool.true_and,
        Option.map_some, channelForm_eq_callText, Term.channelForm?]
      cases areChannels : name.channels? with
      | none =>
          rw [FunctionName.isOneOf_of_channels?_eq_none areChannels]
          rfl
      | some functions =>
          obtain ⟨isColor, sameChannels⟩ :=
            FunctionName.channels_eq_of_channels?_eq_some areChannels
          rw [isColor, sameChannels]
          rfl

/-! ## The last colour of a text -/

/-- What expanding the last colour among some calls makes of the text that they begin in. -/
inductive LastExpansion (calls : List Call) (start : Nat) (text : Text) : Option Text → Prop
  | settled (idle : ∀ call ∈ calls, isAlphaColor call = false) :
      LastExpansion calls start text none
  | expanded {front back color alpha : Text} {call : Call}
      (last : (calls.filter isAlphaColor).getLast? = some call)
      (arguments : alphaArguments? call = some (color, alpha))
      (place : call.start = start + front.length)
      (split : text = front ++ (callText call.name call.arguments ++ back)) :
      LastExpansion calls start text
        (some (front ++ (channelForm call.name color alpha ++ back)))

namespace LastExpansion

variable {start : Nat}

/-- The last colour of a joined text is that of its back part, if this has one. -/
theorem append
    {frontCalls backCalls : List Call}
    {front back : Text}
    {next further : Option Text}
    (frontExpansion : LastExpansion frontCalls start front next)
    (backExpansion : LastExpansion backCalls (start + front.length) back further) :
    LastExpansion (frontCalls ++ backCalls) start (front ++ back)
      ((further.map (front ++ ·)).or (next.map (· ++ back))) := by
  cases backExpansion with
  | @expanded before behind color alpha call last arguments place split =>
      have expansion := @expanded (frontCalls ++ backCalls) start (front ++ back) (front ++ before)
        behind color alpha call (by simp [last]) arguments
        (by rw [place, List.length_append, Nat.add_assoc]) (by rw [split, List.append_assoc])
      rw [List.append_assoc] at expansion
      exact expansion
  | settled backIdle =>
      cases frontExpansion with
      | settled frontIdle => exact .settled (List.forall_mem_append.2 ⟨frontIdle, backIdle⟩)
      | @expanded before behind color alpha call last arguments place split =>
          have noneBehind : backCalls.filter isAlphaColor = [] := by
            simpa [List.filter_eq_nil_iff] using backIdle
          have expansion := @expanded (frontCalls ++ backCalls) start (front ++ back) before
            (behind ++ back) color alpha call
            (by rw [List.filter_append, noneBehind, List.append_nil, last]) arguments place
            (by simp [split])
          simpa using expansion

/-- A call is the last colour of its text if its arguments have none. -/
theorem call
    {call : Call}
    {inner : List Call}
    {next : Option Text}
    (inside : LastExpansion inner (call.start + call.name.length + 1) call.arguments next) :
    LastExpansion (call :: inner) call.start (callText call.name call.arguments)
      ((next.map (callText call.name)).or
        (if isAlphaColor call then
          (alphaArguments? call).map fun pair => channelForm call.name pair.1 pair.2
        else none)) := by
  cases inside with
  | @expanded before behind color alpha last lastCall arguments place split =>
      have expansion := @expanded (call :: inner) call.start (callText call.name call.arguments)
        (call.name ++ '(' :: before) (behind ++ [')']) color alpha last
        (by rw [List.filter_cons]; split_ifs <;> simp [List.getLast?_cons, lastCall])
        arguments (by rw [place, List.length_append, List.length_cons]; omega)
        (by rw [callText, split]; simp)
      simpa [callText] using expansion
  | settled idle =>
      by_cases isColor : isAlphaColor call = true
      · have onlyCall : ((call :: inner).filter isAlphaColor).getLast? = some call := by
          have noneInside : inner.filter isAlphaColor = [] := by
            simpa [List.filter_eq_nil_iff] using idle
          rw [List.filter_cons_of_pos isColor, noneInside]
          rfl
        obtain ⟨pair, arguments⟩ : ∃ pair, alphaArguments? call = some pair := by
          rw [isAlphaColor, Bool.and_eq_true] at isColor
          exact Option.isSome_iff_exists.1 isColor.1
        have expansion := @expanded (call :: inner) call.start (callText call.name call.arguments)
          [] [] pair.1 pair.2 call onlyCall arguments rfl (List.append_nil _).symm
        rw [if_pos isColor, arguments]
        simpa using expansion
      · rw [if_neg isColor]
        exact .settled (List.forall_mem_cons.2 ⟨Bool.eq_false_iff.2 isColor, idle⟩)

/-- The last colour of a text is the one that is expanded. -/
theorem expandLastAlpha?_eq
    {source : Text}
    {next : Option Text}
    (expansion : LastExpansion (calls source) 0 source next) :
    expandLastAlpha? source = next := by
  cases expansion with
  | settled idle =>
      have noColor : alphaCalls source = [] := by
        rw [alphaCalls_eq_filter]
        simpa [List.filter_eq_nil_iff] using idle
      exact (expandLastAlpha?_eq_none_iff source).2 (alphaCalls_eq_nil_iff.1 noColor)
  | @expanded before behind color alpha call last arguments place split =>
      rw [Nat.zero_add] at place
      have length : call.closing + 1 =
          (before ++ callText call.name call.arguments).length := by
        simp [Call.closing, Call.opening, callText, place]
        omega
      have front : source.take call.start = before := by
        rw [place, split, List.take_left]
      have back : source.drop (call.closing + 1) = behind := by
        rw [length, split, ← List.append_assoc, List.drop_left]
      rw [← alphaCalls_eq_filter] at last
      rw [expandLastAlpha?, last]
      simp [arguments, front, back]

end LastExpansion

/-! ## The last colour of a term -/

theorem callsWithin_callText
    (name : FunctionName)
    (arguments : Terms)
    {before : Option Cell}
    (begins : mayStartCall before = true)
    (start : Nat)
    (behind : List Cell) :
    callsWithin start before ((Term.call name arguments).text.map .ofCode) behind =
      ⟨start, name.text, arguments.text⟩ ::
        callsWithin (start + name.text.length + 1) (some (.ofCode '('))
          (arguments.text.map .ofCode) (.ofCode ')' :: behind) := by
  rw [Term.text, ← callCells_map_ofCode, callCells,
    callsWithin_call (isCodeName_of_mem_map_ofCode name.isNameChar_of_mem)
      (by simpa using name.nonempty) rfl arguments.readsAs.isBalanced rfl, if_pos begins,
    List.length_map, chars_map_ofCode, chars_map_ofCode]
  rfl

theorem callsWithin_word
    (leaf : Word)
    {behind : List Cell}
    (ends : EndsNames behind)
    (start : Nat)
    (before : Option Cell) :
    callsWithin start before (leaf.text.map .ofCode) behind = [] :=
  callsWithin_of_no_opening
    (fun cell member => unmarked_of_isInert leaf.isInert cell member '(' (by decide)) ends start
    before

theorem callsWithin_terms
    (term : Term)
    (rest : Terms)
    (start : Nat)
    (before : Option Cell)
    (behind : List Cell) :
    callsWithin start before ((Terms.cons term rest).text.map .ofCode) behind =
      callsWithin start before (term.text.map .ofCode)
          (.ofCode ',' :: .ofCode ' ' :: (rest.text.map .ofCode ++ behind)) ++
        callsWithin (start + term.text.length + 2) (some (.ofCode ' ')) (rest.text.map .ofCode)
          behind := by
  have noNames : ∀ cell ∈ [Cell.ofCode ',', .ofCode ' '], cell.isCodeName = false := by decide
  rw [Terms.text, List.map_append, List.map_append, callsWithin_append, callsWithin_append]
  change _ ++ (callsWithin _ _ [Cell.ofCode ',', .ofCode ' '] _ ++ _) = _
  rw [callsWithin_of_no_name noNames, List.length_map]
  rfl

mutual

/-- Expanding the last colour of a term's text is a step on the term. -/
theorem Term.lastExpansion
    {before : Option Cell}
    {behind : List Cell}
    (begins : mayStartCall before = true)
    (ends : EndsNames behind)
    (start : Nat) : ∀ term : Term,
    LastExpansion (callsWithin start before (term.text.map .ofCode) behind) start term.text
      (term.expandLast?.map Term.text)
  | .word leaf => by
      rw [Term.text, callsWithin_word leaf ends]
      exact .settled nofun
  | .call name arguments => by
      have opens : mayStartCall (some (.ofCode '(')) = true := rfl
      have closes : EndsNames (.ofCode ')' :: behind) := endsNames_cons ⟨rfl, rfl⟩ behind
      have inside := Terms.lastExpansion opens closes (start + name.text.length + 1) arguments
      have expansion := @LastExpansion.call ⟨start, name.text, arguments.text⟩ _ _ inside
      rw [callsWithin_callText name arguments begins, Term.expandLast?, Option.map_or,
        Term.map_text_channelForm? name start, Option.map_map]
      rw [Option.map_map] at expansion
      exact expansion

theorem Terms.lastExpansion
    {before : Option Cell}
    {behind : List Cell}
    (begins : mayStartCall before = true)
    (ends : EndsNames behind)
    (start : Nat) : ∀ terms : Terms,
    LastExpansion (callsWithin start before (terms.text.map .ofCode) behind) start terms.text
      (terms.expandLast?.map Terms.text)
  | .one term => by
      have expansion := Term.lastExpansion begins ends start term
      rw [Terms.expandLast?, Option.map_map]
      exact expansion
  | .cons term rest => by
      have opens : mayStartCall (some (.ofCode ' ')) = true := rfl
      have separates (others : List Cell) : EndsNames (.ofCode ',' :: others) :=
        endsNames_cons ⟨rfl, rfl⟩ others
      have front := Term.lastExpansion begins
        (separates (.ofCode ' ' :: (rest.text.map .ofCode ++ behind))) start term
      have separator : LastExpansion [] (start + term.text.length) ", " none := .settled nofun
      have back := Terms.lastExpansion opens ends (start + term.text.length + 2) rest
      have expansion := front.append (separator.append back)
      rw [List.nil_append, Option.map_none, Option.or_none, Option.map_map, Option.map_map,
        Option.map_map] at expansion
      rw [callsWithin_terms, Terms.expandLast?, Option.map_or, Option.map_map, Option.map_map]
      exact expansion

end

/-- A step on the text of a term is a step on the term. -/
theorem expandLastAlpha?_text (term : Term) :
    expandLastAlpha? term.text = term.expandLast?.map Term.text := by
  have begins : mayStartCall none = true := rfl
  have ends : EndsNames [] := nofun
  have expansion := term.lastExpansion begins ends 0
  rw [callsWithin_nil, ← term.readsAs.2] at expansion
  exact expansion.expandLastAlpha?_eq

mutual

/-- The arguments of all calls of a term are closed. -/
theorem Term.isClosed_arguments
    {call : Call}
    {before : Option Cell}
    {behind : List Cell}
    {start : Nat}
    (begins : mayStartCall before = true)
    (ends : EndsNames behind) : ∀ {term : Term},
    call ∈ callsWithin start before (term.text.map .ofCode) behind → IsClosed call.arguments
  | .word leaf, member => by
      rw [Term.text, callsWithin_word leaf ends] at member
      contradiction
  | .call name arguments, member => by
      rw [callsWithin_callText name arguments begins, List.mem_cons] at member
      obtain rfl | inside := member
      · exact arguments.readsAs.1
      · exact Terms.isClosed_arguments rfl (endsNames_cons ⟨rfl, rfl⟩ behind) inside

theorem Terms.isClosed_arguments
    {call : Call}
    {before : Option Cell}
    {behind : List Cell}
    {start : Nat}
    (begins : mayStartCall before = true)
    (ends : EndsNames behind) : ∀ {terms : Terms},
    call ∈ callsWithin start before (terms.text.map .ofCode) behind → IsClosed call.arguments
  | .one _, member => Term.isClosed_arguments begins ends member
  | .cons term rest, member => by
      rw [callsWithin_terms, List.mem_append] at member
      obtain here | later := member
      · exact Term.isClosed_arguments begins (endsNames_cons ⟨rfl, rfl⟩ _) here
      · exact Terms.isClosed_arguments rfl ends later

end

theorem Term.hasClosedColors (term : Term) : HasClosedColors term.text := by
  have begins : mayStartCall none = true := rfl
  have ends : EndsNames [] := nofun
  intro call member
  have isCall := (List.mem_filter.1 member).1
  rw [calls, term.readsAs.2, ← callsWithin_nil] at isCall
  exact Term.isClosed_arguments begins ends isCall

/--
Expanding the colours in the text of a term ends, and gives the text of the
term with every colour with an alpha value in channel form, from the leaves to
the root.
-/
theorem expandColorAlpha?_text_eq_text_expanded
    (term : Term) :
    expandColorAlpha? term.text = some term.expanded.text := by
  induction count : (alphaCalls term.text).length using Nat.strong_induction_on
    generalizing term with
  | _ count inductionHypothesis =>
  subst count
  have step := expandLastAlpha?_text term
  cases next : term.expandLast? with
  | none =>
      rw [next, Option.map_none] at step
      rw [expandColorAlpha?_of_expandLastAlpha?_eq_none step, Term.expanded_eq_self next]
  | some further =>
      rw [next, Option.map_some] at step
      have fewer := (term.hasClosedColors.of_expandLastAlpha?_eq_some step).2
      rw [expandColorAlpha?_of_expandLastAlpha?_eq_some step,
        inductionHypothesis _ (by omega) further rfl, Term.expanded_eq_of_expandLast?_eq_some next]

example :
    let dark := Term.call { text := "darken" }
      (.cons (.word { text := "@c" }) (.one (.word { text := "10%" })))
    (Term.call { text := "Rgba" } (.cons dark (.one (.word { text := ".5" })))).expanded.text =
      "Rgba(red(darken(@c, 10%)), green(darken(@c, 10%)), blue(darken(@c, 10%)), .5)".toList := by
  decide

end Lowering
end LessTheme
