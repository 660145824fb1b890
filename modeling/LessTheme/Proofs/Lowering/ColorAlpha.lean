import LessTheme.Proofs.Lowering.Growth
import LessTheme.Proofs.Source.Closed
import LessTheme.Proofs.Source.Within

/-!
# How many colours an expansion expands

Where the arguments of all colour functions are closed, expanding the last
colour with an alpha value leaves one such colour less.  A call that holds the
expanded one in its arguments keeps its number of arguments, the copies of the
colour hold no further colour to expand, and what stands behind is read as it
was.  So the expansion ends after as many steps as there are colours to expand.

If a string or a comment in an argument ends with the line, trimming the
argument can take that end away, and the text behind it is read anew.
-/

namespace LessTheme
namespace Lowering

open Source

/-- The arguments of all calls to the colour functions `rgba` and `hsla` are closed. -/
def HasClosedColors (source : Text) : Prop :=
  ∀ call ∈ callsTo ["rgba", "hsla"] source, IsClosed call.arguments

instance (source : Text) : Decidable (HasClosedColors source) :=
  inferInstanceAs (Decidable (∀ call ∈ callsTo ["rgba", "hsla"] source, IsClosed call.arguments))

/-! ## Colours with an alpha value among calls -/

/-- A call is a colour with an alpha value. -/
def isAlphaColor (call : Call) : Bool :=
  (alphaArguments? call).isSome && call.isNamed ["rgba", "hsla"]

theorem alphaCalls_eq_filter (source : Text) :
    alphaCalls source = (calls source).filter isAlphaColor :=
  List.filter_filter

/-- Two arguments are given exactly if the call has two pieces and neither is empty. -/
theorem isSome_alphaArguments?
    (call : Call) :
    (alphaArguments? call).isSome =
      ((splitTopLevel ',' call.arguments).map List.isEmpty == [false, false]) := by
  unfold alphaArguments?
  match splitTopLevel ',' call.arguments with
  | [] | [_] | _ :: _ :: _ :: _ => simp
  | [color, alpha] => cases color <;> cases alpha <;> rfl

/-- A call to a colour function has closed arguments and is no colour to expand. -/
def IsSettled (name arguments : Text) : Prop :=
  name.isOneOf ["rgba", "hsla"] = true →
    IsClosed arguments ∧ (alphaArguments? ⟨0, name, arguments⟩).isSome = false

theorem isSettled_iff
    {call : Call} :
    IsSettled call.name call.arguments ↔
      (call.isNamed ["rgba", "hsla"] = true → IsClosed call.arguments) ∧
        isAlphaColor call = false := by
  have sameArguments : alphaArguments? ⟨0, call.name, call.arguments⟩ = alphaArguments? call := rfl
  rw [IsSettled, sameArguments, isAlphaColor, Call.isNamed, Bool.and_eq_false_iff]
  cases call.name.isOneOf ["rgba", "hsla"] <;> simp

/-- All calls that begin among some cells have a property wherever the cells stand. -/
def CallsHave (property : Text → Text → Prop) (cells : List Cell) : Prop :=
  ∀ start before behind, mayStartCall before = true → EndsNames behind →
    ∀ call ∈ callsWithin start before cells behind, property call.name call.arguments

theorem callsHave_of_forall
    {property : Text → Text → Prop}
    {cells behind : List Cell}
    {start : Nat}
    {before : Option Cell}
    (balanced : IsBalanced cells)
    (begins : mayStartCall before = true)
    (ends : EndsNames behind)
    (all : ∀ call ∈ callsWithin start before cells behind, property call.name call.arguments) :
    CallsHave property cells := by
  intro otherStart otherBefore otherBehind otherBegins otherEnds
  exact balanced.forall_mem_callsWithin (begins.trans otherBegins.symm) ends otherEnds all
    otherStart

/-! ## The arguments of a channel form -/

/-- The channels of a colour and its alpha value, written as arguments. -/
def channelArguments (names : List Text) (color alpha : Text) : Text :=
  names.foldr (fun name rest => callText name color ++ (", " ++ rest)) alpha

/-- The cells of the channels of a colour and of its alpha value. -/
def channelCells (names : List Text) (color alpha : List Cell) : List Cell :=
  names.foldr (fun name rest =>
    callCells name color ++ ([.ofCode ',', .ofCode ' '] ++ rest)) alpha

theorem channels_named
    (name : Text) :
    ∀ channel ∈ channels name,
      channel ≠ [] ∧ (∀ char ∈ channel, isNameChar char = true) ∧
        channel.isOneOf ["rgba", "hsla"] = false := by
  have facts : ∀ channel ∈ channels name,
      channel ≠ [] ∧ channel.all isNameChar = true ∧
        channel.isOneOf ["rgba", "hsla"] = false := by
    unfold channels
    split <;> decide
  intro channel member
  obtain ⟨nonempty, nameChars, noColor⟩ := facts channel member
  exact ⟨nonempty, List.all_eq_true.1 nameChars, noColor⟩

theorem length_channels (name : Text) : (channels name).length = 3 := by
  unfold channels
  split <;> rfl

theorem channelForm_eq_callText
    (name color alpha : Text) :
    channelForm name color alpha =
      callText name (channelArguments (channels name) color alpha) := by
  unfold channelForm channels
  split <;> simp [channelArguments, callText, List.intercalate]

/-- The text between two arguments. -/
theorem readsAs_comma : ReadsAs (", " : Text) [.ofCode ',', .ofCode ' '] :=
  .of_isInert (List.all_iff_forall_prop.1
    (show [',', ' '].all (· ∉ specialChars) = true from rfl))

theorem readsAs_channelArguments
    {names : List Text}
    {color alpha : Text}
    {colorCells alphaCells : List Cell}
    (named : ∀ name ∈ names, ∀ char ∈ name, isNameChar char = true)
    (colorReads : ReadsAs color colorCells)
    (alphaReads : ReadsAs alpha alphaCells) :
    ReadsAs (channelArguments names color alpha) (channelCells names colorCells alphaCells) := by
  induction names with
  | nil => exact alphaReads
  | cons name rest inductionHypothesis =>
      obtain ⟨here, others⟩ := List.forall_mem_cons.1 named
      have behind := readsAs_comma.append (inductionHypothesis others) fun endsInSlash =>
        absurd (Option.some.inj endsInSlash) (by decide)
      exact (colorReads.call here).append behind fun _ => ⟨by simp, by simp⟩

/-- A call is never split at commas. -/
theorem isUnsplit_callCells
    {name : Text}
    {arguments : List Cell}
    (named : ∀ char ∈ name, isNameChar char = true)
    (balanced : IsBalanced arguments) :
    IsUnsplit (Cell.isSeparator ',') (callCells name arguments) :=
  (IsUnsplit.of_isCodeName (by decide) (isCodeName_of_mem_map_ofCode named)).append
    (.group rfl balanced rfl)

/-- Every channel is an argument of its own, and so is the alpha value. -/
theorem length_lt_length_splitCells_channelCells
    (names : List Text)
    (named : ∀ name ∈ names, ∀ char ∈ name, isNameChar char = true)
    {color : List Cell}
    (balanced : IsBalanced color)
    (alpha : List Cell) :
    names.length <
      (splitCells (Cell.isSeparator ',') 0 (channelCells names color alpha)).length := by
  induction names with
  | nil => exact List.length_pos_iff.2 (splitCells_ne_nil _ _ _)
  | cons name rest inductionHypothesis =>
      obtain ⟨here, others⟩ := List.forall_mem_cons.1 named
      have further := inductionHypothesis others
      have comma : Cell.isSeparator ',' (.ofCode ',') = true := rfl
      have space : Cell.isSeparator ',' (.ofCode ' ') = false := rfl
      have flat : bracketDepth 0 (.ofCode ' ') = 0 := rfl
      rw [channelCells, List.foldr_cons, ← channelCells, isUnsplit_callCells here balanced,
        List.length_modifyHead, List.cons_append, splitCells, if_pos ⟨rfl, comma⟩, List.length_cons,
        List.singleton_append, splitCells_cons_of_eq_false space, List.length_cons,
        List.length_modifyHead, flat]
      omega

/-- Calls in the arguments of a channel form are calls to channels, or stand in an argument. -/
theorem callsHave_channelCells
    {property : Text → Text → Prop}
    {names : List Text}
    {color alpha : List Cell}
    (named : ∀ name ∈ names,
      name ≠ [] ∧ (∀ char ∈ name, isNameChar char = true) ∧ ∀ arguments, property name arguments)
    (balanced : IsBalanced color)
    (colorHas : CallsHave property color)
    (alphaHas : CallsHave property alpha) :
    CallsHave property (channelCells names color alpha) := by
  induction names with
  | nil => exact alphaHas
  | cons name rest inductionHypothesis =>
      obtain ⟨⟨nonempty, nameChars, isChannel⟩, others⟩ := List.forall_mem_cons.1 named
      intro start before behind begins ends
      have noNames : ∀ cell ∈ [Cell.ofCode ',', .ofCode ' '], cell.isCodeName = false := by decide
      rw [channelCells, List.foldr_cons, ← channelCells, callsWithin_append, callCells,
        callsWithin_call (isCodeName_of_mem_map_ofCode nameChars) (by simpa using nonempty) rfl
          balanced rfl,
        if_pos begins, List.forall_mem_append, List.forall_mem_append]
      refine ⟨⟨?_, ?_⟩, ?_⟩
      · intro call member
        rw [List.mem_singleton.1 member, chars_map_ofCode]
        exact isChannel _
      · exact colorHas _ _ _ rfl (endsNames_cons ⟨rfl, rfl⟩ _)
      · rw [callsWithin_append, callsWithin_of_no_name noNames]
        exact inductionHypothesis others _ _ _ rfl ends

/-! ## Calls that hold an expanded colour -/

theorem isBlank_chars_callCells
    (name : Text)
    (arguments : List Cell) :
    (chars (callCells name arguments)).isBlank = false := by
  have dark : isWhiteSpace '(' = false := rfl
  simp [callText, Text.isBlank, dark]

/-- Which pieces are empty does not depend on a call among them. -/
theorem map_isEmpty_splitTopLevel
    {before behind middle other : List Cell}
    {text otherText : Text}
    (cells_eq : cells text = before ++ (middle ++ behind))
    (otherCells_eq : cells otherText = before ++ (other ++ behind))
    (unsplit : IsUnsplit (Cell.isSeparator ',') middle)
    (otherUnsplit : IsUnsplit (Cell.isSeparator ',') other)
    (dark : (chars middle).isBlank = false)
    (otherDark : (chars other).isBlank = false) :
    (splitTopLevel ',' otherText).map List.isEmpty =
      (splitTopLevel ',' text).map List.isEmpty := by
  obtain ⟨pieces, left, further, split⟩ :=
    exists_splitCells_append (Cell.isSeparator ',') 0 before
  obtain ⟨first, others, rest⟩ := List.exists_cons_of_ne_nil
    (splitCells_ne_nil (Cell.isSeparator ',') further behind)
  have holdsInk : ∀ {inner : Text}, inner.isBlank = false →
      (Text.trim (left ++ (inner ++ first))).isEmpty = false := by
    intro inner dark
    rw [Bool.eq_false_iff] at dark ⊢
    intro empty
    have blank := Text.trim_eq_nil_iff.1 (List.isEmpty_iff.1 empty)
    rw [Text.isBlank, List.all_append, List.all_append, Bool.and_eq_true, Bool.and_eq_true] at blank
    exact dark blank.2.1
  rw [splitTopLevel, splitTopLevel, cells_eq, otherCells_eq, split, split, unsplit, otherUnsplit,
    rest]
  simp [holdsInk dark, holdsInk otherDark]

section Rewritten

variable {source name arguments other : Text} {argumentCells otherCells : List Cell}
  (named : ∀ char ∈ name, isNameChar char = true) (nonempty : name ≠ [])
  (reads : ReadsAs arguments argumentCells) (otherReads : ReadsAs other otherCells)

include named nonempty reads otherReads

/-- What a call holds in its arguments stays closed and keeps its pieces. -/
theorem isClosed_and_isSome_of_rewritten
    {call next : Call}
    (rewritten : Rewritten (cells source) (callCells name argumentCells)
      (callCells name otherCells) call next)
    (closed : IsClosed call.arguments) :
    IsClosed next.arguments ∧
      (alphaArguments? next).isSome = (alphaArguments? call).isSome := by
  cases rewritten with
  | same => exact ⟨closed, rfl⟩
  | @around front before behind back opening closing place opens closes start outer =>
      have around := ReadsAs.of_enclosed place opens closes closed
      have nextAround := ReadsAs.exchange named nonempty reads otherReads around
      refine ⟨nextAround.1, ?_⟩
      have sameEmpty := map_isEmpty_splitTopLevel around.2 nextAround.2
        (isUnsplit_callCells named reads.isBalanced)
        (isUnsplit_callCells named otherReads.isBalanced)
        (isBlank_chars_callCells name _) (isBlank_chars_callCells name _)
      rw [isSome_alphaArguments?, isSome_alphaArguments?, sameEmpty]

theorem isAlphaColor_of_rewritten
    {call next : Call}
    (rewritten : Rewritten (cells source) (callCells name argumentCells)
      (callCells name otherCells) call next)
    (closed : call.isNamed ["rgba", "hsla"] = true → IsClosed call.arguments) :
    (next.isNamed ["rgba", "hsla"] = true → IsClosed next.arguments) ∧
      isAlphaColor next = isAlphaColor call := by
  have sameName : next.isNamed ["rgba", "hsla"] = call.isNamed ["rgba", "hsla"] := by
    cases rewritten <;> rfl
  by_cases isColor : call.isNamed ["rgba", "hsla"] = true
  · obtain ⟨nextClosed, sameArguments⟩ := isClosed_and_isSome_of_rewritten named nonempty reads
      otherReads rewritten (closed isColor)
    exact ⟨fun _ => nextClosed, by rw [isAlphaColor, isAlphaColor, sameName, sameArguments]⟩
  · rw [Bool.not_eq_true] at isColor
    refine ⟨fun nextColor => ?_, ?_⟩
    · rw [sameName, isColor] at nextColor
      contradiction
    · rw [isAlphaColor, isAlphaColor, sameName, isColor, Bool.and_false, Bool.and_false]

/-- Calls that hold an expanded colour stay closed, and as many of them are colours to expand. -/
theorem forall_isClosed_and_countP_eq
    {front nextFront : List Call}
    (rewritten : List.Forall₂ (Rewritten (cells source) (callCells name argumentCells)
      (callCells name otherCells)) front nextFront)
    (closed : ∀ call ∈ front, call.isNamed ["rgba", "hsla"] = true → IsClosed call.arguments) :
    (∀ call ∈ nextFront, call.isNamed ["rgba", "hsla"] = true → IsClosed call.arguments) ∧
      nextFront.countP isAlphaColor = front.countP isAlphaColor := by
  induction rewritten with
  | nil => exact ⟨nofun, rfl⟩
  | @cons call next front nextFront here others inductionHypothesis =>
      obtain ⟨callClosed, frontClosed⟩ := List.forall_mem_cons.1 closed
      obtain ⟨nextClosed, same⟩ :=
        isAlphaColor_of_rewritten named nonempty reads otherReads here callClosed
      obtain ⟨restClosed, sameCount⟩ := inductionHypothesis frontClosed
      refine ⟨List.forall_mem_cons.2 ⟨nextClosed, restClosed⟩, ?_⟩
      rw [List.countP_cons, List.countP_cons, same, sameCount]

end Rewritten

/-! ## The calls in a colour's arguments -/

/-- A cell of white space neither continues a name nor begins the arguments of a call. -/
theorem standsApart_of_isWhiteSpace
    {char : Char}
    (blank : isWhiteSpace char = true) :
    mayStartCall (some (.ofCode char)) = true ∧
      Cell.isCodeName (.ofCode char) = false ∧ Cell.isCode (.ofCode char) '(' = false := by
  have noName : Cell.isCodeName (.ofCode char) = false := isNameChar_of_isWhiteSpace blank
  have differs : ∀ mark, isWhiteSpace mark = false → char ≠ mark := by
    rintro mark dark rfl
    exact Bool.false_ne_true (dark.symm.trans blank)
  refine ⟨?_, noName, ?_⟩
  · rw [mayStartCall, noName]
    simp [isNameMark, Cell.ofCode, differs '.' rfl, differs '#' rfl, differs '@' rfl,
      differs '$' rfl]
  · simp [Cell.isCode, Cell.ofCode, differs '(' rfl]

/-- White space around some cells has no part in their calls. -/
theorem callsHave_of_trimmed
    {property : Text → Text → Prop}
    {before behind : Text}
    {inner rest : List Cell}
    {start : Nat}
    {previous : Option Cell}
    (blank : ∀ char ∈ before ++ behind, isWhiteSpace char = true)
    (balanced : IsBalanced inner)
    (begins : mayStartCall previous = true)
    (ends : EndsNames rest)
    (all : ∀ call ∈ callsWithin start previous
        (before.map .ofCode ++ (inner ++ behind.map .ofCode)) rest,
      property call.name call.arguments) :
    CallsHave property inner := by
  obtain ⟨beforeBlank, behindBlank⟩ := List.forall_mem_append.1 blank
  rw [callsWithin_append, List.forall_mem_append, callsWithin_append, List.forall_mem_append]
    at all
  obtain ⟨-, innerHas, -⟩ := all
  refine callsHave_of_forall balanced ?_ ?_ innerHas
  · cases last : (before.map Cell.ofCode).getLast? with
    | none => exact begins
    | some cell =>
        obtain ⟨char, member, rfl⟩ := List.mem_map.1 (List.mem_of_getLast? last)
        exact (standsApart_of_isWhiteSpace (beforeBlank char member)).1
  · intro cell isFirst
    cases behind with
    | nil => exact ends cell isFirst
    | cons char others =>
        obtain rfl := Option.some.inj isFirst
        exact (standsApart_of_isWhiteSpace (behindBlank char List.mem_cons_self)).2

/-- The two arguments of a colour in its text, with white space around and a comma between. -/
structure AlphaParts (arguments color alpha : Text) where
  /-- The white space in front of the colour. -/
  colorLead : Text
  /-- The white space behind the colour. -/
  colorTail : Text
  /-- The white space in front of the alpha value. -/
  alphaLead : Text
  /-- The white space behind the alpha value. -/
  alphaTail : Text
  /-- The comma between them. -/
  comma : Cell
  isComma : comma.isCode ',' = true
  colorBlank : ∀ char ∈ colorLead ++ colorTail, isWhiteSpace char = true
  alphaBlank : ∀ char ∈ alphaLead ++ alphaTail, isWhiteSpace char = true
  colorClosed : IsClosed color
  alphaClosed : IsClosed alpha
  cells_eq : cells arguments =
    (colorLead.map .ofCode ++ (cells color ++ colorTail.map .ofCode)) ++
      comma :: (alphaLead.map .ofCode ++ (cells alpha ++ alphaTail.map .ofCode))

namespace AlphaParts

variable {arguments color alpha : Text}

/-- The closed arguments of a colour have such parts. -/
theorem nonempty_of_alphaArguments?
    {call : Call}
    (closed : IsClosed call.arguments)
    (isPair : alphaArguments? call = some (color, alpha)) :
    Nonempty (AlphaParts call.arguments color alpha) := by
  have trimmed := splitTopLevel_of_alphaArguments?_eq_some isPair
  obtain ⟨first, others, pieces, rfl, restTrimmed⟩ := List.map_eq_cons_iff.1 trimmed
  obtain ⟨second, rest, rfl, rfl, noMore⟩ := List.map_eq_cons_iff.1 restTrimmed
  obtain rfl := List.map_eq_nil_iff.1 noMore
  have reads : ReadsAs call.arguments (cells call.arguments) := ⟨closed, rfl⟩
  obtain ⟨front, comma, back, whole, isComma, firstReads, secondReads⟩ := reads.pieces pieces
  obtain ⟨colorLead, colorTail, _, rfl, colorBlank, colorClosed, rfl⟩ := firstReads.trim
  obtain ⟨alphaLead, alphaTail, _, rfl, alphaBlank, alphaClosed, rfl⟩ := secondReads.trim
  exact ⟨⟨colorLead, colorTail, alphaLead, alphaTail, comma, isComma, colorBlank, alphaBlank,
    colorClosed, alphaClosed, whole⟩⟩

/-- What holds of all calls in the arguments holds of those in each of the two. -/
theorem callsHave
    {property : Text → Text → Prop}
    {start : Nat}
    {behind : List Cell}
    (parts : AlphaParts arguments color alpha)
    (all : ∀ inner ∈ callsWithin start (some (.ofCode '(')) (cells arguments)
        (.ofCode ')' :: behind), property inner.name inner.arguments) :
    CallsHave property (cells color) ∧ CallsHave property (cells alpha) := by
  rw [parts.cells_eq, callsWithin_append, List.forall_mem_append, callsWithin,
    List.forall_mem_append] at all
  obtain ⟨colorHas, -, alphaHas⟩ := all
  have gap : mayStartCall (some parts.comma) = true ∧
      parts.comma.isCodeName = false ∧ parts.comma.isCode '(' = false := by
    rw [Cell.eq_of_isCode parts.isComma]
    exact ⟨rfl, rfl, rfl⟩
  constructor
  · exact callsHave_of_trimmed parts.colorBlank parts.colorClosed.isBalanced rfl
      (endsNames_cons gap.2 _) colorHas
  · exact callsHave_of_trimmed parts.alphaBlank parts.alphaClosed.isBalanced gap.1
      (endsNames_cons ⟨rfl, rfl⟩ behind) alphaHas

/-- The channel form of a colour is closed. -/
theorem readsAs_channelArguments
    (parts : AlphaParts arguments color alpha)
    (name : Text) :
    ReadsAs (channelArguments (channels name) color alpha)
      (channelCells (channels name) (cells color) (cells alpha)) :=
  Lowering.readsAs_channelArguments
    (fun channel member => (channels_named name channel member).2.1)
    ⟨parts.colorClosed, rfl⟩ ⟨parts.alphaClosed, rfl⟩

end AlphaParts

/-! ## One step -/

/-- The last colour of a text has no colour behind its start. -/
theorem exists_split_of_getLast?_alphaCalls
    {source : Text}
    {call : Call}
    (last : (alphaCalls source).getLast? = some call) :
    ∃ front back,
      calls source = front ++ call :: back ∧ isAlphaColor call = true ∧
        ∀ other ∈ back, isAlphaColor other = false := by
  obtain ⟨others, split⟩ := List.getLast?_eq_some_iff.1 last
  rw [alphaCalls_eq_filter, List.filter_eq_append_iff] at split
  obtain ⟨front, rest, whole, -, restFilter⟩ := split
  obtain ⟨between, back, rfl, -, isColor, backFilter⟩ := List.filter_eq_cons_iff.1 restFilter
  refine ⟨front ++ between, back, by rw [whole, List.append_assoc], isColor, ?_⟩
  simpa using List.filter_eq_nil_iff.1 backFilter

/-- The calls from a closed call on are this call and those in its arguments and behind it. -/
theorem callsFrom_callCells_append
    {name : Text}
    {arguments : List Cell}
    {before : Option Cell}
    (named : ∀ char ∈ name, isNameChar char = true)
    (nonempty : name ≠ [])
    (balanced : IsBalanced arguments)
    (begins : mayStartCall before = true)
    (start : Nat)
    (behind : List Cell) :
    callsFrom start before (callCells name arguments ++ behind) =
      ⟨start, name, chars arguments⟩ ::
        (callsWithin (start + name.length + 1) (some (.ofCode '(')) arguments
            (.ofCode ')' :: behind) ++
          callsFrom (start + (callCells name arguments).length) (some (.ofCode ')')) behind) := by
  have last : (callCells name arguments).getLast? = some (.ofCode ')') := by
    rw [callCells, ← List.cons_append, ← List.append_assoc, List.getLast?_concat]
  rw [callsFrom_append, last]
  nth_rewrite 1 [callCells]
  rw [callsWithin_call (isCodeName_of_mem_map_ofCode named) (by simpa using nonempty) rfl
    balanced rfl, if_pos begins, List.length_map, chars_map_ofCode]
  rfl

/-- The place of the last colour with an alpha value in a text with closed colours. -/
structure IsLastColor (source : Text) (call : Call) (ahead behind : List Cell) : Prop where
  named : ∀ char ∈ call.name, isNameChar char = true
  nonempty : call.name ≠ []
  begins : mayStartCall ahead.getLast? = true
  start_eq : call.start = ahead.length
  closed : IsClosed call.arguments
  cells_eq : cells source =
    ahead ++ (callCells call.name (cells call.arguments) ++ behind)
  /-- What stands around is read the same for other closed arguments. -/
  exchange : ∀ {other : Text} {otherCells : List Cell}, ReadsAs other otherCells →
    cells (chars ahead ++ (callText call.name other ++ chars behind)) =
      ahead ++ (callCells call.name otherCells ++ behind)
  /-- No call behind the beginning of the last colour is a colour to expand. -/
  settled : ∀ other ∈ callsWithin (ahead.length + call.name.length + 1) (some (.ofCode '('))
        (cells call.arguments) (.ofCode ')' :: behind) ++
      callsFrom (ahead.length + (callCells call.name (cells call.arguments)).length)
        (some (.ofCode ')')) behind,
    IsSettled other.name other.arguments
  length_alphaCalls : (alphaCalls source).length =
    (callsWithin 0 none ahead
      (callCells call.name (cells call.arguments) ++ behind)).countP isAlphaColor + 1

theorem exists_isLastColor
    {source : Text}
    {call : Call}
    (closed : HasClosedColors source)
    (last : (alphaCalls source).getLast? = some call) :
    ∃ ahead behind, IsLastColor source call ahead behind := by
  obtain ⟨front, back, callsSplit, isColor, backIdle⟩ := exists_split_of_getLast?_alphaCalls last
  obtain ⟨ahead, cell, others, cellsSplit, frontCalls, found⟩ :=
    exists_split_of_callsFrom_eq_append_cons callsSplit
  rw [Nat.zero_add, Option.or_none] at found
  obtain ⟨begins, startsName, nonempty, named⟩ := begins_of_callAt?_eq_some found
  obtain ⟨rest, text⟩ := text_isPrefix_of_callAt?_eq_some found
  have allClosed : ∀ other ∈ calls source, other.isNamed ["rgba", "hsla"] = true →
      IsClosed other.arguments :=
    fun other member isColor => closed other (List.mem_filter.2 ⟨member, isColor⟩)
  have callClosed : IsClosed call.arguments := by
    rw [isAlphaColor, Bool.and_eq_true] at isColor
    exact allClosed call (by simp [callsSplit]) isColor.2
  have whole : Mode.initial.cells (chars ahead ++ chars (cell :: others)) =
      ahead ++ cell :: others := by
    rw [← chars_append, ← cellsSplit, chars_cells]
    rfl
  obtain ⟨behind, split, rfl, exchange⟩ :=
    Mode.exists_exchange whole startsName text.symm named nonempty ⟨callClosed, rfl⟩
  rw [split] at cellsSplit frontCalls
  refine ⟨ahead, behind, named, nonempty, begins, start_of_callAt?_eq_some found, callClosed,
    cellsSplit, fun reads => (exchange reads).1, ?_, ?_⟩
  · have parts := callsSplit
    rw [calls, cellsSplit, callsFrom_append, frontCalls, Nat.zero_add, Option.or_none,
      callsFrom_callCells_append named nonempty callClosed.isBalanced begins] at parts
    obtain ⟨-, backSplit⟩ := List.cons.inj (List.append_cancel_left parts)
    rw [backSplit]
    intro other member
    refine isSettled_iff.2 ⟨allClosed other ?_, backIdle other member⟩
    rw [callsSplit]
    exact List.mem_append_right _ (List.mem_cons_of_mem _ member)
  · have backCount : back.countP isAlphaColor = 0 := by
      simpa [List.countP_eq_zero] using backIdle
    rw [alphaCalls_eq_filter, ← List.countP_eq_length_filter, callsSplit, List.countP_append,
      List.countP_cons_of_pos isColor, backCount, frontCalls]

namespace IsLastColor

variable {source : Text} {call : Call} {ahead behind : List Cell}

theorem source_eq
    (place : IsLastColor source call ahead behind) :
    source = chars ahead ++ (callText call.name call.arguments ++ chars behind) := by
  have whole := congrArg chars place.cells_eq
  rwa [chars_cells, chars_append, chars_append, chars_callCells, chars_cells] at whole

/-- Writing other text for the last colour keeps what stands around. -/
theorem take_append_drop
    (place : IsLastColor source call ahead behind)
    (text : Text) :
    source.take call.start ++ text ++ source.drop (call.closing + 1) =
      chars ahead ++ (text ++ chars behind) := by
  have front : source.take call.start = chars ahead := by
    rw [place.source_eq, place.start_eq, ← length_chars ahead, List.take_left]
  have length : call.closing + 1 =
      (chars ahead).length + (callText call.name call.arguments).length := by
    simp [Call.closing, Call.opening, callText, place.start_eq]
    omega
  have back : source.drop (call.closing + 1) = chars behind := by
    rw [place.source_eq, length, ← List.drop_drop, List.drop_left, List.drop_left]
  rw [front, back, List.append_assoc]

/-- Calls that begin before the colour can hold it in their arguments. -/
theorem rewritten
    {other : Text}
    {otherCells : List Cell}
    (place : IsLastColor source call ahead behind)
    (reads : ReadsAs other otherCells) :
    List.Forall₂ (Rewritten (cells source) (callCells call.name (cells call.arguments))
        (callCells call.name otherCells))
      (callsWithin 0 none ahead (callCells call.name (cells call.arguments) ++ behind))
      (callsWithin 0 none ahead (callCells call.name otherCells ++ behind)) := by
  have callReads : ReadsAs call.arguments (cells call.arguments) := ⟨place.closed, rfl⟩
  have lastEnds : ∀ cell, ahead.getLast? = some cell → cell.isCodeName = false := by
    intro cell isLast
    have begins := place.begins
    rw [isLast, mayStartCall, Bool.and_eq_true, Bool.not_eq_true'] at begins
    exact begins.1
  have whole : cells source =
      [] ++ (ahead ++ (callCells call.name (cells call.arguments) ++ behind)) := place.cells_eq
  exact forall₂_rewritten whole (callReads.call place.named).isBalanced
    (reads.call place.named).isBalanced lastEnds 0 none

/-- From the colour on there are its own call, the calls in its arguments and those behind. -/
theorem calls_eq
    {other : Text}
    {otherCells : List Cell}
    (place : IsLastColor source call ahead behind)
    (reads : ReadsAs other otherCells) :
    calls (chars ahead ++ (callText call.name other ++ chars behind)) =
      callsWithin 0 none ahead (callCells call.name otherCells ++ behind) ++
        ⟨ahead.length, call.name, chars otherCells⟩ ::
          (callsWithin (ahead.length + call.name.length + 1) (some (.ofCode '(')) otherCells
              (.ofCode ')' :: behind) ++
            callsFrom (ahead.length + (callCells call.name otherCells).length)
              (some (.ofCode ')')) behind) := by
  rw [calls, place.exchange reads, callsFrom_append, Nat.zero_add, Option.or_none,
    callsFrom_callCells_append place.named place.nonempty reads.isBalanced place.begins]

/-- With settled arguments in its place, no colour to expand is left from the last one on. -/
theorem hasClosedColors_and_length_alphaCalls
    {other : Text}
    {otherCells : List Cell}
    (place : IsLastColor source call ahead behind)
    (closed : HasClosedColors source)
    (reads : ReadsAs other otherCells)
    (idle : IsSettled call.name other)
    (inside : CallsHave IsSettled otherCells) :
    HasClosedColors (chars ahead ++ (callText call.name other ++ chars behind)) ∧
      (alphaCalls (chars ahead ++ (callText call.name other ++ chars behind))).length + 1 =
        (alphaCalls source).length := by
  have callReads : ReadsAs call.arguments (cells call.arguments) := ⟨place.closed, rfl⟩
  have frontClosed : ∀ inner ∈ callsWithin 0 none ahead
      (callCells call.name (cells call.arguments) ++ behind),
      inner.isNamed ["rgba", "hsla"] = true → IsClosed inner.arguments := by
    intro inner member isColor
    refine closed inner (List.mem_filter.2 ⟨?_, isColor⟩)
    rw [calls, place.cells_eq, callsFrom_append]
    exact List.mem_append_left _ member
  obtain ⟨nextClosed, sameCount⟩ := forall_isClosed_and_countP_eq place.named place.nonempty
    callReads reads (place.rewritten reads) frontClosed
  have behindSettled := (List.forall_mem_append.1 place.settled).2
  rw [← callsWithin_nil] at behindSettled
  have restSettled : ∀ inner ∈ (⟨ahead.length, call.name, chars otherCells⟩ : Call) ::
      (callsWithin (ahead.length + call.name.length + 1) (some (.ofCode '(')) otherCells
          (.ofCode ')' :: behind) ++
        callsFrom (ahead.length + (callCells call.name otherCells).length)
          (some (.ofCode ')')) behind),
      IsSettled inner.name inner.arguments := by
    rw [List.forall_mem_cons, List.forall_mem_append, ← callsWithin_nil, reads.chars_eq]
    exact ⟨idle, inside _ _ _ rfl (endsNames_cons ⟨rfl, rfl⟩ behind),
      forall_mem_callsWithin behindSettled _⟩
  constructor
  · intro inner member
    obtain ⟨member, isColor⟩ := List.mem_filter.1 member
    rw [place.calls_eq reads] at member
    obtain member | member := List.mem_append.1 member
    · exact nextClosed inner member isColor
    · exact (isSettled_iff.1 (restSettled inner member)).1 isColor
  · have restCount := List.countP_eq_zero.2 fun inner member =>
      Bool.eq_false_iff.1 (isSettled_iff.1 (restSettled inner member)).2
    rw [place.length_alphaCalls, alphaCalls_eq_filter, ← List.countP_eq_length_filter,
      place.calls_eq reads, List.countP_append, sameCount, restCount]

end IsLastColor

/-- Expanding its last colour leaves a text with closed colours one colour less to expand. -/
theorem HasClosedColors.of_expandLastAlpha?_eq_some
    {source next : Text}
    (closed : HasClosedColors source)
    (step : expandLastAlpha? source = some next) :
    HasClosedColors next ∧ (alphaCalls next).length + 1 = (alphaCalls source).length := by
  unfold expandLastAlpha? at step
  simp only [Option.bind_eq_bind, Option.bind_eq_some_iff] at step
  obtain ⟨call, last, ⟨color, alpha⟩, arguments, step⟩ := step
  obtain rfl := Option.some.inj step
  obtain ⟨ahead, behind, place⟩ := exists_isLastColor closed last
  obtain ⟨insideSettled, behindSettled⟩ := List.forall_mem_append.1 place.settled
  obtain ⟨parts⟩ := AlphaParts.nonempty_of_alphaArguments? place.closed arguments
  obtain ⟨colorSettled, alphaSettled⟩ := parts.callsHave insideSettled
  have named := channels_named call.name
  have reads := parts.readsAs_channelArguments call.name
  rw [channelForm_eq_callText, place.take_append_drop]
  refine place.hasClosedColors_and_length_alphaCalls closed reads (fun _ => ⟨reads.1, ?_⟩)
    (callsHave_channelCells (fun channel member => ?_) parts.colorClosed.isBalanced colorSettled
      alphaSettled)
  case refine_2 =>
    obtain ⟨nonempty, nameChars, noColor⟩ := named channel member
    exact ⟨nonempty, nameChars, fun _ isColor => absurd isColor (Bool.eq_false_iff.1 noColor)⟩
  -- The channel form has four arguments, so it is no colour to expand.
  have manyPieces := length_lt_length_splitCells_channelCells (channels call.name)
    (fun channel member => (named channel member).2.1) parts.colorClosed.isBalanced (cells alpha)
  rw [isSome_alphaArguments?, splitTopLevel, reads.2, beq_eq_false_iff_ne]
  intro twoPieces
  have lengths := congrArg List.length twoPieces
  rw [List.length_map, List.length_map, List.length_cons, List.length_cons, List.length_nil]
    at lengths
  rw [length_channels] at manyPieces
  omega

/-! ## All steps -/

/-- The text with its last colour expanded so many times; nothing if there are not as many. -/
def expandedTimes? : Nat → Text → Option Text
  | 0, source => some source
  | count + 1, source => (expandLastAlpha? source).bind (expandedTimes? count)

theorem alphaCalls_eq_nil_iff
    {source : Text} :
    alphaCalls source = [] ↔ HasNoAlphaColor source := by
  simp [alphaCalls, HasNoAlphaColor]

/-- No expanded text has a colour to expand. -/
theorem alphaCalls_eq_nil_of_expandColorAlpha?_eq_some
    {source result : Text}
    (expands : expandColorAlpha? source = some result) :
    alphaCalls result = [] := by
  apply expansion_induction (motive := fun _ result => alphaCalls result = []) ?_ ?_ expands
  · intro source idle
    exact alphaCalls_eq_nil_iff.2 idle
  · intro source next result _ idle
    exact idle

theorem exists_expandLastAlpha?_eq_some
    {source : Text}
    (colored : alphaCalls source ≠ []) :
    ∃ next, expandLastAlpha? source = some next := by
  apply Option.ne_none_iff_exists'.1
  intro settled
  exact colored (alphaCalls_eq_nil_iff.2 ((expandLastAlpha?_eq_none_iff source).1 settled))

/-- Every step up to the number of colours takes one of them away. -/
theorem HasClosedColors.exists_expandedTimes?_eq_some
    {source : Text}
    (closed : HasClosedColors source)
    {count : Nat}
    (few : count ≤ (alphaCalls source).length) :
    ∃ text, expandedTimes? count source = some text ∧ HasClosedColors text ∧
      (alphaCalls text).length + count = (alphaCalls source).length := by
  induction count generalizing source with
  | zero => exact ⟨source, rfl, closed, rfl⟩
  | succ count inductionHypothesis =>
      obtain ⟨next, step⟩ := exists_expandLastAlpha?_eq_some
        (List.length_pos_iff.1 (Nat.lt_of_lt_of_le (Nat.succ_pos count) few))
      obtain ⟨nextClosed, fewer⟩ := closed.of_expandLastAlpha?_eq_some step
      obtain ⟨text, steps, textClosed, remaining⟩ := inductionHypothesis nextClosed (by omega)
      refine ⟨text, ?_, textClosed, by omega⟩
      rw [expandedTimes?, step, Option.bind_some, steps]

/-- An expansion goes on from what some of its steps give. -/
theorem expandColorAlpha?_eq_of_expandedTimes?_eq_some
    {count : Nat}
    {source text : Text}
    (steps : expandedTimes? count source = some text) :
    expandColorAlpha? source = expandColorAlpha? text := by
  induction count generalizing source with
  | zero => rw [Option.some.inj steps]
  | succ count inductionHypothesis =>
      obtain ⟨next, step, restSteps⟩ := Option.bind_eq_some_iff.1 steps
      rw [expandColorAlpha?_of_expandLastAlpha?_eq_some step, inductionHypothesis restSteps]

/--
No expanded text has a colour to expand.  If the arguments of all colour
functions are closed, every step of the expansion leaves one colour less to
expand, and the expansion ends after as many steps as there are colours.
-/
theorem expandColorAlpha?_takes_a_step_for_each_color
    (source : Text) :
    (∀ result, expandColorAlpha? source = some result → alphaCalls result = []) ∧
      (HasClosedColors source →
        (∀ count ≤ (alphaCalls source).length,
          ∃ text, expandedTimes? count source = some text ∧ HasClosedColors text ∧
            (alphaCalls text).length + count = (alphaCalls source).length) ∧
          ∃ result, expandedTimes? (alphaCalls source).length source = some result ∧
            expandColorAlpha? source = some result) := by
  refine ⟨fun result => alphaCalls_eq_nil_of_expandColorAlpha?_eq_some, fun closed => ?_⟩
  refine ⟨fun count => closed.exists_expandedTimes?_eq_some, ?_⟩
  obtain ⟨result, steps, -, remaining⟩ := closed.exists_expandedTimes?_eq_some (Nat.le_refl _)
  refine ⟨result, steps, ?_⟩
  have idle : HasNoAlphaColor result :=
    alphaCalls_eq_nil_iff.1 (List.eq_nil_of_length_eq_zero (by omega))
  rw [expandColorAlpha?_eq_of_expandedTimes?_eq_some steps, expandColorAlpha?_eq_self idle]

theorem expandColorAlpha?_takes_a_step_for_each_color_sample :
    let source := "rgba(hsla(@a, .5), 20%)".toList
    let inner := "hsla(hue(@a), saturation(@a), lightness(@a), .5)".toList
    let result := "rgba(red(" ++ inner ++ "), green(" ++ inner ++ "), blue(" ++ inner ++ "), 20%)"
    HasClosedColors source ∧ (alphaCalls source).length = 2 ∧
      expandedTimes? 2 source = some result ∧ expandColorAlpha? source = some result ∧
        alphaCalls result = [] := by
  intro source inner result
  have closed : HasClosedColors source := by decide +kernel
  have twoColors : (alphaCalls source).length = 2 := by decide +kernel
  have twoSteps : expandedTimes? 2 source = some result := by decide +kernel
  obtain ⟨idle, whenClosed⟩ := expandColorAlpha?_takes_a_step_for_each_color source
  obtain ⟨-, last, steps, expands⟩ := whenClosed closed
  rw [twoColors, twoSteps] at steps
  rw [← Option.some.inj steps] at expands
  exact ⟨closed, twoColors, twoSteps, expands, idle result expands⟩

/--
Trimming takes away the line end behind which the outer call is read anew, so
one colour to expand is left where there was one.
-/
theorem length_alphaCalls_after_a_step_sample :
    let source := "rgba(//rgba(x\n, y), z\n, w)".toList
    let next := "rgba(//rgba(red(x), green(x), blue(x), y), z\n, w)".toList
    (alphaCalls source).length = 1 ∧ expandLastAlpha? source = some next ∧
      (alphaCalls next).length = 1 := by
  decide +kernel

end Lowering
end LessTheme
