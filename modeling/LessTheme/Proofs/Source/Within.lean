import LessTheme.Proofs.Source.Nesting
import LessTheme.Source.Call
import Mathlib.Data.List.Forall2
import Mathlib.Data.List.TakeWhile

/-!
# Calls within a part of a text

The calls of a text that is joined from parts are those that begin in one of
the parts.  Within balanced cells the calls do not depend on what stands
around; a call that begins before balanced cells either ends before them or
holds them in its arguments.
-/

namespace LessTheme
namespace Source

/-- The calls that begin among some cells, given the cells behind them. -/
def callsWithin (start : Nat) (before : Option Cell) : List Cell → List Cell → List Call
  | [], _ => []
  | cell :: rest, behind =>
      (callAt? start before (cell :: rest ++ behind)).toList ++
        callsWithin (start + 1) (some cell) rest behind

theorem callsWithin_append
    (start : Nat)
    (before : Option Cell)
    (front back behind : List Cell) :
    callsWithin start before (front ++ back) behind =
      callsWithin start before front (back ++ behind) ++
        callsWithin (start + front.length) (front.getLast?.or before) back behind := by
  induction front generalizing start before with
  | nil => rfl
  | cons cell rest inductionHypothesis =>
      rw [List.cons_append, callsWithin, inductionHypothesis, callsWithin, List.append_assoc,
        List.cons_append, List.append_assoc, List.length_cons, ← Nat.add_assoc,
        Nat.add_right_comm, getLast?_cons_or]
      rfl

theorem callsWithin_nil
    (start : Nat)
    (before : Option Cell)
    (cells : List Cell) :
    callsWithin start before cells [] = callsFrom start before cells := by
  induction cells generalizing start before with
  | nil => rfl
  | cons cell rest inductionHypothesis =>
      rw [callsWithin, callsFrom, inductionHypothesis, List.append_nil]

/-- The calls of joined cells are those that begin in either part. -/
theorem callsFrom_append
    (start : Nat)
    (before : Option Cell)
    (front back : List Cell) :
    callsFrom start before (front ++ back) =
      callsWithin start before front back ++
        callsFrom (start + front.length) (front.getLast?.or before) back := by
  rw [← callsWithin_nil, callsWithin_append, List.append_nil, callsWithin_nil]

/-- The calls in front of one are those that begin in front of its cells. -/
theorem exists_split_of_callsFrom_eq_append_cons
    {start : Nat}
    {before : Option Cell}
    {cells : List Cell}
    {front back : List Call}
    {call : Call}
    (split : callsFrom start before cells = front ++ call :: back) :
    ∃ ahead cell behind,
      cells = ahead ++ cell :: behind ∧
        callsWithin start before ahead (cell :: behind) = front ∧
          callAt? (start + ahead.length) (ahead.getLast?.or before) (cell :: behind) =
            some call := by
  induction cells generalizing start before front with
  | nil => simp [callsFrom] at split
  | cons cell rest inductionHypothesis =>
      rw [callsFrom] at split
      have further : ∀ {others : List Call},
          callsFrom (start + 1) (some cell) rest = others ++ call :: back →
            ∃ ahead next behind,
              cell :: rest = ahead ++ next :: behind ∧
                callsWithin start before ahead (next :: behind) =
                    (callAt? start before (cell :: rest)).toList ++ others ∧
                  callAt? (start + ahead.length) (ahead.getLast?.or before) (next :: behind) =
                    some call := by
        intro others restSplit
        obtain ⟨ahead, next, behind, rfl, within, found⟩ := inductionHypothesis restSplit
        refine ⟨cell :: ahead, next, behind, rfl, by rw [callsWithin, within]; rfl, ?_⟩
        rwa [List.length_cons, ← Nat.add_assoc, Nat.add_right_comm, getLast?_cons_or]
      cases here : callAt? start before (cell :: rest) with
      | none =>
          rw [here] at split further
          exact further split
      | some first =>
          rw [here] at split further
          cases front with
          | nil =>
              obtain ⟨rfl, -⟩ := List.cons.inj split
              exact ⟨[], cell, rest, rfl, rfl, here⟩
          | cons other front =>
              obtain ⟨rfl, restSplit⟩ := List.cons.inj split
              exact further restSplit

/-! ## Where no call begins -/

theorem callAt?_eq_none_of_isCodeName_before
    {cell : Cell}
    (named : cell.isCodeName = true)
    (start : Nat)
    (cells : List Cell) :
    callAt? start (some cell) cells = none := by
  simp [callAt?, mayStartCall, named]

theorem callAt?_cons_eq_none
    {cell : Cell}
    (noName : cell.isCodeName = false)
    (start : Nat)
    (before : Option Cell)
    (cells : List Cell) :
    callAt? start before (cell :: cells) = none := by
  simp [callAt?, noName]

theorem callsWithin_of_isCodeName_before
    {before : Cell}
    {names : List Cell}
    (beforeNamed : before.isCodeName = true)
    (named : ∀ cell ∈ names, cell.isCodeName = true)
    (start : Nat)
    (behind : List Cell) :
    callsWithin start (some before) names behind = [] := by
  induction names generalizing start before with
  | nil => rfl
  | cons cell rest inductionHypothesis =>
      obtain ⟨here, others⟩ := List.forall_mem_cons.1 named
      rw [callsWithin, callAt?_eq_none_of_isCodeName_before beforeNamed,
        inductionHypothesis here others]
      rfl

theorem callsWithin_of_no_name
    {cells : List Cell}
    (noNames : ∀ cell ∈ cells, cell.isCodeName = false)
    (start : Nat)
    (before : Option Cell)
    (behind : List Cell) :
    callsWithin start before cells behind = [] := by
  induction cells generalizing start before with
  | nil => rfl
  | cons cell rest inductionHypothesis =>
      obtain ⟨here, others⟩ := List.forall_mem_cons.1 noNames
      rw [callsWithin, List.cons_append, callAt?_cons_eq_none here, inductionHypothesis others]
      rfl

/-! ## Calls that begin before some cells -/

/-- A name that does not reach the end of some cells is followed by a cell among them. -/
theorem callAt?_append
    {cells rest : List Cell}
    {opening : Cell}
    (behindName : cells.dropWhile Cell.isCodeName = opening :: rest)
    (start : Nat)
    (before : Option Cell)
    (behind : List Cell) :
    callAt? start before (cells ++ behind) =
      if mayStartCall before && !(cells.takeWhile Cell.isCodeName).isEmpty &&
          opening.isCode '(' then
        (enclosed? '(' ')' 0 (rest ++ behind)).map fun arguments =>
          ⟨start, chars (cells.takeWhile Cell.isCodeName), chars arguments⟩
      else none := by
  have sameName : (cells ++ behind).takeWhile Cell.isCodeName =
      cells.takeWhile Cell.isCodeName := by
    rw [List.takeWhile_append, if_neg]
    intro sameLength
    have whole := List.takeWhile_append_dropWhile (p := Cell.isCodeName) (l := cells)
    rw [behindName] at whole
    have lengths := congrArg List.length whole
    rw [List.length_append, sameLength, List.length_cons] at lengths
    omega
  have sameRest : (cells ++ behind).dropWhile Cell.isCodeName = opening :: (rest ++ behind) := by
    rw [List.dropWhile_append, behindName]
    rfl
  rw [callAt?, sameName, sameRest, delimited?]
  by_cases opens : opening.isCode '(' = true <;> simp [opens]

/-- A name right before some cells ends there and is not the name of a call. -/
def EndsNames (cells : List Cell) : Prop :=
  ∀ cell, cells.head? = some cell → cell.isCodeName = false ∧ cell.isCode '(' = false

theorem endsNames_cons
    {cell : Cell}
    (ends : cell.isCodeName = false ∧ cell.isCode '(' = false)
    (rest : List Cell) :
    EndsNames (cell :: rest) := by
  intro first isFirst
  obtain rfl := Option.some.inj isFirst
  exact ends

theorem callAt?_append_eq_none
    {names behind : List Cell}
    (named : ∀ cell ∈ names, cell.isCodeName = true)
    (ends : EndsNames behind)
    (start : Nat)
    (before : Option Cell) :
    callAt? start before (names ++ behind) = none := by
  have behindName : behind.dropWhile Cell.isCodeName = behind := by
    cases behind with
    | nil => rfl
    | cons cell rest => exact List.dropWhile_cons_of_neg (by simp [(ends cell rfl).1])
  have notDelimited : delimited? '(' ')' behind = none := by
    cases behind with
    | nil => rfl
    | cons cell rest => simp [delimited?, (ends cell rfl).2]
  rw [callAt?, List.dropWhile_append_of_pos named, behindName, notDelimited]
  simp

/-- No call begins among cells without an opening parenthesis, if the last name ends with them. -/
theorem callsWithin_of_no_opening
    {cells behind : List Cell}
    (noOpening : ∀ cell ∈ cells, cell.isCode '(' = false)
    (ends : EndsNames behind)
    (start : Nat)
    (before : Option Cell) :
    callsWithin start before cells behind = [] := by
  induction cells generalizing start before with
  | nil => rfl
  | cons cell rest inductionHypothesis =>
      have noCall : callAt? start before (cell :: rest ++ behind) = none := by
        cases behindName : (cell :: rest).dropWhile Cell.isCodeName with
        | nil => exact callAt?_append_eq_none (List.dropWhile_eq_nil_iff.1 behindName) ends _ _
        | cons opening others =>
            have member : opening ∈ cell :: rest :=
              List.dropWhile_subset _ (behindName ▸ List.mem_cons_self)
            rw [callAt?_append behindName, noOpening opening member, Bool.and_false]
            rfl
      rw [callsWithin, noCall, inductionHypothesis (List.forall_mem_cons.1 noOpening).2]
      rfl

/-- A call within balanced cells does not depend on what stands behind them. -/
theorem callAt?_append_eq
    {nesting : Nesting}
    {cells behind other : List Cell}
    (run : nesting.behind? cells = some .flat)
    (behindEnds : EndsNames behind)
    (otherEnds : EndsNames other)
    (start : Nat)
    (before : Option Cell) :
    callAt? start before (cells ++ behind) = callAt? start before (cells ++ other) := by
  cases behindName : cells.dropWhile Cell.isCodeName with
  | nil =>
      rw [List.dropWhile_eq_nil_iff] at behindName
      rw [callAt?_append_eq_none behindName behindEnds,
        callAt?_append_eq_none behindName otherEnds]
  | cons opening rest =>
      rw [callAt?_append behindName, callAt?_append behindName]
      by_cases opens : opening.isCode '(' = true
      · rw [← List.takeWhile_append_dropWhile (p := Cell.isCodeName) (l := cells), behindName,
          Nesting.behind?_append] at run
        obtain ⟨between, -, restRun⟩ := Option.bind_eq_some_iff.1 run
        obtain ⟨inside, step, innerRun⟩ := Nesting.exists_step_of_behind?_cons restRun
        have falls : Nesting.flat.parentheses + 0 < inside.parentheses := by
          rw [step.parentheses_eq_of_isCode opens]
          exact Nat.succ_pos _
        obtain ⟨inner, enclosed⟩ := Nesting.exists_enclosed?_append_eq_some innerRun falls
        rw [enclosed, enclosed]
      · simp [opens]

theorem callsWithin_eq
    {nesting : Nesting}
    {cells behind other : List Cell}
    (run : nesting.behind? cells = some .flat)
    (behindEnds : EndsNames behind)
    (otherEnds : EndsNames other)
    (start : Nat)
    (before : Option Cell) :
    callsWithin start before cells behind = callsWithin start before cells other := by
  induction cells generalizing nesting start before with
  | nil => rfl
  | cons cell rest inductionHypothesis =>
      obtain ⟨next, -, restRun⟩ := Nesting.exists_step_of_behind?_cons run
      rw [callsWithin, callsWithin, callAt?_append_eq run behindEnds otherEnds,
        inductionHypothesis restRun]

/-- Calls have the same names and arguments wherever the cells stand. -/
theorem forall_mem_callsWithin
    {property : Text → Text → Prop}
    {start : Nat}
    {before : Option Cell}
    {cells behind : List Cell}
    (all : ∀ call ∈ callsWithin start before cells behind, property call.name call.arguments)
    (other : Nat) :
    ∀ call ∈ callsWithin other before cells behind, property call.name call.arguments := by
  induction cells generalizing start before other with
  | nil => nofun
  | cons cell rest inductionHypothesis =>
      rw [callsWithin, List.forall_mem_append] at all ⊢
      obtain ⟨here, others⟩ := all
      refine ⟨fun call found => ?_, inductionHypothesis others (other + 1)⟩
      rw [callAt?_eq_map_start, Option.mem_toList, Option.map_eq_some_iff] at found
      obtain ⟨call, found, rfl⟩ := found
      refine here { call with start := start } (Option.mem_toList.2 ?_)
      rw [callAt?_eq_map_start, found]
      rfl

/-- Calls within balanced cells do not depend on what stands around them. -/
theorem IsBalanced.forall_mem_callsWithin
    {property : Text → Text → Prop}
    {start : Nat}
    {before otherBefore : Option Cell}
    {cells behind otherBehind : List Cell}
    (balanced : IsBalanced cells)
    (sameStart : mayStartCall before = mayStartCall otherBefore)
    (behindEnds : EndsNames behind)
    (otherEnds : EndsNames otherBehind)
    (all : ∀ call ∈ callsWithin start before cells behind, property call.name call.arguments)
    (otherStart : Nat) :
    ∀ call ∈ callsWithin otherStart otherBefore cells otherBehind,
      property call.name call.arguments := by
  have sameBefore : callsWithin start before cells behind =
      callsWithin start otherBefore cells otherBehind := by
    rw [callsWithin_eq balanced behindEnds otherEnds]
    cases cells with
    | nil => rfl
    | cons cell rest => rw [callsWithin, callsWithin, callAt?, sameStart, ← callAt?]
  rw [sameBefore] at all
  exact Source.forall_mem_callsWithin all otherStart

/-! ## The cells of a call -/

/-- The cells of a call begin a call, and all others of them begin in its arguments. -/
theorem callsWithin_call
    {name arguments : List Cell}
    {opening closing : Cell}
    (named : ∀ cell ∈ name, cell.isCodeName = true)
    (nonempty : name ≠ [])
    (opens : opening.isCode '(' = true)
    (balanced : IsBalanced arguments)
    (closes : closing.isCode ')' = true)
    (start : Nat)
    (before : Option Cell)
    (behind : List Cell) :
    callsWithin start before (name ++ opening :: (arguments ++ [closing])) behind =
      (if mayStartCall before then [⟨start, chars name, chars arguments⟩] else []) ++
        callsWithin (start + name.length + 1) (some opening) arguments (closing :: behind) := by
  have noName : ∀ {cell : Cell} {char : Char}, cell.isCode char = true →
      isNameChar char = false → cell.isCodeName = false := by
    intro cell char isCode isNoNameChar
    rw [Cell.eq_of_isCode isCode, Cell.isCodeName, isNoNameChar, Bool.and_false]
  have openingNoName := noName opens (by decide)
  have closingNoName := noName closes (by decide)
  have behindName : (name ++ opening :: (arguments ++ [closing])).dropWhile Cell.isCodeName =
      opening :: (arguments ++ [closing]) := by
    rw [List.dropWhile_append_of_pos named, List.dropWhile_cons_of_neg (by simp [openingNoName])]
  have wholeName : (name ++ opening :: (arguments ++ [closing])).takeWhile Cell.isCodeName =
      name := by
    rw [List.takeWhile_append_of_pos named, List.takeWhile_cons_of_neg (by simp [openingNoName]),
      List.append_nil]
  have enclosed : enclosed? '(' ')' 0 (arguments ++ [closing] ++ behind) = some arguments := by
    rw [List.append_assoc, balanced.enclosed?_append, Cell.eq_of_isCode closes]
    simp [enclosed?, Cell.isCode]
  obtain ⟨first, others, rfl⟩ := List.exists_cons_of_ne_nil nonempty
  obtain ⟨firstNamed, othersNamed⟩ := List.forall_mem_cons.1 named
  have inName : callsWithin start before (first :: others)
      (opening :: (arguments ++ [closing]) ++ behind) =
        if mayStartCall before then [⟨start, chars (first :: others), chars arguments⟩]
        else [] := by
    rw [callsWithin, ← List.append_assoc, callAt?_append behindName, wholeName, enclosed,
      callsWithin_of_isCodeName_before firstNamed othersNamed]
    cases mayStartCall before <;> simp [opens]
  rw [callsWithin_append, inName, callsWithin, List.cons_append, callAt?_cons_eq_none openingNoName,
    callsWithin_append, callsWithin, List.cons_append, callAt?_cons_eq_none closingNoName]
  simp [callsWithin]

/-! ## Calls around some cells -/

/-- Cells at the front end what is enclosed, or they leave some delimiters open. -/
theorem enclosed?_append_cases
    (opening closing : Char)
    (depth : Nat)
    (front : List Cell) :
    (∃ inner, ∀ rest, enclosed? opening closing depth (front ++ rest) = some inner) ∨
      ∃ further, ∀ rest, enclosed? opening closing depth (front ++ rest) =
        (enclosed? opening closing further rest).map (front ++ ·) := by
  induction front generalizing depth with
  | nil => exact Or.inr ⟨depth, fun _ => by simp⟩
  | cons cell others inductionHypothesis =>
      have deeper : ∀ next,
          (∀ rest, enclosed? opening closing depth (cell :: rest) =
            (enclosed? opening closing next rest).map (cell :: ·)) →
          (∃ inner, ∀ rest,
              enclosed? opening closing depth (cell :: others ++ rest) = some inner) ∨
            ∃ further, ∀ rest, enclosed? opening closing depth (cell :: others ++ rest) =
              (enclosed? opening closing further rest).map (cell :: others ++ ·) := by
        intro next passes
        obtain ⟨inner, ended⟩ | ⟨further, goesOn⟩ := inductionHypothesis next
        · exact Or.inl ⟨cell :: inner, fun rest => by rw [List.cons_append, passes, ended]; rfl⟩
        · refine Or.inr ⟨further, fun rest => ?_⟩
          rw [List.cons_append, passes, goesOn, Option.map_map]
          rfl
      by_cases isOpening : cell.isCode opening = true
      · exact deeper (depth + 1) fun rest => by rw [enclosed?.eq_def]; simp [isOpening]
      · by_cases isClosing : cell.isCode closing = true
        · cases depth with
          | zero =>
              refine Or.inl ⟨[], fun rest => ?_⟩
              rw [List.cons_append, enclosed?.eq_def]
              simp [isOpening, isClosing]
          | succ outer =>
              exact deeper outer fun rest => by rw [enclosed?.eq_def]; simp [isOpening, isClosing]
        · exact deeper depth fun rest => Nesting.enclosed?_cons_of_isCode_eq_false
            (Bool.eq_false_iff.2 isOpening) (Bool.eq_false_iff.2 isClosing) depth rest

/-- What becomes of a call if other cells are put in the place of some. -/
inductive Rewritten (cells middle other : List Cell) : Call → Call → Prop
  | same (call : Call) : Rewritten cells middle other call call
  | around {front before behind back : List Cell} {opening closing : Cell}
      (place : cells =
        front ++ opening :: ((before ++ (middle ++ behind)) ++ closing :: back))
      (opens : opening.isCode '(' = true)
      (closes : closing.isCode ')' = true)
      (start : Nat)
      (name : Text) :
      Rewritten cells middle other
        ⟨start, name, chars (before ++ (middle ++ behind))⟩
        ⟨start, name, chars (before ++ (other ++ behind))⟩

/-- A call is the same for other cells, or there is none, or the cells are in its arguments. -/
theorem callAt?_rewritten
    {cells front ahead middle other back : List Cell}
    (place : cells = front ++ (ahead ++ (middle ++ back)))
    (middleBalanced : IsBalanced middle)
    (otherBalanced : IsBalanced other)
    {last : Cell}
    (isLast : ahead.getLast? = some last)
    (ends : last.isCodeName = false)
    (start : Nat)
    (before : Option Cell) :
    List.Forall₂ (Rewritten cells middle other)
      (callAt? start before (ahead ++ (middle ++ back))).toList
      (callAt? start before (ahead ++ (other ++ back))).toList := by
  obtain ⟨opening, rest, behindName⟩ : ∃ opening rest,
      ahead.dropWhile Cell.isCodeName = opening :: rest := by
    apply List.exists_cons_of_ne_nil
    intro empty
    have named := List.dropWhile_eq_nil_iff.1 empty last (List.mem_of_getLast? isLast)
    simp [ends] at named
  rw [callAt?_append behindName, callAt?_append behindName]
  split
  case isFalse => exact .nil
  case isTrue begins =>
    obtain ⟨inner, ended⟩ | ⟨further, goesOn⟩ := enclosed?_append_cases '(' ')' 0 rest
    · rw [ended, ended]
      exact .cons (.same _) .nil
    · rw [goesOn, goesOn, middleBalanced.enclosed?_append, otherBalanced.enclosed?_append]
      cases enclosed : enclosed? '(' ')' further back with
      | none => exact .nil
      | some behind =>
          obtain ⟨closing, others, split, closes⟩ := exists_eq_append_of_enclosed?_eq_some enclosed
          have wholePlace : cells = front ++ ahead.takeWhile Cell.isCodeName ++
              opening :: ((rest ++ (middle ++ behind)) ++ closing :: others) := by
            have aheadSplit := List.takeWhile_append_dropWhile (p := Cell.isCodeName) (l := ahead)
            rw [behindName] at aheadSplit
            rw [place, split]
            nth_rewrite 1 [← aheadSplit]
            simp
          exact .cons (.around wholePlace (Bool.and_eq_true _ _ ▸ begins).2 closes start _) .nil

theorem forall₂_rewritten
    {cells front ahead middle other back : List Cell}
    (place : cells = front ++ (ahead ++ (middle ++ back)))
    (middleBalanced : IsBalanced middle)
    (otherBalanced : IsBalanced other)
    (lastEnds : ∀ cell, ahead.getLast? = some cell → cell.isCodeName = false)
    (start : Nat)
    (before : Option Cell) :
    List.Forall₂ (Rewritten cells middle other)
      (callsWithin start before ahead (middle ++ back))
      (callsWithin start before ahead (other ++ back)) := by
  induction ahead generalizing front start before with
  | nil => exact .nil
  | cons cell rest inductionHypothesis =>
      have lastOfRest : ∀ last, rest.getLast? = some last → last.isCodeName = false := by
        intro last isLast
        exact lastEnds last (by rw [List.getLast?_cons, isLast]; rfl)
      have restPlace : cells = (front ++ [cell]) ++ (rest ++ (middle ++ back)) := by
        rw [place]
        simp
      obtain ⟨last, isLast⟩ : ∃ last, (cell :: rest).getLast? = some last :=
        ⟨_, List.getLast?_cons⟩
      have here := callAt?_rewritten place middleBalanced otherBalanced isLast
        (lastEnds last isLast) start before
      exact List.rel_append here (inductionHypothesis restPlace lastOfRest (start + 1) (some cell))

end Source
end LessTheme
