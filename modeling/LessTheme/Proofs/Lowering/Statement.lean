import LessTheme.Proofs.Lowering.Growth
import LessTheme.Proofs.Source.Part
import Mathlib.Data.List.Chain

/-!
# The statements of a stylesheet

A statement reaches up to a semicolon or a brace that belongs to no
interpolation.  An interpolation `@{name}` that is closed is closed in the
statement that it begins in, so the cells of a statement are the same whatever
follows.  Only an `@{` that is not closed at all depends on it: its brace ends
the statement, and would not with a `}` behind.
-/

namespace LessTheme
namespace Lowering

open Source

/--
Cells in which no statement ends and every interpolation is closed; the flag
tells whether they begin inside of an interpolation.
-/
inductive Unstopped : Bool → List Cell → Prop
  | nil : Unstopped false []
  | inside {cell : Cell} {rest : List Cell}
      (further : Unstopped (cell.char != '}') rest) :
      Unstopped true (cell :: rest)
  | opening {cell brace : Cell} {rest : List Cell}
      (isAt : cell.isCode '@' = true)
      (isBrace : brace.char = '{')
      (further : Unstopped true (brace :: rest)) :
      Unstopped false (cell :: brace :: rest)
  | outside {cell : Cell} {rest : List Cell}
      (goesOn : endsStatement (cell, false) = false)
      (noOpening : cell.isCode '@' = true → rest.head?.map Cell.char ≠ some '{')
      (further : Unstopped false rest) :
      Unstopped false (cell :: rest)

/-- Whether a cell, followed by others, begins an interpolation that is closed. -/
def entersInterpolation (cell : Cell) (rest : List Cell) : Bool :=
  cell.isCode '@' && (rest.head?.map Cell.char == some '{') &&
    rest.any (fun next => next.char == '}')

theorem markInterpolations_false_cons
    (cell : Cell)
    (rest : List Cell) :
    markInterpolations false (cell :: rest) =
      (cell, false) :: markInterpolations (entersInterpolation cell rest) rest :=
  rfl

/-- If cells end in an at sign of code, a brace that follows begins no closed interpolation. -/
def StaysOpen (body rest : List Cell) : Prop :=
  body.getLast?.any (·.isCode '@') = true → rest.head?.map Cell.char = some '{' →
    rest.any (fun cell => cell.char == '}') = false

theorem staysOpen_nil_right (body : List Cell) : StaysOpen body [] := nofun

theorem staysOpen_nil_left (rest : List Cell) : StaysOpen [] rest := nofun

theorem StaysOpen.tail
    {cell : Cell}
    {body rest : List Cell}
    (staysOpen : StaysOpen (cell :: body) rest) :
    StaysOpen body rest := by
  intro endsInAt
  apply staysOpen
  cases body with
  | nil => contradiction
  | cons next others => rwa [List.getLast?_cons_cons]

theorem endsStatement_eq_false_of_isCode
    {cell : Cell}
    (isAt : cell.isCode '@' = true) :
    endsStatement (cell, false) = false := by
  simp [endsStatement, Cell.isCode, Cell.char_of_isCode isAt]

namespace Unstopped

variable {insideFirst : Bool} {body : List Cell}

theorem any_closes
    (unstopped : Unstopped insideFirst body)
    (isInside : insideFirst = true) :
    body.any (fun cell => cell.char == '}') = true := by
  induction unstopped with
  | nil | opening | outside => contradiction
  | @inside cell rest further inductionHypothesis =>
      rw [List.any_cons, Bool.or_eq_true]
      by_cases closes : cell.char = '}'
      · exact Or.inl (beq_iff_eq.2 closes)
      · exact Or.inr (inductionHypothesis (bne_iff_ne.2 closes))

theorem entersInterpolation_eq_true
    {cell brace : Cell}
    {rest : List Cell}
    (isAt : cell.isCode '@' = true)
    (isBrace : brace.char = '{')
    (further : Unstopped true (brace :: rest))
    (behind : List Cell) :
    entersInterpolation cell (brace :: rest ++ behind) = true := by
  rw [entersInterpolation, isAt, List.any_append, further.any_closes rfl]
  simp [isBrace]

theorem entersInterpolation_eq_false
    {cell : Cell}
    {rest behind : List Cell}
    (noOpening : cell.isCode '@' = true → rest.head?.map Cell.char ≠ some '{')
    (staysOpen : StaysOpen (cell :: rest) behind) :
    entersInterpolation cell (rest ++ behind) = false := by
  rw [entersInterpolation, Bool.and_assoc, Bool.and_eq_false_imp]
  intro isAt
  rw [Bool.and_eq_false_imp, beq_iff_eq]
  intro isBrace
  cases rest with
  | nil => exact staysOpen (by simpa using isAt) isBrace
  | cons next others => exact absurd isBrace (noOpening isAt)

/-- Behind cells with closed interpolations none is open. -/
theorem markInterpolations_append
    (unstopped : Unstopped insideFirst body)
    {rest : List Cell}
    (staysOpen : StaysOpen body rest) :
    markInterpolations insideFirst (body ++ rest) =
      markInterpolations insideFirst body ++ markInterpolations false rest := by
  induction unstopped with
  | nil => rfl
  | inside _ inductionHypothesis =>
      rw [List.cons_append, markInterpolations, inductionHypothesis staysOpen.tail]
      rfl
  | @opening cell brace others isAt isBrace further inductionHypothesis =>
      have enters := entersInterpolation_eq_true isAt isBrace further
      have entersAlone := enters []
      rw [List.append_nil] at entersAlone
      rw [List.cons_append, markInterpolations_false_cons, enters rest,
        inductionHypothesis staysOpen.tail, markInterpolations_false_cons, entersAlone]
      rfl
  | @outside cell others goesOn noOpening further inductionHypothesis =>
      have skipsAlone : entersInterpolation cell (others ++ []) = false :=
        entersInterpolation_eq_false noOpening (staysOpen_nil_right _)
      rw [List.append_nil] at skipsAlone
      rw [List.cons_append, markInterpolations_false_cons,
        entersInterpolation_eq_false noOpening staysOpen, inductionHypothesis staysOpen.tail,
        markInterpolations_false_cons, skipsAlone]
      rfl

theorem endsStatement_eq_false
    (unstopped : Unstopped insideFirst body) :
    ∀ marked ∈ markInterpolations insideFirst body, endsStatement marked = false := by
  induction unstopped with
  | nil => nofun
  | inside _ inductionHypothesis => exact List.forall_mem_cons.2 ⟨rfl, inductionHypothesis⟩
  | @opening cell brace others isAt isBrace further inductionHypothesis =>
      have enters := entersInterpolation_eq_true isAt isBrace further []
      rw [List.append_nil] at enters
      rw [markInterpolations_false_cons, enters]
      exact List.forall_mem_cons.2 ⟨endsStatement_eq_false_of_isCode isAt, inductionHypothesis⟩
  | @outside cell others goesOn noOpening further inductionHypothesis =>
      have skips : entersInterpolation cell (others ++ []) = false :=
        entersInterpolation_eq_false noOpening (staysOpen_nil_right _)
      rw [List.append_nil] at skips
      rw [markInterpolations_false_cons, skips]
      exact List.forall_mem_cons.2 ⟨goesOn, inductionHypothesis⟩

/-- Cells that neither end a statement nor begin an interpolation may stand in front. -/
theorem plain_append
    {front : List Cell}
    (plain : ∀ cell ∈ front, endsStatement (cell, false) = false ∧ cell.isCode '@' = false)
    (unstopped : Unstopped false body) :
    Unstopped false (front ++ body) := by
  induction front with
  | nil => exact unstopped
  | cons cell rest inductionHypothesis =>
      obtain ⟨⟨goesOn, noAt⟩, further⟩ := List.forall_mem_cons.1 plain
      exact .outside goesOn (fun isAt => absurd isAt (by simp [noAt])) (inductionHypothesis further)

/-- An interpolation goes on up to its closing brace. -/
theorem inside_append
    {front : List Cell}
    (noClosing : ∀ cell ∈ front, cell.char ≠ '}')
    (unstopped : Unstopped true body) :
    Unstopped true (front ++ body) := by
  induction front with
  | nil => exact unstopped
  | cons cell rest inductionHypothesis =>
      obtain ⟨here, further⟩ := List.forall_mem_cons.1 noClosing
      apply Unstopped.inside
      rw [bne_iff_ne.2 here]
      exact inductionHypothesis further

end Unstopped

/-! ## One statement after another -/

theorem statements_append_cons
    {front back : List (Cell × Bool)}
    {stop : Cell × Bool}
    (goesOn : ∀ marked ∈ front, endsStatement marked = false)
    (ends : endsStatement stop = true) :
    statements (front ++ stop :: back) = ⟨front.map Prod.fst, some stop.1⟩ :: statements back := by
  induction front with
  | nil => rw [List.nil_append, statements, if_pos ends, List.map_nil]
  | cons marked rest inductionHypothesis =>
      obtain ⟨here, further⟩ := List.forall_mem_cons.1 goesOn
      rw [List.cons_append, statements, if_neg (by simp [here]), inductionHypothesis further]
      rfl

/-- Cells that end no statement are at most one statement without an end. -/
theorem stop_eq_none_of_mem_statements
    {front : List (Cell × Bool)}
    (goesOn : ∀ marked ∈ front, endsStatement marked = false)
    {statement : Statement}
    (member : statement ∈ statements front) :
    statement.stop = none := by
  induction front generalizing statement with
  | nil => contradiction
  | cons marked rest inductionHypothesis =>
      obtain ⟨here, further⟩ := List.forall_mem_cons.1 goesOn
      have later : ∀ {statement}, statement ∈ statements rest → statement.stop = none :=
        inductionHypothesis further
      rw [statements, if_neg (by simp [here])] at member
      cases others : statements rest with
      | nil =>
          rw [others, extendFirst, List.mem_singleton] at member
          rw [member]
      | cons first others' =>
          rw [others, extendFirst] at member
          rw [others] at later
          obtain rfl | inRest := List.mem_cons.1 member
          · exact @later first List.mem_cons_self
          · exact later (List.mem_cons_of_mem _ inRest)

/-- A statement ends where it ends, whatever follows. -/
theorem Unstopped.statements_append_cons
    {body rest : List Cell}
    {stop : Cell}
    (unstopped : Unstopped false body)
    (ends : endsStatement (stop, false) = true)
    (staysOpen : StaysOpen body (stop :: rest)) :
    statements (markInterpolations false (body ++ stop :: rest)) =
      ⟨body, some stop⟩ :: statements (markInterpolations false rest) := by
  have noAt : entersInterpolation stop rest = false := by
    rw [entersInterpolation, Bool.and_assoc, Bool.and_eq_false_imp]
    intro isAt
    rw [endsStatement_eq_false_of_isCode isAt] at ends
    contradiction
  rw [unstopped.markInterpolations_append staysOpen, markInterpolations_false_cons, noAt,
    Lowering.statements_append_cons unstopped.endsStatement_eq_false ends,
    map_fst_markInterpolations]

/-! ## Statements of read cells -/

/-- Behind an at sign of code an opening brace stands as code. -/
def BracesStandAsCode (cells : List Cell) : Prop :=
  cells.IsChain fun cell next => cell.isCode '@' = true → next.char = '{' → next.isCode '{' = true

theorem bracesStandAsCode_cells
    (mode : Mode)
    (text : Text) :
    BracesStandAsCode (mode.cells text) := by
  induction text generalizing mode with
  | nil => exact .nil
  | cons char rest inductionHypothesis =>
      have further := inductionHypothesis (mode.read char rest.head?).2
      cases rest with
      | nil => exact .singleton _
      | cons next others =>
          refine List.IsChain.cons_cons (fun isAt isBrace => ?_) further
          rw [Mode.read_char] at isBrace
          subst isBrace
          rw [Cell.isCode, Bool.and_eq_true, beq_iff_eq] at isAt
          obtain ⟨depth, behind⟩ := (Mode.read_of_kind_eq_code isAt.1).2
          rw [behind]
          rfl

theorem StaysOpen.cons
    {cell : Cell}
    {body rest : List Cell}
    (alone : body = [] → StaysOpen [cell] rest)
    (staysOpen : StaysOpen body rest) :
    StaysOpen (cell :: body) rest := by
  cases body with
  | nil => exact alone rfl
  | cons next others =>
      intro endsInAt
      rw [List.getLast?_cons_cons] at endsInAt
      exact staysOpen endsInAt

/-- In front of cells that go on no at sign stands before a brace. -/
theorem Unstopped.head?_ne
    {body : List Cell}
    (unstopped : Unstopped false body)
    (brace : ∀ next, body.head? = some next → next.char = '{' → next.isCode '{' = true) :
    body.head?.map Cell.char ≠ some '{' := by
  intro isBrace
  obtain ⟨next, isNext, isBrace⟩ := Option.map_eq_some_iff.1 isBrace
  have isCode := brace next isNext isBrace
  cases unstopped with
  | nil => contradiction
  | opening isAt =>
      obtain rfl := Option.some.inj isNext
      rw [Cell.char_of_isCode isAt] at isBrace
      contradiction
  | outside goesOn =>
      obtain rfl := Option.some.inj isNext
      simp [endsStatement, isCode] at goesOn

/-- Read cells begin with a statement, which is unstopped up to its end. -/
theorem unstopped_or_exists_stop
    {insideFirst : Bool}
    {cells : List Cell}
    (braces : BracesStandAsCode cells)
    (closes : insideFirst = true → cells.any (fun cell => cell.char == '}') = true) :
    Unstopped insideFirst cells ∨
      ∃ body stop rest, cells = body ++ stop :: rest ∧ Unstopped insideFirst body ∧
        endsStatement (stop, false) = true ∧ StaysOpen body (stop :: rest) := by
  induction cells generalizing insideFirst with
  | nil =>
      cases insideFirst with
      | false => exact Or.inl .nil
      | true => exact absurd (closes rfl) Bool.false_ne_true
  | cons cell rest inductionHypothesis =>
      have brace : cell.isCode '@' = true →
          ∀ next, rest.head? = some next → next.char = '{' → next.isCode '{' = true := by
        intro isAt next isNext
        obtain ⟨others, rfl⟩ := List.head?_eq_some_iff.1 isNext
        exact (List.isChain_cons_cons.1 braces).1 isAt
      have restBraces : BracesStandAsCode rest := List.IsChain.tail braces
      cases insideFirst with
      | true =>
          have restCloses : (cell.char != '}') = true →
              rest.any (fun cell => cell.char == '}') = true := by
            intro noClosing
            simpa [bne_iff_ne.1 noClosing] using closes rfl
          obtain further | ⟨body, stop, behind, rfl, further, ends, staysOpen⟩ :=
            inductionHypothesis restBraces restCloses
          · exact Or.inl (.inside further)
          · refine Or.inr ⟨cell :: body, stop, behind, rfl, .inside further, ends,
              .cons (fun isEmpty => ?_) staysOpen⟩
            -- The closing brace is no at sign.
            rw [isEmpty] at further
            generalize isClosing : (cell.char != '}') = goesOn at further
            cases further
            rw [bne_eq_false_iff_eq] at isClosing
            intro isAt
            simp [Cell.isCode, isClosing] at isAt
      | false =>
          by_cases ends : endsStatement (cell, false) = true
          · exact Or.inr ⟨[], cell, rest, rfl, .nil, ends, staysOpen_nil_left _⟩
          · have goesOn := Bool.eq_false_iff.2 ends
            by_cases enters : entersInterpolation cell rest = true
            · simp only [entersInterpolation, Bool.and_eq_true, beq_iff_eq] at enters
              obtain ⟨⟨isAt, isBrace⟩, restCloses⟩ := enters
              obtain further | ⟨body, stop, behind, rfl, further, ends, staysOpen⟩ :=
                inductionHypothesis restBraces fun _ => restCloses
              · cases further with
                | inside further =>
                    exact Or.inl (.opening isAt (Option.some.inj isBrace) (.inside further))
              · cases further with
                | @inside first others further =>
                    exact Or.inr ⟨cell :: first :: others, stop, behind, rfl,
                      .opening isAt (Option.some.inj isBrace) (.inside further), ends,
                      .cons (absurd · (List.cons_ne_nil first others)) staysOpen⟩
            · have skips := Bool.eq_false_iff.2 enters
              obtain further | ⟨body, stop, behind, rfl, further, stops, staysOpen⟩ :=
                inductionHypothesis restBraces (absurd · Bool.false_ne_true)
              · exact Or.inl (.outside goesOn (fun isAt => further.head?_ne (brace isAt)) further)
              · refine Or.inr ⟨cell :: body, stop, behind, rfl,
                  .outside goesOn (fun isAt => further.head?_ne fun next isNext => ?_) further,
                  stops, .cons (fun isEmpty => ?_) staysOpen⟩
                · exact brace isAt next (by rw [List.head?_append, isNext, Option.some_or])
                · subst isEmpty
                  intro isAt isBrace
                  have isAt : cell.isCode '@' = true := by simpa using isAt
                  rw [List.nil_append] at skips
                  simpa only [entersInterpolation, isAt, isBrace, beq_self_eq_true, Bool.true_and]
                    using skips

end Lowering
end LessTheme
