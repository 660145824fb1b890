import Mathlib.Data.List.Forall2

/-!
# Outcomes

A sequence of steps succeeds exactly if each of its steps does.
-/

namespace LessTheme
namespace Outcome

variable {Fault Left Right : Type}

theorem bind_eq_ok_iff
    {outcome : Except Fault Left}
    {next : Left → Except Fault Right}
    {result : Right} :
    (outcome >>= next) = .ok result ↔ ∃ found, outcome = .ok found ∧ next found = .ok result := by
  cases outcome with
  | error fault => simp [bind, Except.bind]
  | ok found => simp [bind, Except.bind]

theorem bind_eq_error_iff
    {outcome : Except Fault Left}
    {next : Left → Except Fault Right}
    {fault : Fault} :
    (outcome >>= next) = .error fault ↔
      outcome = .error fault ∨ ∃ found, outcome = .ok found ∧ next found = .error fault := by
  cases outcome with
  | error other => simp [bind, Except.bind]
  | ok found => simp [bind, Except.bind]

theorem map_eq_ok_iff
    {outcome : Except Fault Left}
    {change : Left → Right}
    {result : Right} :
    outcome.map change = .ok result ↔ ∃ found, outcome = .ok found ∧ change found = result := by
  cases outcome with
  | error fault => simp [Except.map]
  | ok found => simp [Except.map]

theorem map_eq_error_iff
    {outcome : Except Fault Left}
    {change : Left → Right}
    {fault : Fault} :
    outcome.map change = .error fault ↔ outcome = .error fault := by
  cases outcome <;> simp [Except.map]

theorem mapError_eq_ok_iff
    {Cause : Type}
    {outcome : Except Fault Left}
    {change : Fault → Cause}
    {result : Left} :
    outcome.mapError change = .ok result ↔ outcome = .ok result := by
  cases outcome <;> simp [Except.mapError]

theorem pure_eq_ok_iff
    {found result : Left} :
    (pure found : Except Fault Left) = .ok result ↔ found = result := by
  simp [pure, Except.pure]

theorem pure_ne_error
    {found : Left}
    {fault : Fault} :
    (pure found : Except Fault Left) ≠ .error fault :=
  nofun

/-- A list of steps gives the results of the steps, in order. -/
theorem mapM_eq_ok_iff
    {step : Left → Except Fault Right}
    {inputs : List Left}
    {results : List Right} :
    inputs.mapM step = .ok results ↔
      List.Forall₂ (fun input result => step input = .ok result) inputs results := by
  induction inputs generalizing results with
  | nil => rw [List.mapM_nil, pure_eq_ok_iff, List.forall₂_nil_left_iff, eq_comm]
  | cons input rest inductionHypothesis =>
      simp only [List.mapM_cons, bind_eq_ok_iff, pure_eq_ok_iff, inductionHypothesis,
        List.forall₂_cons_left_iff]
      constructor
      · rintro ⟨first, here, others, later, rfl⟩
        exact ⟨first, others, here, later, rfl⟩
      · rintro ⟨first, others, here, later, rfl⟩
        exact ⟨first, here, others, later, rfl⟩

/-- A list of steps fails as the first step that fails does. -/
theorem mapM_eq_error_iff
    {step : Left → Except Fault Right}
    {inputs : List Left}
    {fault : Fault} :
    inputs.mapM step = .error fault ↔
      ∃ front input back, inputs = front ++ input :: back ∧
        (∀ earlier ∈ front, ∃ result, step earlier = .ok result) ∧ step input = .error fault := by
  induction inputs with
  | nil => simp [pure, Except.pure]
  | cons input rest inductionHypothesis =>
      simp only [List.mapM_cons, bind_eq_error_iff, inductionHypothesis, pure_ne_error, and_false,
        exists_false, or_false]
      constructor
      · rintro (here | ⟨result, isOk, front, failing, back, rfl, succeed, fails⟩)
        · exact ⟨[], input, rest, rfl, nofun, here⟩
        · exact ⟨input :: front, failing, back, rfl,
            List.forall_mem_cons.2 ⟨⟨result, isOk⟩, succeed⟩, fails⟩
      · rintro ⟨front, failing, back, isSplit, succeed, fails⟩
        obtain ⟨rfl, same⟩ | ⟨others, rfl, same⟩ := List.cons_eq_append_iff.1 isSplit
        · obtain ⟨rfl, -⟩ := List.cons.inj same
          exact .inl fails
        · obtain ⟨⟨result, isOk⟩, later⟩ := List.forall_mem_cons.1 succeed
          exact .inr ⟨result, isOk, others, failing, back, same, later, fails⟩

theorem foldlM_eq_ok
    {step : Left → Right → Except Fault Left}
    {next : Left → Right → Left}
    (succeeds : ∀ state input, step state input = .ok (next state input))
    (start : Left)
    (inputs : List Right) :
    inputs.foldlM step start = .ok (inputs.foldl next start) := by
  induction inputs generalizing start with
  | nil => rfl
  | cons input rest inductionHypothesis =>
      rw [List.foldlM_cons, succeeds]
      exact inductionHypothesis (next start input)

end Outcome
end LessTheme
