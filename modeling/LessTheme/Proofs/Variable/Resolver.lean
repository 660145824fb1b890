import LessTheme.Variable.Resolver
import LessTheme.Proofs.Override.Lookup
import LessTheme.Proofs.Text.Trim

/-!
# Chains of references

Following references stops at a value that is no reference to a known name.
Once it has stopped, a greater budget does not lead further.  If overrides
change so that every name on a chain keeps its value or gets the value at the
end of the chain, then the chain keeps its end.
-/

namespace LessTheme

theorem Reference.bareName?_trim (value : Text) :
    Reference.bareName? value.trim = Reference.bareName? value := by
  rw [Reference.bareName?, Reference.bareName?, Text.trim_trim]

namespace Resolver

variable {resolver : Resolver} {catalog : Catalog}

/-- Following references stops at a value that is no reference to a known name. -/
def StopsAt
    (resolver : Resolver)
    (catalog : Catalog)
    (value : Text) : Prop :=
  (Reference.bareName? value).bind (resolver.value? catalog) = none

instance (value : Text) : Decidable (resolver.StopsAt catalog value) :=
  inferInstanceAs (Decidable (_ = none))

theorem stopsAt_congr
    {left right : Text}
    (same : left.trim = right.trim) :
    resolver.StopsAt catalog left ↔ resolver.StopsAt catalog right := by
  rw [StopsAt, StopsAt, ← Reference.bareName?_trim left, same, Reference.bareName?_trim]

theorem stopsAt_trim
    {value : Text} :
    resolver.StopsAt catalog value.trim ↔ resolver.StopsAt catalog value :=
  stopsAt_congr (Text.trim_trim value)

theorem chase_of_stopsAt
    {value : Text}
    (stops : resolver.StopsAt catalog value)
    (budget : Nat) :
    resolver.chase catalog budget value = value := by
  cases budget with
  | zero => rfl
  | succ budget =>
      unfold StopsAt at stops
      unfold chase
      rw [stops]

theorem chase_succ
    {value name next : Text}
    (isReference : Reference.bareName? value = some name)
    (found : resolver.value? catalog name = some next)
    (budget : Nat) :
    resolver.chase catalog (budget + 1) value = resolver.chase catalog budget next := by
  rw [chase, isReference, Option.bind_some, found]

/-- A chain that has stopped within a budget stops at the same value within a greater one. -/
theorem chase_eq_of_le
    {value : Text}
    {budget greater : Nat}
    (stops : resolver.StopsAt catalog (resolver.chase catalog budget value))
    (within : budget ≤ greater) :
    resolver.chase catalog greater value = resolver.chase catalog budget value := by
  induction budget generalizing value greater with
  | zero => exact chase_of_stopsAt stops greater
  | succ budget inductionHypothesis =>
      by_cases here : resolver.StopsAt catalog value
      · rw [chase_of_stopsAt here, chase_of_stopsAt here]
      · obtain ⟨next, isNext⟩ := Option.ne_none_iff_exists'.1 here
        obtain ⟨name, isReference, found⟩ := Option.bind_eq_some_iff.1 isNext
        cases greater with
        | zero => contradiction
        | succ further =>
            rw [chase_succ isReference found] at stops ⊢
            rw [chase_succ isReference found]
            exact inductionHypothesis stops (Nat.le_of_succ_le_succ within)

/-! ## Changed overrides -/

section Changed

variable {before after : Resolver}

/-- The same names are known to both resolvers. -/
def KnowsSame
    (before after : Resolver)
    (catalog : Catalog) : Prop :=
  ∀ name, (after.value? catalog name).isSome = (before.value? catalog name).isSome

/-- Every name keeps its value or gets the value that its chain ends in. -/
def KeepsEnds
    (before after : Resolver)
    (catalog : Catalog) : Prop :=
  ∀ name value, before.value? catalog name = some value →
    before.StopsAt catalog (before.chase catalog defaultBudget value) →
    after.value? catalog name = some value ∨
      ∃ other, after.value? catalog name = some other ∧
        other.trim = (before.chase catalog defaultBudget value).trim

theorem KnowsSame.stopsAt_iff
    (knowsSame : KnowsSame before after catalog)
    (value : Text) :
    after.StopsAt catalog value ↔ before.StopsAt catalog value := by
  unfold StopsAt
  cases Reference.bareName? value with
  | none => rfl
  | some name =>
      rw [Option.bind_some, Option.bind_some, ← Option.isNone_iff_eq_none,
        ← Option.isNone_iff_eq_none, Option.isNone_iff_eq_none, Option.isNone_iff_eq_none,
        ← Option.not_isSome_iff_eq_none, ← Option.not_isSome_iff_eq_none, knowsSame name]

/-- Where a chain stopped before, it stops afterwards, at the same value up to white space. -/
theorem trim_chase_of_keepsEnds
    (knowsSame : KnowsSame before after catalog)
    (keepsEnds : KeepsEnds before after catalog)
    {value : Text}
    {budget : Nat}
    (within : budget ≤ defaultBudget)
    (stops : before.StopsAt catalog (before.chase catalog budget value)) :
    (after.chase catalog budget value).trim = (before.chase catalog budget value).trim := by
  induction budget generalizing value with
  | zero => rfl
  | succ budget inductionHypothesis =>
      by_cases here : before.StopsAt catalog value
      · rw [chase_of_stopsAt here, chase_of_stopsAt ((knowsSame.stopsAt_iff value).2 here)]
      · obtain ⟨next, isNext⟩ := Option.ne_none_iff_exists'.1 here
        obtain ⟨name, isReference, found⟩ := Option.bind_eq_some_iff.1 isNext
        rw [chase_succ isReference found] at stops ⊢
        have longer := chase_eq_of_le stops (by omega : budget ≤ defaultBudget)
        rw [← longer] at stops
        obtain kept | ⟨other, changed, sameEnd⟩ := keepsEnds name next found stops
        · rw [chase_succ isReference kept]
          rw [longer] at stops
          exact inductionHypothesis (by omega) stops
        · have otherStops : after.StopsAt catalog other :=
            (knowsSame.stopsAt_iff other).2 ((stopsAt_congr sameEnd).2 stops)
          rw [chase_succ isReference changed, chase_of_stopsAt otherStops, sameEnd, longer]

/-- A name whose chain stopped before resolves to the same value afterwards. -/
theorem resolve_of_keepsEnds
    (knowsSame : KnowsSame before after catalog)
    (keepsEnds : KeepsEnds before after catalog)
    {name : Text}
    (stops : before.StopsAt catalog (before.resolve catalog name defaultBudget)) :
    after.resolve catalog name defaultBudget = before.resolve catalog name defaultBudget := by
  unfold resolve at stops ⊢
  cases found : before.value? catalog name with
  | none =>
      have unknown : after.value? catalog name = none := by
        rw [← Option.not_isSome_iff_eq_none, knowsSame name, found]
        simp
      rw [unknown]
  | some value =>
      rw [found] at stops
      replace stops := stopsAt_trim.1 stops
      obtain kept | ⟨other, changed, sameEnd⟩ := keepsEnds name value found stops
      · rw [kept]
        exact trim_chase_of_keepsEnds knowsSame keepsEnds (Nat.le_refl _) stops
      · have otherStops : after.StopsAt catalog other :=
          (knowsSame.stopsAt_iff other).2 ((stopsAt_congr sameEnd).2 stops)
        rw [changed]
        change (after.chase catalog defaultBudget other).trim = _
        rw [chase_of_stopsAt otherStops, sameEnd]
        rfl

end Changed
end Resolver
end LessTheme
