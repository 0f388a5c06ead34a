/-!
# Computations that can fail

What a chain of computations did, from its result.
-/

namespace Outcome

variable {Error Value Result : Type} {first : Except Error Value}
  {next : Value → Except Error Result} {result : Result}

theorem ok_bind (value : Value) : (Except.ok value >>= next) = next value := rfl

theorem bind_ok (bound : (first >>= next) = .ok result) :
    ∃ value, first = .ok value ∧ next value = .ok result := by
  cases first with
  | error error => cases bound
  | ok value => exact ⟨value, rfl, bound⟩

/-- All a computation can fail with is one of these errors. -/
def FailsWith (allowed : Error → Prop) (computation : Except Error Value) : Prop :=
  ∀ error, computation = .error error → allowed error

theorem FailsWith.bind {allowed : Error → Prop} (start : FailsWith allowed first)
    (continued : ∀ value, FailsWith allowed (next value)) : FailsWith allowed (first >>= next) := by
  intro error failed
  cases first with
  | error other =>
      cases failed
      exact start error rfl
  | ok value => exact continued value error failed

end Outcome
