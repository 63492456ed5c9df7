/-!
# Outcomes of sequences

When a sequence of computations that may fail succeeds, and when it fails.
-/

namespace Except

/-- A sequence succeeds if both of its parts do. -/
theorem bind_eq_ok_iff
    (first : Except ε α)
    (next : α → Except ε β)
    (result : β) :
    (first >>= next) = .ok result ↔ ∃ value, first = .ok value ∧ next value = .ok result := by
  cases first with
  | error failure => simp [bind, Except.bind]
  | ok value => simp [bind, Except.bind]

/-- A sequence fails with its first part, or with the rest of it. -/
theorem bind_eq_error_iff
    (first : Except ε α)
    (next : α → Except ε β)
    (failure : ε) :
    (first >>= next) = .error failure ↔
      first = .error failure ∨ ∃ value, first = .ok value ∧ next value = .error failure := by
  cases first with
  | error other => simp [bind, Except.bind]
  | ok value => simp [bind, Except.bind]

/-- A guarded result is the result if the guard holds. -/
theorem guarded_eq_ok_iff
    (condition : Prop)
    [Decidable condition]
    (value result : α)
    (failure : ε) :
    (if condition then pure value else throw failure : Except ε α) = .ok result ↔
      condition ∧ value = result := by
  by_cases holds : condition <;>
    simp [holds, pure, Except.pure, throw, throwThe, MonadExceptOf.throw]

end Except
