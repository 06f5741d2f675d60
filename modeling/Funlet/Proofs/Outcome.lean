/-!
# Steps that may fail

What it means for a sequence of steps to succeed or to fail.
-/

set_option autoImplicit false

namespace Funlet.Except

theorem ok_bind {ε α β : Type} (value : α) (next : α → Except ε β) :
    (.ok value >>= next) = next value := rfl

theorem pure_eq_ok {ε α : Type} (value : α) : (pure value : Except ε α) = .ok value := rfl

theorem bind_eq_ok_iff {ε α β : Type} {first : Except ε α} {next : α → Except ε β}
    {result : β} :
    (first >>= next) = .ok result ↔ ∃ value, first = .ok value ∧ next value = .ok result := by
  cases first with
  | ok value => simp [bind, Except.bind]
  | error cause => simp [bind, Except.bind]

theorem bind_eq_error_iff {ε α β : Type} {first : Except ε α} {next : α → Except ε β}
    {cause : ε} :
    (first >>= next) = .error cause ↔
      first = .error cause ∨ ∃ value, first = .ok value ∧ next value = .error cause := by
  cases first with
  | ok value => simp [bind, Except.bind]
  | error cause => simp [bind, Except.bind]

theorem mapError_eq_ok_iff {ε δ α : Type} {change : ε → δ} {first : Except ε α} {result : α} :
    first.mapError change = .ok result ↔ first = .ok result := by
  cases first with
  | ok value =>
    constructor <;> intro same <;> exact congrArg Except.ok (Except.ok.inj same)
  | error cause => constructor <;> intro impossible <;> cases impossible

@[simp]
theorem pure_eq_ok_iff {ε α : Type} {value result : α} :
    (pure value : Except ε α) = .ok result ↔ value = result := by
  simp [pure, Except.pure]

@[simp]
theorem pure_ne_error {ε α : Type} {value : α} {cause : ε} :
    (pure value : Except ε α) ≠ .error cause := by
  simp [pure, Except.pure]

end Funlet.Except
