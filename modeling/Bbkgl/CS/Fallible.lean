/-!
# Computations that may fail

A computation ends with a value or with an error, and a check fails with a given
error unless its condition holds. The lemmas take a computation that has
succeeded apart into its steps.
-/

set_option autoImplicit false

namespace CS
namespace Fallible

universe u v

variable {ε : Type u} {α β : Type v} {x : Except ε α} {f : α → Except ε β} {b : β}

/-- Fail with `e` unless `c` holds. -/
def check (c : Bool) (e : ε) : Except ε PUnit.{v + 1} := if c then .ok ⟨⟩ else .error e

theorem check_eq_ok_iff {c : Bool} {e : ε} {r : PUnit.{v + 1}} : check c e = .ok r ↔ c = true := by
  cases c <;> simp [check]

/-- A computation returns if its first part does, and its second part with that result. -/
theorem bind_eq_ok_iff : (x >>= f) = .ok b ↔ ∃ a, x = .ok a ∧ f a = .ok b := by
  cases x <;> simp only [bind, Except.bind, reduceCtorEq, false_and, exists_false,
    Except.ok.injEq, exists_eq_left']

/-- A computation after a check that has succeeded. -/
theorem check_bind_eq_ok_iff {c : Bool} {e : ε} {g : PUnit.{v + 1} → Except ε β} :
    (check c e >>= g) = .ok b ↔ c = true ∧ g ⟨⟩ = .ok b := by
  rw [bind_eq_ok_iff]
  constructor
  · rintro ⟨⟨⟩, hc, hg⟩
    exact ⟨check_eq_ok_iff.mp hc, hg⟩
  · rintro ⟨hc, hg⟩
    exact ⟨⟨⟩, check_eq_ok_iff.mpr hc, hg⟩

theorem pure_eq_ok_iff {a a' : α} : (pure a : Except ε α) = .ok a' ↔ a = a' := by
  simp [pure, Except.pure]

/-- The steps of a machine whose runs end at the first error. -/
theorem toOption_eq_some_iff {a : α} : x.toOption = some a ↔ x = .ok a := by
  cases x <;> simp [Except.toOption]

/-- A computation fails in its first part, or in its second after the first has returned. -/
theorem bind_eq_error_iff {e : ε} :
    (x >>= f) = .error e ↔ x = .error e ∨ ∃ a, x = .ok a ∧ f a = .error e := by
  cases x <;> simp only [bind, Except.bind, reduceCtorEq, false_and, exists_false, or_false,
    false_or, Except.ok.injEq, Except.error.injEq, exists_eq_left']

/-- A computation after a check fails with the check's error, or past the check. -/
theorem check_bind_eq_error_iff {c : Bool} {e e' : ε} {g : PUnit.{v + 1} → Except ε β} :
    (check c e' >>= g) = .error e ↔ (c = false ∧ e' = e) ∨ (c = true ∧ g ⟨⟩ = .error e) := by
  cases c <;> simp [check, bind, Except.bind]

/-! ### Two computations side by side -/

/-- Both fail with one error, or both succeed with values that `R` relates. -/
inductive Agree (R : α → β → Prop) : Except ε α → Except ε β → Prop
  | ok {a : α} {b : β} (h : R a b) : Agree R (.ok a) (.ok b)
  | error (e : ε) : Agree R (.error e) (.error e)

/-- Computations that agree step by step agree. -/
theorem Agree.bind {α' β' : Type v} {R : α → β → Prop} {S : α' → β' → Prop} {y : Except ε β}
    {g : α → Except ε α'} {k : β → Except ε β'} (h : Agree R x y)
    (hnext : ∀ a b, R a b → Agree S (g a) (k b)) : Agree S (x >>= g) (y >>= k) := by
  cases h with
  | ok h => exact hnext _ _ h
  | error e => exact .error e

/-- The same check on both sides. -/
theorem agree_check_bind {α' β' : Type v} {S : α' → β' → Prop} {c : Bool} {e : ε}
    {g : PUnit.{v + 1} → Except ε α'} {k : PUnit.{v + 1} → Except ε β'}
    (hnext : c = true → Agree S (g ⟨⟩) (k ⟨⟩)) : Agree S (check c e >>= g) (check c e >>= k) := by
  cases c with
  | false => exact .error e
  | true => exact hnext rfl

end Fallible
end CS
