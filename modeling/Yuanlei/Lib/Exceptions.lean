import Mathlib.Tactic.Common

/-!
# Computations that raise

Inversion of sequenced computations: a value comes out only if every part has returned one.

Main results:

- `Exceptions.bind_eq_ok`: the two parts of a sequence that returns.
-/

namespace Exceptions

universe u v

variable {ε : Type u} {α β : Type v} {x : Except ε α} {b : β}

/-- What is mapped over a value that a computation returns. -/
theorem map_eq_ok {f : α → β} :
    x.map f = .ok b ↔ ∃ a, x = .ok a ∧ f a = b := by
  cases x with
  | error e => simp [Except.map]
  | ok a => simp [Except.map]

/-- A sequence returns if and only if both of its parts do. -/
theorem bind_eq_ok {f : α → Except ε β} :
    (x >>= f) = .ok b ↔ ∃ a, x = .ok a ∧ f a = .ok b := by
  cases x with
  | error e => simp [bind, Except.bind]
  | ok a => simp [bind, Except.bind]

end Exceptions
