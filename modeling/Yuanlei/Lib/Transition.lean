import Mathlib.Data.List.Basic
import Mathlib.Logic.Relation

/-!
# Runs of a deterministic transition function

A run of a system is a list of labels applied one after the other.  The rules
below turn what one step preserves into what every run preserves, with or
without a condition that every step of the run has to meet.

Main results:

- `exec_invariant`: a property kept by every step is kept by every run.
- `exec_rel`: a preorder that contains every step contains every run.
-/

namespace Transition

universe u v

variable {σ : Type u} {α : Type v} (step : σ → α → σ)

/-- The state after a list of labels. -/
def exec (s : σ) (as : List α) : σ :=
  as.foldl step s

@[simp]
theorem exec_nil (s : σ) : exec step s [] = s :=
  rfl

@[simp]
theorem exec_cons (s : σ) (a : α) (as : List α) : exec step s (a :: as) = exec step (step s a) as :=
  rfl

/-- Running two lists one after the other runs their concatenation. -/
theorem exec_append (s : σ) (as bs : List α) :
    exec step s (as ++ bs) = exec step (exec step s as) bs := by
  simp [exec]

variable {P : σ → Prop} {s : σ}

/-- A property kept by every step is kept by every run. -/
theorem exec_invariant (hstep : ∀ s a, P s → P (step s a))
    (hs : P s) (as : List α) : P (exec step s as) := by
  induction as generalizing s with
  | nil => exact hs
  | cons a as ih => exact ih (hstep s a hs)

/-- A preorder that contains every step contains every run. -/
theorem exec_rel {R : σ → σ → Prop} (hrefl : ∀ s, R s s)
    (htrans : ∀ {s t u}, R s t → R t u → R s u) (hstep : ∀ s a, R s (step s a))
    (s : σ) (as : List α) : R s (exec step s as) := by
  induction as generalizing s with
  | nil => exact hrefl s
  | cons a as ih => exact htrans (hstep s a) (ih (step s a))

/-- Every step of the run meets the condition `G` on its starting state and label. -/
def Guarded (G : σ → α → Prop) : σ → List α → Prop
  | _, [] => True
  | s, a :: as => G s a ∧ Guarded G (step s a) as

instance decidableGuarded (G : σ → α → Prop) [∀ s a, Decidable (G s a)] :
    ∀ s as, Decidable (Guarded step G s as)
  | _, [] => inferInstanceAs (Decidable True)
  | s, a :: as =>
    have := decidableGuarded G (step s a) as
    inferInstanceAs (Decidable (G s a ∧ Guarded step G (step s a) as))

variable {G : σ → α → Prop}

/-- The steps of two runs one after the other. -/
theorem guarded_append (s : σ) (as bs : List α) :
    Guarded step G s (as ++ bs) ↔ Guarded step G s as ∧ Guarded step G (exec step s as) bs := by
  induction as generalizing s with
  | nil => simp [Guarded]
  | cons a as ih => simp [Guarded, ih, and_assoc]

variable {as : List α}

/-- A property kept by every step that meets the condition is kept by every run
whose steps all meet it. -/
theorem exec_invariant_of_guarded (hstep : ∀ s a, G s a → P s → P (step s a)) (hs : P s)
    (hG : Guarded step G s as) : P (exec step s as) := by
  induction as generalizing s with
  | nil => exact hs
  | cons a as ih => exact ih (hstep s a hG.1 hs) hG.2

/-- A property of steps that follows from the invariant and the condition has every step of a
run whose steps all meet the condition. -/
theorem guarded_of_invariant {Q : σ → α → Prop} (hstep : ∀ s a, G s a → P s → P (step s a))
    (hQ : ∀ s a, G s a → P s → Q s a)
    (hs : P s) (hG : Guarded step G s as) : Guarded step Q s as := by
  induction as generalizing s with
  | nil => exact hG
  | cons a as ih => exact ⟨hQ s a hG.1 hs, ih (hstep s a hG.1 hs) hG.2⟩

end Transition
