import Mathlib.Data.List.Basic

/-!
# A list of processes, one of which takes a step

An interleaving of processes replaces one entry of a list at a time.  The rules
below carry a count of entries, and a property of all entries, through such a
replacement.

Main results:

- `countP_set_add`: the count of a predicate after one replacement.
- `forall_mem_set`: a property of every entry after one replacement.
-/

namespace Processes

universe u

variable {α : Type u} {l : List α} {i : Nat} {a : α}

/-- Replacing an entry moves the count of a predicate by what the two entries contribute. -/
theorem countP_set_add (p : α → Bool) (b : α) (h : l[i]? = some a) :
    (l.set i b).countP p + (if p a then 1 else 0) = l.countP p + (if p b then 1 else 0) := by
  induction l generalizing i with
  | nil => simp at h
  | cons c l ih =>
    cases i with
    | zero =>
      have hc : c = a := by simpa using h
      subst hc
      simp only [List.set_cons_zero, List.countP_cons]
      omega
    | succ i =>
      have hrest := ih (i := i) (by simpa using h)
      simp only [List.set_cons_succ, List.countP_cons]
      omega

variable {b : α}

theorem countP_set_of_eq (p : α → Bool) (h : l[i]? = some a) (hp : p b = p a) : (l.set i b).countP p = l.countP p := by
  have hcount := countP_set_add p b h
  rw [hp] at hcount
  omega

/-- A property of every entry is kept when the new entry has it. -/
theorem forall_mem_set {P : α → Prop} (hl : ∀ x ∈ l, P x) (i : Nat) (hb : P b) : ∀ x ∈ l.set i b, P x := by
  intro x hx
  rcases List.mem_or_eq_of_mem_set hx with hold | rfl
  · exact hl x hold
  · exact hb

end Processes
