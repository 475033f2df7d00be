import Mathlib.Data.List.Infix

/-!
# Searching for a text

`str.find` with a start, on the characters of a text: the first position from the start on
at which the text that is searched for begins.

Main results:

- `find_eq_some_iff`: the position that is found.
- `find_eq_none_iff`: when nothing is found.
-/

namespace PyText

variable {α : Type*} [DecidableEq α]

/-- A text begins at a position of another one. -/
def OccursAt (sub text : List α) (i : Nat) : Prop :=
  sub <+: text.drop i

instance (sub text : List α) (i : Nat) : Decidable (OccursAt sub text i) :=
  inferInstanceAs (Decidable (sub <+: text.drop i))

/-- `str.find` with a start; `none` is `-1`. -/
def find (sub text : List α) (start : Nat) : Option Nat :=
  (List.range' start (text.length + 1 - start)).find? fun i => OccursAt sub text i

variable {sub text : List α} {i : Nat}

omit [DecidableEq α] in
theorem OccursAt.le_length (h : OccursAt sub text i)
    (hsub : sub ≠ []) : i + sub.length ≤ text.length := by
  have hlength := h.length_le
  have hpos := List.length_pos_iff.mpr hsub
  rw [List.length_drop] at hlength
  omega

variable {start : Nat}

/-- The first position from the start on at which the text begins is found. -/
theorem find_eq_some_iff (hsub : sub ≠ []) : find sub text start = some i ↔
      start ≤ i ∧ OccursAt sub text i ∧ ∀ j, start ≤ j → j < i → ¬ OccursAt sub text j := by
  unfold find
  rw [List.find?_range'_eq_some]
  constructor
  · rintro ⟨hoccurs, hmem, hfirst⟩
    refine ⟨(List.mem_range'_1.mp hmem).1, of_decide_eq_true hoccurs, ?_⟩
    intro j hle hlt hj
    have hnot := hfirst j hle hlt
    simp [hj] at hnot
  · rintro ⟨hle, hoccurs, hfirst⟩
    have hlength := hoccurs.le_length hsub
    refine ⟨decide_eq_true hoccurs, List.mem_range'_1.mpr ⟨hle, by omega⟩, ?_⟩
    intro j hj hlt
    simp [hfirst j hj hlt]

/-- Nothing is found when the text begins nowhere from the start on. -/
theorem find_eq_none_iff (hsub : sub ≠ []) :
    find sub text start = none ↔ ∀ j, start ≤ j → ¬ OccursAt sub text j := by
  unfold find
  rw [List.find?_eq_none]
  constructor
  · intro h j hle hj
    have hlength := hj.le_length hsub
    have hnot := h j (List.mem_range'_1.mpr ⟨hle, by omega⟩)
    simp [hj] at hnot
  · intro h j hmem
    simp [h j (List.mem_range'_1.mp hmem).1]

omit [DecidableEq α] in
theorem exists_first_infix (hsub : sub ≠ []) (h : sub <:+: text) :
    ∃ x y, text = x ++ (sub ++ y) ∧ ¬ sub <:+: x := by
  induction text with
  | nil => exact absurd (List.eq_nil_of_infix_nil h) hsub
  | cons c t ih =>
    have hnil : ¬ sub <:+: [] := fun hnil => hsub (List.eq_nil_of_infix_nil hnil)
    by_cases hstart : sub <+: c :: t
    · obtain ⟨y, hy⟩ := hstart
      exact ⟨[], y, hy.symm, hnil⟩
    · have hrest : sub <:+: t := (List.infix_cons_iff.mp h).resolve_left hstart
      obtain ⟨x, y, ht, hfree⟩ := ih hrest
      refine ⟨c :: x, y, by rw [ht, List.cons_append], ?_⟩
      intro hx
      rcases List.infix_cons_iff.mp hx with hx | hx
      · refine hstart (hx.trans ?_)
        rw [ht, ← List.cons_append]
        exact List.prefix_append _ _
      · exact hfree hx

/-- A text whose first element does not recur in it starts nowhere before its first occurrence. -/
theorem find_append {c : α} {rest x : List α} (hc : c ∉ rest) (hx : ¬ (c :: rest) <:+: x)
    (y : List α) : find (c :: rest) (x ++ (c :: rest ++ y)) 0 = some x.length := by
  refine (find_eq_some_iff (List.cons_ne_nil _ _)).mpr ⟨Nat.zero_le _, ?_, ?_⟩
  · rw [OccursAt, List.drop_left]
    exact List.prefix_append _ _
  · intro j _ hj hoccurs
    rw [OccursAt, List.drop_append_of_le_length (Nat.le_of_lt hj)] at hoccurs
    obtain ⟨z, hz⟩ := hoccurs
    rcases List.append_eq_append_iff.mp hz with ⟨part, hinside, -⟩ | ⟨part, hreach, hrest⟩
    · -- It would start in the text before it and end there.
      refine hx (List.IsInfix.trans ⟨[], part, ?_⟩ (List.drop_suffix j x).isInfix)
      rw [List.nil_append, hinside]
    · -- It would reach into the occurrence, whose first element recurs then.
      have hpos : 0 < (x.drop j).length := by
        rw [List.length_drop]
        omega
      obtain ⟨d, front, hfront⟩ := List.exists_cons_of_length_pos hpos
      rw [hfront, List.cons_append, List.cons.injEq] at hreach
      cases part with
      | nil =>
        refine hx (List.IsInfix.trans ⟨[], [], ?_⟩ (List.drop_suffix j x).isInfix)
        rw [hfront, hreach.1, hreach.2]
        simp
      | cons e part =>
        rw [List.cons_append, List.cons_append, List.cons.injEq] at hrest
        refine hc ?_
        rw [hreach.2, hrest.1]
        simp

end PyText
