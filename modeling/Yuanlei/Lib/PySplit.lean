import Mathlib.Data.List.Infix

/-!
# Cutting a text at a separator

`str.partition` and `str.split` with a bound on the number of cuts, on the characters of
a text.  Both cut at the first place where the separator starts.

Main results:

- `partition_eq_some_iff`: where the first cut is.
- `partition_singleton`: a separator of one character.
-/

namespace PyText

variable {α : Type*} [DecidableEq α]

/-- `str.partition`: the text before and after the first separator, if there is one. -/
def partition (sep : List α) : List α → Option (List α × List α)
  | [] => none
  | c :: t =>
    if sep <+: c :: t then some ([], (c :: t).drop sep.length)
    else (partition sep t).map fun p => (c :: p.1, p.2)

/-- `str.split` with a bound on the number of cuts. -/
def splitMax (sep : List α) : Nat → List α → List (List α)
  | 0, t => [t]
  | n + 1, t =>
    match partition sep t with
    | none => [t]
    | some p => p.1 :: splitMax sep n p.2

/-- The first cut is where the separator starts for the first time. -/
theorem partition_eq_some_iff {sep t x y : List α} (hsep : sep ≠ []) :
    partition sep t = some (x, y) ↔ t = x ++ (sep ++ y) ∧ ∀ i < x.length, ¬ sep <+: t.drop i := by
  induction t generalizing x with
  | nil =>
    simp only [partition, reduceCtorEq, false_iff, not_and]
    intro hnil
    have hempty := List.append_eq_nil_iff.mp (List.append_eq_nil_iff.mp hnil.symm).2
    exact absurd hempty.1 hsep
  | cons c t ih =>
    unfold partition
    by_cases hstart : sep <+: c :: t
    · rw [if_pos hstart]
      constructor
      · intro h
        cases h
        refine ⟨?_, fun i hi => absurd hi (by simp)⟩
        rw [List.nil_append]
        exact List.prefix_append_drop hstart
      · rintro ⟨heq, hfirst⟩
        cases x with
        | nil =>
          rw [List.nil_append] at heq
          rw [heq, List.drop_left]
        | cons d x => exact absurd hstart (hfirst 0 (by simp))
    · rw [if_neg hstart]
      constructor
      · intro h
        obtain ⟨p, hp, heq⟩ := Option.map_eq_some_iff.mp h
        cases heq
        obtain ⟨htext, hfirst⟩ := ih.mp hp
        refine ⟨by rw [List.cons_append, ← htext], ?_⟩
        intro i hi
        cases i with
        | zero => exact hstart
        | succ i => exact hfirst i (by simpa using hi)
      · rintro ⟨heq, hfirst⟩
        cases x with
        | nil =>
          refine absurd ?_ hstart
          rw [heq]
          exact List.prefix_append _ _
        | cons d x =>
          rw [List.cons_append, List.cons.injEq] at heq
          obtain ⟨rfl, htext⟩ := heq
          have hpart : partition sep t = some (x, y) := by
            refine ih.mpr ⟨htext, fun i hi => ?_⟩
            exact hfirst (i + 1) (by simpa using hi)
          rw [hpart, Option.map_some]

variable {c : α}

/-- Cutting at one character. -/
theorem partition_singleton (x y : List α) (hx : c ∉ x) :
    partition [c] (x ++ c :: y) = some (x, y) := by
  refine (partition_eq_some_iff (by simp)).mpr ⟨rfl, ?_⟩
  intro i hi hstart
  rw [List.drop_append_of_le_length (Nat.le_of_lt hi), List.drop_eq_getElem_cons hi,
    List.cons_append, List.cons_prefix_cons] at hstart
  exact hx (hstart.1 ▸ List.getElem_mem hi)

omit [DecidableEq α] in
theorem not_pair_prefix_drop_iff (x y : List α) :
    (∀ i < x.length, ¬ [c, c] <+: (x ++ c :: c :: y).drop i) ↔ ¬ [c, c] <:+: x ++ [c] := by
  have hdrop : ∀ i < x.length, ([c, c] <+: (x ++ c :: c :: y).drop i ↔
      [c, c] <+: (x ++ [c]).drop i) := by
    intro i hi
    rw [List.drop_append_of_le_length (Nat.le_of_lt hi),
      List.drop_append_of_le_length (Nat.le_of_lt hi), List.drop_eq_getElem_cons hi]
    cases hrest : x.drop (i + 1) with
    | nil => simp
    | cons d rest => simp [List.cons_prefix_cons]
  constructor
  · intro h hinside
    obtain ⟨before, after, heq⟩ := hinside
    have hlength := congrArg List.length heq
    simp only [List.length_append, List.length_cons, List.length_nil] at hlength
    have hi : before.length < x.length := by omega
    refine h before.length hi ((hdrop before.length hi).mpr ?_)
    rw [← heq, List.append_assoc, List.drop_left]
    exact List.prefix_append _ _
  · intro h i hi hstart
    exact h (((hdrop i hi).mp hstart).isInfix.trans (List.drop_suffix i _).isInfix)

/-- Cutting at two equal characters. -/
theorem partition_pair (x y : List α) :
    partition [c, c] (x ++ c :: c :: y) = some (x, y) ↔ ¬ [c, c] <:+: x ++ [c] := by
  rw [partition_eq_some_iff (by simp), not_pair_prefix_drop_iff]
  exact and_iff_right rfl

end PyText
