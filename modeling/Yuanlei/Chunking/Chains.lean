import Mathlib.Data.List.Basic
import Mathlib.Data.List.Range

/-!
# Headings that are placed before a line

The inner part of `hierarchical_merge` of `nlp.py`: for every outer level the heading that
precedes a line is searched in the numbers of the headings of that level, and the last number of
the chain is taken away when the new one is larger.

Main results:

- `binarySearch_spec`: the search finds the last number below a line.
- `kept_eq_open_iff`: when the chain holds just the headings that nothing supersedes.
-/

namespace Yuanlei.Chunking.Hierarchy

/-! ## The search -/

/-- The loop of `binary_search`. -/
def searchLoop (arr : List Nat) (target : Nat) : Nat → Nat → Nat → Nat
  | 0, s, _ => s
  | fuel + 1, s, e =>
    if 1 < e - s then
      let mid := (e + s) / 2
      if arr.getD mid 0 < target then searchLoop arr target fuel mid e
      else if target < arr.getD mid 0 then searchLoop arr target fuel s mid
      else mid
    else s

/-- `binary_search`; `none` is `-1`. -/
def binarySearch (arr : List Nat) (target : Nat) : Option Nat :=
  if arr = [] then none
  else if arr.getD (arr.length - 1) 0 < target then some (arr.length - 1)
  else if target < arr.getD 0 0 then none
  else some (searchLoop arr target arr.length 0 arr.length)

/-- The number that is found. -/
def found (arr : List Nat) (target : Nat) : Option Nat :=
  (binarySearch arr target).map fun index => arr.getD index 0

variable {arr : List Nat} {target : Nat}

theorem searchLoop_spec (hmem : target ∉ arr) (fuel : Nat) :
    ∀ s e, s < e → e ≤ arr.length → e - s ≤ fuel → arr.getD s 0 < target →
      (∀ h : e < arr.length, target < arr[e]) →
      searchLoop arr target fuel s e < arr.length ∧
      arr.getD (searchLoop arr target fuel s e) 0 < target ∧
      ∀ h : searchLoop arr target fuel s e + 1 < arr.length,
        target < arr[searchLoop arr target fuel s e + 1] := by
  induction fuel with
  | zero =>
    intro s e hlt _ hfuel
    exact absurd hfuel (by omega)
  | succ fuel ih =>
    intro s e hlt hle hfuel hs he
    rw [searchLoop]
    by_cases hwide : 1 < e - s
    · rw [if_pos hwide]
      have hmid : (e + s) / 2 < arr.length := by omega
      have hget : arr.getD ((e + s) / 2) 0 = arr[(e + s) / 2] := by simp [hmid]
      by_cases hbelow : arr.getD ((e + s) / 2) 0 < target
      · rw [if_pos hbelow]
        exact ih _ e (by omega) hle (by omega) hbelow he
      · rw [if_neg hbelow]
        have habove : target < arr.getD ((e + s) / 2) 0 := by
          rcases Nat.lt_or_eq_of_le (Nat.le_of_not_lt hbelow) with hgt | heq
          · exact hgt
          · rw [hget] at heq
            exact absurd (heq ▸ List.getElem_mem hmid) hmem
        rw [if_pos habove]
        refine ih s _ (by omega) (by omega) (by omega) hs ?_
        intro h
        rw [← hget]
        exact habove
    · rw [if_neg hwide]
      obtain rfl : e = s + 1 := by omega
      exact ⟨by omega, hs, he⟩

/-- In increasing numbers those below the target stand in front. -/
theorem getLast?_filter_lt (hsorted : arr.Pairwise (· < ·)) {i : Nat}
    (hi : i < arr.length) (hbelow : arr[i] < target)
    (habove : ∀ h : i + 1 < arr.length, target ≤ arr[i + 1]) :
    (arr.filter (· < target)).getLast? = some arr[i] := by
  induction arr generalizing i with
  | nil => simp at hi
  | cons a arr ih =>
    obtain ⟨ha, hrest⟩ := List.pairwise_cons.mp hsorted
    cases i with
    | zero =>
      have hnone : arr.filter (· < target) = [] := by
        rw [List.filter_eq_nil_iff]
        intro b hb
        obtain ⟨k, hk, rfl⟩ := List.getElem_of_mem hb
        have hfirst := habove (by simp; omega)
        simp only [List.getElem_cons_succ] at hfirst
        have hmono : arr[0] ≤ arr[k] := by
          rcases Nat.eq_zero_or_pos k with rfl | hpos
          · exact le_refl _
          · exact Nat.le_of_lt (List.pairwise_iff_getElem.mp hrest 0 k (by omega) hk hpos)
        simp only [decide_eq_true_eq]
        omega
      rw [List.filter_cons_of_pos (by simpa using hbelow), hnone]
      rfl
    | succ i =>
      have hlt : i < arr.length := by simpa using hi
      have hlast := ih hrest hlt (by simpa using hbelow) (fun h => habove (by simp; omega))
      have hfirst : a < target := by
        have hsmall := ha arr[i] (List.getElem_mem hlt)
        simp only [List.getElem_cons_succ] at hbelow
        omega
      rw [List.filter_cons_of_pos (by simpa using hfirst), List.getLast?_cons, hlast]
      rfl

theorem binarySearch_spec (hsorted : arr.Pairwise (· < ·)) (hmem : target ∉ arr) : found arr target =
    (arr.filter (· < target)).getLast? := by
  rw [found, binarySearch]
  by_cases hnil : arr = []
  · subst hnil
    rfl
  rw [if_neg hnil]
  have hpos := List.length_pos_iff.mpr hnil
  have hlastGet : arr.getD (arr.length - 1) 0 = arr[arr.length - 1] := by
    simp [Nat.sub_lt hpos]
  by_cases hlast : arr.getD (arr.length - 1) 0 < target
  · rw [if_pos hlast, Option.map_some, hlastGet]
    exact (getLast?_filter_lt hsorted (by omega) (hlastGet ▸ hlast) (fun h => by omega)).symm
  rw [if_neg hlast]
  have hfirstGet : arr.getD 0 0 = arr[0] := by simp [hpos]
  by_cases hfirst : target < arr.getD 0 0
  · rw [if_pos hfirst, Option.map_none]
    have hnone : arr.filter (· < target) = [] := by
      rw [List.filter_eq_nil_iff]
      intro b hb
      obtain ⟨k, hk, rfl⟩ := List.getElem_of_mem hb
      have hmono : arr[0] ≤ arr[k] := by
        rcases Nat.eq_zero_or_pos k with rfl | hk0
        · exact le_refl _
        · exact Nat.le_of_lt (List.pairwise_iff_getElem.mp hsorted 0 k hpos hk hk0)
      simp only [decide_eq_true_eq]
      omega
    rw [hnone]
    rfl
  · rw [if_neg hfirst, Option.map_some]
    have hstart : arr.getD 0 0 < target := by
      rcases Nat.lt_or_eq_of_le (Nat.le_of_not_lt hfirst) with hlt | heq
      · exact hlt
      · rw [hfirstGet] at heq
        exact absurd (heq ▸ List.getElem_mem hpos) hmem
    obtain ⟨hlt, hbelow, habove⟩ := searchLoop_spec hmem arr.length 0 arr.length hpos (le_refl _)
      (by omega) hstart (fun h => by omega)
    have hget : arr.getD (searchLoop arr target arr.length 0 arr.length) 0
        = arr[searchLoop arr target arr.length 0 arr.length] := by simp [hlt]
    rw [hget] at hbelow ⊢
    exact (getLast?_filter_lt hsorted hlt hbelow fun h => Nat.le_of_lt (habove h)).symm

/-! ## The chain -/

/-- A heading is put at the end of a chain; a last number that is smaller goes. -/
def extendChain (chain : List Nat) (heading : Nat) : List Nat :=
  (if chain.getLast?.any (· < heading) then chain.dropLast else chain) ++ [heading]

/-- The numbers that are followed by a smaller one, and the last one. -/
def kept : List Nat → List Nat
  | [] => []
  | [h] => [h]
  | h :: h' :: t => if h < h' then kept (h' :: t) else h :: kept (h' :: t)

/-- The numbers that are followed by smaller ones only. -/
def unsuperseded : List Nat → List Nat
  | [] => []
  | h :: t => if ∀ x ∈ t, x < h then h :: unsuperseded t else unsuperseded t

/-- A number that is followed by a smaller one is followed by smaller ones only. -/
def Nested : List Nat → Prop
  | [] => True
  | [_] => True
  | h :: h' :: t => (h' < h → ∀ x ∈ t, x < h) ∧ Nested (h' :: t)

/-- A number is taken away in the round after it was put in, or never. -/
theorem foldl_extendChain (front : List Nat) (x : Nat) (hs : List Nat) :
    hs.foldl extendChain (front ++ [x]) = front ++ kept (x :: hs) := by
  induction hs generalizing front x with
  | nil => rfl
  | cons h hs ih =>
    rw [List.foldl_cons, extendChain, List.getLast?_concat, Option.any_some]
    by_cases hlt : x < h
    · rw [if_pos (by simpa using hlt), List.dropLast_concat, ih, kept, if_pos hlt]
    · rw [if_neg (by simpa using hlt), ih, kept, if_neg hlt]
      simp

theorem kept_sublist (hs : List Nat) : (kept hs).Sublist hs := by
  fun_induction kept hs with
  | case1 => exact List.Sublist.slnil
  | case2 h => exact List.Sublist.refl _
  | case3 h h' t hlt ih => exact ih.cons h
  | case4 h h' t hlt ih => exact ih.cons_cons h

theorem unsuperseded_sublist (hs : List Nat) : (unsuperseded hs).Sublist hs := by
  fun_induction unsuperseded hs with
  | case1 => exact List.Sublist.slnil
  | case2 h t hall ih => exact ih.cons_cons h
  | case3 h t hall ih => exact ih.cons h

/-- The chain is what nothing supersedes exactly when no heading supersedes two at once. -/
theorem kept_eq_unsuperseded_iff {hs : List Nat} (hnodup : hs.Nodup) :
    kept hs = unsuperseded hs ↔ Nested hs := by
  induction hs with
  | nil => simp [kept, unsuperseded, Nested]
  | cons h t ih =>
    cases t with
    | nil => simp [kept, unsuperseded, Nested]
    | cons h' t =>
      obtain ⟨hnot, hrest⟩ := List.nodup_cons.mp hnodup
      have ih := ih hrest
      rw [kept, unsuperseded, Nested]
      have hne : h ≠ h' := by
        rintro rfl
        exact hnot (List.mem_cons_self ..)
      by_cases hlt : h < h'
      · have hsuper : ¬ ∀ x ∈ h' :: t, x < h := by
          intro hall
          have hfirst := hall h' (List.mem_cons_self ..)
          omega
        rw [if_pos hlt, if_neg hsuper, ih]
        constructor
        · intro hnest
          exact ⟨fun h'' => by omega, hnest⟩
        · exact fun hnest => hnest.2
      · have hgt : h' < h := by omega
        rw [if_neg hlt]
        by_cases hall : ∀ x ∈ h' :: t, x < h
        · rw [if_pos hall, List.cons.injEq, ih]
          constructor
          · rintro ⟨-, hnest⟩
            exact ⟨fun _ x hx => hall x (List.mem_cons_of_mem h' hx), hnest⟩
          · exact fun hnest => ⟨rfl, hnest.2⟩
        · rw [if_neg hall]
          constructor
          · intro heq
            -- The number stays in one list and is not in the other.
            have hmem : h ∈ unsuperseded (h' :: t) := by
              rw [← heq]
              exact List.mem_cons_self ..
            exact absurd ((unsuperseded_sublist _).subset hmem) hnot
          · rintro ⟨hbelow, -⟩
            refine absurd ?_ hall
            intro x hx
            rcases List.mem_cons.mp hx with rfl | hx
            · exact hgt
            · exact hbelow hgt x hx

/-- What nothing supersedes comes in decreasing order. -/
theorem unsuperseded_pairwise (hs : List Nat) : (unsuperseded hs).Pairwise (· > ·) := by
  fun_induction unsuperseded hs with
  | case1 => exact List.Pairwise.nil
  | case2 h t hall ih =>
    refine List.pairwise_cons.mpr ⟨?_, ih⟩
    exact fun x hx => hall x ((unsuperseded_sublist t).subset hx)
  | case3 h t hall ih => exact ih

end Yuanlei.Chunking.Hierarchy
