import Mathlib.Data.List.Basic

/-!
# Packing texts into pieces

Two ways of cutting a text into pieces of a bounded length: at every multiple of the bound, and by
putting units together with a separator while they fit.  A unit that is longer than the bound is
cut on its own.

Main results:

- `cutEvery_flatten`: cutting at multiples loses nothing.
- `pack_length_le`: no piece is longer than the bound.
-/

namespace Packing

universe u

variable {α : Type u}

/-! ## Cutting at multiples of the bound -/

/-- The pieces of a text; the fuel bounds their number. -/
def cutEvery (bound : Nat) : Nat → List α → List (List α)
  | 0, _ => []
  | _ + 1, [] => []
  | fuel + 1, a :: t => (a :: t).take bound :: cutEvery bound fuel ((a :: t).drop bound)

variable {bound : Nat}

theorem cutEvery_flatten (hbound : 0 < bound) (fuel : Nat) (t : List α)
    (hfuel : t.length ≤ fuel) : (cutEvery bound fuel t).flatten = t := by
  induction fuel generalizing t with
  | zero =>
    obtain rfl := List.length_eq_zero_iff.mp (Nat.le_zero.mp hfuel)
    rfl
  | succ fuel ih =>
    cases t with
    | nil => rfl
    | cons a t =>
      have hrest : ((a :: t).drop bound).length ≤ fuel := by
        rw [List.length_drop]
        omega
      rw [cutEvery, List.flatten_cons, ih _ hrest, List.take_append_drop]

variable {fuel : Nat} {t piece : List α}

theorem cutEvery_getLast_suffix (hbound : 0 < bound) (hfuel : t.length ≤ fuel)
    (h : (cutEvery bound fuel t).getLast? = some piece) :
    piece <:+ t := by
  obtain ⟨init, hinit⟩ := List.getLast?_eq_some_iff.mp h
  have hall := cutEvery_flatten hbound fuel t hfuel
  rw [hinit, List.flatten_append, List.flatten_singleton] at hall
  exact ⟨init.flatten, hall⟩

theorem ne_nil_of_mem_cutEvery (hbound : 0 < bound) (h : piece ∈ cutEvery bound fuel t) : piece ≠ [] := by
  induction fuel generalizing t with
  | zero => cases h
  | succ fuel ih =>
    cases t with
    | nil => cases h
    | cons a t =>
      rcases List.mem_cons.mp h with rfl | hrest
      · intro hnil
        have hlength := congrArg List.length hnil
        rw [List.length_take, List.length_cons, List.length_nil] at hlength
        omega
      · exact ih hrest

theorem length_le_of_mem_cutEvery (h : piece ∈ cutEvery bound fuel t) : piece.length ≤ bound := by
  induction fuel generalizing t with
  | zero => cases h
  | succ fuel ih =>
    cases t with
    | nil => cases h
    | cons a t =>
      rcases List.mem_cons.mp h with rfl | hrest
      · exact List.length_take_le ..
      · exact ih hrest

/-! ## Packing units -/

/-- The piece that is being filled, unless it is empty. -/
def closed : List α → List (List α)
  | [] => []
  | a :: t => [a :: t]

theorem closed_flatMap {β : Type*} (f : List α → List β) (hf : f [] = []) (current : List α) :
    (closed current).flatMap f = f current := by
  cases current <;> simp [closed, hf]

theorem mem_closed {current : List α} (h : piece ∈ closed current) : piece = current := by
  cases current with
  | nil => cases h
  | cons a t => exact List.mem_singleton.mp h

/-- The piece that is being filled with a unit more. -/
def joined (sep : List α) : List α → List α → List α
  | [], u => u
  | a :: t, u => (a :: t) ++ (sep ++ u)

/-- The pieces of units, after a piece that is being filled. -/
def pack (sep : List α) (cut : List α → List (List α)) (bound : Nat) :
    List (List α) → List α → List (List α)
  | [], current => closed current
  | u :: us, current =>
    if bound < u.length then closed current ++ (cut u ++ pack sep cut bound us [])
    else if !current.isEmpty && bound < current.length + sep.length + u.length then
      current :: pack sep cut bound us u
    else pack sep cut bound us (joined sep current u)

variable {sep : List α} {cut : List α → List (List α)} {bound : Nat}

/-- The elements that the separator does not have are kept in their order. -/
theorem pack_filter (p : α → Bool) (hsep : sep.filter p = []) (units : List (List α))
    (hcut : ∀ u ∈ units, bound < u.length → (cut u).flatMap (List.filter p) = u.filter p)
    (current : List α) :
    (pack sep cut bound units current).flatMap (List.filter p)
      = current.filter p ++ units.flatMap (List.filter p) := by
  induction units generalizing current with
  | nil =>
    rw [pack, closed_flatMap _ rfl]
    simp
  | cons u us ih =>
    have ih := ih fun v hv => hcut v (List.mem_cons_of_mem u hv)
    rw [pack, List.flatMap_cons]
    split
    · rename_i hlong
      rw [List.flatMap_append, List.flatMap_append, closed_flatMap _ rfl,
        hcut u (List.mem_cons_self ..) hlong, ih]
      simp
    · split
      · rw [List.flatMap_cons, ih]
      · rw [ih, ← List.append_assoc]
        cases current with
        | nil => simp [joined]
        | cons a t =>
          rw [joined, List.filter_append, List.filter_append, hsep, List.nil_append]

theorem pack_length_le (units : List (List α))
    (hcut : ∀ u ∈ units, ∀ piece ∈ cut u, piece.length ≤ bound) {current : List α}
    (hcurrent : current.length ≤ bound) :
    ∀ piece ∈ pack sep cut bound units current, piece.length ≤ bound := by
  induction units generalizing current with
  | nil =>
    intro piece hpiece
    rw [mem_closed hpiece]
    exact hcurrent
  | cons u us ih =>
    have ih := fun {current} => @ih (fun v hv => hcut v (List.mem_cons_of_mem u hv)) current
    intro piece hpiece
    rw [pack] at hpiece
    split at hpiece
    · rcases List.mem_append.mp hpiece with hclosed | hrest
      · rw [mem_closed hclosed]
        exact hcurrent
      · rcases List.mem_append.mp hrest with hu | hus
        · exact hcut u (List.mem_cons_self ..) piece hu
        · exact ih (Nat.zero_le _) piece hus
    · rename_i hshort
      split at hpiece
      · rcases List.mem_cons.mp hpiece with rfl | hrest
        · exact hcurrent
        · exact ih (Nat.le_of_not_lt hshort) piece hrest
      · rename_i hfits
        refine ih ?_ piece hpiece
        cases current with
        | nil => exact Nat.le_of_not_lt hshort
        | cons a t =>
          simp only [List.isEmpty_cons, Bool.not_false, Bool.true_and, decide_eq_true_eq,
            Nat.not_lt] at hfits
          simp only [joined, List.length_append]
          omega

/-! ## The last piece -/

variable {units : List (List α)}

theorem pack_ne_nil (hunits : ∀ u ∈ units, u ≠ [])
    (hcut : ∀ u ∈ units, cut u ≠ []) {current : List α} (h : units ≠ [] ∨ current ≠ []) :
    pack sep cut bound units current ≠ [] := by
  induction units generalizing current with
  | nil =>
    have hcurrent : current ≠ [] := by simpa using h
    cases current with
    | nil => exact absurd rfl hcurrent
    | cons a t => simp [pack, closed]
  | cons u us ih =>
    have hu := hunits u (List.mem_cons_self ..)
    have ih := fun {current} => @ih (fun v hv => hunits v (List.mem_cons_of_mem u hv))
      (fun v hv => hcut v (List.mem_cons_of_mem u hv)) current
    rw [pack]
    split
    · simp [hcut u (List.mem_cons_self ..)]
    · split
      · simp
      · refine ih (Or.inr ?_)
        cases current with
        | nil => exact hu
        | cons a t => simp [joined]

variable {w : List α}

/-- A text without elements of the separator ends no piece but the end of a unit. -/
theorem suffix_of_joined {current u : List α} (hw : ∀ a ∈ w, a ∉ sep) (hsep : sep ≠ [])
    (h : w <:+ joined sep current u) : w <:+ u := by
  cases current with
  | nil => exact h
  | cons a t =>
    obtain ⟨front, hfront⟩ := h
    rw [joined, ← List.append_assoc] at hfront
    rcases List.append_eq_append_iff.mp hfront with ⟨part, hfull, hpart⟩ | ⟨part, -, hpart⟩
    · -- Otherwise the text would have the last element of the separator.
      rcases List.eq_nil_or_concat' part with rfl | ⟨init, x, rfl⟩
      · exact ⟨[], by simpa using hpart⟩
      · have hends := congrArg List.getLast? hfull
        rw [List.getLast?_append_of_ne_nil _ hsep, ← List.append_assoc,
          List.getLast?_concat] at hends
        exact absurd (List.mem_of_getLast? hends) (hw x (by simp [hpart]))
    · exact ⟨part, hpart.symm⟩

theorem pack_getLast_suffix (hw : ∀ a ∈ w, a ∉ sep) (hsep : sep ≠ [])
    (hunits : ∀ u ∈ units, u ≠ []) (hcut : ∀ u ∈ units, cut u ≠ [])
    (hlast : ∀ u ∈ units.getLast?, ∀ piece, (cut u).getLast? = some piece → w <:+ piece → w <:+ u)
    {current : List α} (hpiece : (pack sep cut bound units current).getLast? = some piece)
    (hsuffix : w <:+ piece) : w <:+ units.getLast?.getD current := by
  induction units generalizing current with
  | nil =>
    cases current with
    | nil => simp [pack, closed] at hpiece
    | cons a t =>
      obtain rfl : a :: t = piece := by simpa [pack, closed] using hpiece
      exact hsuffix
  | cons u us ih =>
    have ih := fun {current} => @ih (fun v hv => hunits v (List.mem_cons_of_mem u hv))
      (fun v hv => hcut v (List.mem_cons_of_mem u hv))
      (fun v hv => hlast v (by
        rw [List.getLast?_cons, Option.mem_def.mp hv]
        rfl)) current
    have hmore : ∀ v ∈ us, v ≠ [] := fun v hv => hunits v (List.mem_cons_of_mem u hv)
    rw [List.getLast?_cons, Option.getD_some]
    rw [pack] at hpiece
    split at hpiece
    · cases us with
      | nil =>
        rw [pack, closed, List.append_nil, List.getLast?_append_of_ne_nil _
          (hcut u (List.mem_cons_self ..))] at hpiece
        exact hlast u rfl piece hpiece hsuffix
      | cons v us =>
        have hne : pack sep cut bound (v :: us) [] ≠ [] := pack_ne_nil hmore
          (fun v hv => hcut v (List.mem_cons_of_mem u hv)) (Or.inl (List.cons_ne_nil _ _))
        rw [← List.append_assoc, List.getLast?_append_of_ne_nil _ hne] at hpiece
        simpa [List.getLast?_cons] using ih hpiece
    · split at hpiece
      · have hne : pack sep cut bound us u ≠ [] := pack_ne_nil hmore
          (fun v hv => hcut v (List.mem_cons_of_mem u hv))
          (Or.inr (hunits u (List.mem_cons_self ..)))
        rw [← List.singleton_append, List.getLast?_append_of_ne_nil _ hne] at hpiece
        exact ih hpiece
      · have hend := ih hpiece
        cases us with
        | nil => exact suffix_of_joined hw hsep (by simpa using hend)
        | cons v us => simpa [List.getLast?_cons] using hend

end Packing
