import Mathlib.Data.List.Nodup

/-!
# Depth-first visits

The order in which a depth-first search meets the nodes of a graph.  An edge may lead to a node
that does not exist; such a node is skipped.

Main results:

- `Visits.mem_iff`: a search meets exactly what can be reached from its roots.
- `visits_foldl`: visiting the nodes of a list one after the other.
-/

universe u

namespace DepthFirst

variable {α : Type u} (next : α → Option (List α))

/-- A search that has met the nodes of the first list takes up the nodes of the second list in
turn, each with its successors before the next one, and ends with the third list. -/
inductive Visits : List α → List α → List α → Prop
  | done {met : List α} : Visits met [] met
  | skip {met xs met' : List α} {x : α} (hx : x ∈ met ∨ next x = none)
      (hrest : Visits met xs met') : Visits met (x :: xs) met'
  | visit {met xs children inner met' : List α} {x : α} (hx : x ∉ met)
      (hnext : next x = some children) (hinner : Visits (met ++ [x]) children inner)
      (hrest : Visits inner xs met') : Visits met (x :: xs) met'

/-- A node that exists and can be reached from the roots through nodes that exist. -/
inductive Reaches (roots : List α) : α → Prop
  | root {x : α} (hx : x ∈ roots) (hsome : (next x).isSome) : Reaches roots x
  | step {x y : α} {children : List α} (hx : Reaches roots x) (hnext : next x = some children)
      (hy : y ∈ children) (hsome : (next y).isSome) : Reaches roots y

variable {next} {roots met xs met' : List α} {x : α}

/-! ## Reachability -/

theorem Reaches.isSome (h : Reaches next roots x) : (next x).isSome := by
  cases h with
  | root hx hsome => exact hsome
  | step hx hnext hy hsome => exact hsome

/-- What is reached from reached nodes is reached. -/
theorem Reaches.trans {roots' : List α} (h : Reaches next roots' x)
    (hroots : ∀ y ∈ roots', (next y).isSome → Reaches next roots y) : Reaches next roots x := by
  induction h with
  | root hx hsome => exact hroots _ hx hsome
  | step hx hnext hy hsome ih => exact .step ih hnext hy hsome

/-! ## What a search meets -/

section

variable (h : Visits next met xs met')
include h

theorem Visits.prefix : met <+: met' := by
  induction h with
  | done => exact List.prefix_rfl
  | skip hx hrest ih => exact ih
  | visit hx hnext hinner hrest ihInner ihRest =>
    exact (List.prefix_append _ _).trans (ihInner.trans ihRest)

theorem Visits.nodup (hmet : met.Nodup) : met'.Nodup := by
  induction h with
  | done => exact hmet
  | skip hx hrest ih => exact ih hmet
  | visit hx hnext hinner hrest ihInner ihRest =>
    refine ihRest (ihInner ?_)
    rw [List.nodup_append]
    exact ⟨hmet, List.nodup_singleton _, fun a ha b hb heq =>
      hx (List.mem_singleton.mp hb ▸ heq ▸ ha)⟩

/-- The nodes that are taken up are met if they exist. -/
theorem Visits.complete :
    ∀ x ∈ xs, (next x).isSome → x ∈ met' := by
  induction h with
  | done => simp
  | @skip met xs met' x hx hrest ih =>
    intro y hy hsome
    rcases List.mem_cons.mp hy with rfl | hy
    · rcases hx with hmet | hnone
      · exact hrest.prefix.subset hmet
      · simp [hnone] at hsome
    · exact ih y hy hsome
  | @visit met xs children inner met' x hx hnext hinner hrest ihInner ihRest =>
    intro y hy hsome
    rcases List.mem_cons.mp hy with rfl | hy
    · have hgrows := hinner.prefix.trans hrest.prefix
      exact hgrows.subset (by simp)
    · exact ihRest y hy hsome

theorem Visits.closed :
    ∀ x ∈ met', x ∉ met → ∀ children, next x = some children →
      ∀ y ∈ children, (next y).isSome → y ∈ met' := by
  induction h with
  | done => exact fun x hx hnot => absurd hx hnot
  | skip hx hrest ih => exact ih
  | @visit met xs children inner met' x hx hnext hinner hrest ihInner ihRest =>
    intro z hz hnot children' hchildren y hy hsome
    by_cases hinnerMem : z ∈ inner
    · apply hrest.prefix.subset
      by_cases hnew : z ∈ met ++ [x]
      · -- The node itself: its successors were taken up.
        obtain rfl : z = x := by simpa [hnot] using hnew
        rw [hnext, Option.some.injEq] at hchildren
        exact hinner.complete y (hchildren ▸ hy) hsome
      · exact ihInner z hinnerMem hnew children' hchildren y hy hsome
    · exact ihRest z hz hinnerMem children' hchildren y hy hsome

theorem Visits.reaches (hxs : ∀ x ∈ xs, (next x).isSome → Reaches next roots x) :
    ∀ x ∈ met', x ∈ met ∨ Reaches next roots x := by
  induction h with
  | done => exact fun x hx => .inl hx
  | skip hx hrest ih => exact ih fun y hy => hxs y (List.mem_cons_of_mem _ hy)
  | @visit met xs children inner met' x hx hnext hinner hrest ihInner ihRest =>
    have hself := hxs x List.mem_cons_self (by simp [hnext])
    intro z hz
    rcases ihRest (fun y hy => hxs y (List.mem_cons_of_mem _ hy)) z hz with hmem | hreached
    · rcases ihInner (fun y hy => hself.step hnext hy) z hmem with hmet | hreached
      · rcases List.mem_append.mp hmet with hmet | hone
        · exact .inl hmet
        · exact .inr (List.mem_singleton.mp hone ▸ hself)
      · exact .inr hreached
    · exact .inr hreached

end

/-- A search meets exactly what can be reached from its roots. -/
theorem Visits.mem_iff (h : Visits next [] roots met') : x ∈ met' ↔ Reaches next roots x := by
  constructor
  · intro hx
    exact (h.reaches (fun y => Reaches.root) x hx).resolve_left List.not_mem_nil
  · intro hx
    induction hx with
    | root hx hsome => exact h.complete _ hx hsome
    | step hx hnext hy hsome ih => exact h.closed _ ih List.not_mem_nil _ hnext _ hy hsome

/-! ## Searches by recursion -/

theorem visits_foldl {f : List α → α → List α} {P : List α → Prop}
    (hf : ∀ met x, P met → Visits next met [x] (f met x))
    (hP : ∀ met met' xs, P met → Visits next met xs met' → P met') (xs : List α) (hmet : P met) :
    Visits next met xs (xs.foldl f met) := by
  induction xs generalizing met with
  | nil => exact .done
  | cons x xs ih =>
    have hfirst := hf met x hmet
    have hrest := ih (hP met _ [x] hmet hfirst)
    rw [List.foldl_cons]
    generalize f met x = inner at hfirst hrest
    cases hfirst with
    | skip hx hdone =>
      cases hdone
      exact .skip hx hrest
    | visit hx hnext hinner hdone =>
      cases hdone
      exact .visit hx hnext hinner hrest

end DepthFirst
