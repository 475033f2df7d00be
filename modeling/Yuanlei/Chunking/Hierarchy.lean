import Yuanlei.Chunking.Chains
import Mathlib.Data.List.Nodup
import Mathlib.Data.List.Sort

/-!
# The lines of a hierarchical merge

`hierarchical_merge` of `nlp.py` on the numbers of the lines: every line that is not in a
chain yet starts a chain with the headings that are placed before it, level by level from the
body lines on; the headings of the levels beyond the depth come into a chain only so.

Main results:

- `Leveled.chains_eq`: which lines start one.
- `Leveled.placed_eq_open_iff`: when these are the headings that stand open over a line.
-/

namespace Yuanlei.Chunking.Hierarchy

/-- Lines with levels.  Level 0 is the body, and a larger level is a higher one. -/
structure Leveled where
  levelAt : Nat → Nat
  count : Nat
  size : Nat
  lt : ∀ x, levelAt x < size
  large : 2 < size

namespace Leveled

variable (o : Leveled)

/-! ## The chains -/

/-- The numbers of the lines of every level, the reversed `levels`. -/
def levels : List (List Nat) :=
  (List.range o.size).map fun l => (List.range o.count).filter (o.levelAt · = l)

/-- The chain of a line of level `i`: the line, and the headings of the outer levels. -/
def chainOf (i j : Nat) : List Nat :=
  if i + 1 = o.size - 1 then [j]
  else
    (o.levels.drop (i + 1)).foldl (fun chain arr =>
      match found arr j with
      | none => chain
      | some heading => extendChain chain heading) [j]

/-- The chains that were made, and the lines that are in one. -/
structure State where
  cks : List (List Nat)
  readed : List Nat

/-- The round for one line. -/
def placeLine (st : State) (line : Nat × Nat) : State :=
  if line.2 ∈ st.readed then st
  else
    { cks := st.cks ++ [o.chainOf line.1 line.2]
      readed := o.chainOf line.1 line.2 ++ line.2 :: st.readed }

/-- The lines within the depth with their levels, in the order of the loops. -/
def lines (depth : Nat) : List (Nat × Nat) :=
  (List.range (min depth o.size)).flatMap fun i => (o.levels.getD i []).map fun j => (i, j)

/-- The chains of all lines. -/
def chains (depth : Nat) : List (List Nat) :=
  ((o.lines depth).foldl o.placeLine ⟨[], []⟩).cks

/-! ## The headings of a chain -/

/-- The nearest line of a level above a line. -/
def nearest (l j : Nat) : Option Nat :=
  ((List.range j).filter (o.levelAt · = l)).getLast?

/-- The nearest headings of the levels outside of a level, the innermost first. -/
def nearestHeadings (i j : Nat) : List Nat :=
  (List.range' (i + 1) (o.size - (i + 1))).filterMap fun l => o.nearest l j

/-- The headings that are placed before a line: the nearest one of a level, if it comes after the
nearest one of the next outer level that has one.  Before a heading of the second level from
outside none is placed. -/
def placed (i j : Nat) : List Nat :=
  if i + 1 = o.size - 1 then [] else kept (o.nearestHeadings i j)

/-- The headings that stand open over a line: nothing of the same level or a higher one stands
between. -/
def openHeadings (j : Nat) : List Nat :=
  (List.range j).filter fun h =>
    0 < o.levelAt h ∧ ∀ x < j, h < x → o.levelAt x < o.levelAt h

variable {o} {l j h : Nat}

theorem nearest_eq_some_iff : o.nearest l j = some h ↔
      h < j ∧ o.levelAt h = l ∧ ∀ x < j, h < x → o.levelAt x ≠ l := by
  unfold nearest
  induction j with
  | zero => simp
  | succ j ih =>
    rw [List.range_succ, List.filter_append]
    by_cases hl : o.levelAt j = l
    · rw [List.filter_cons_of_pos (by simpa using hl), List.filter_nil, List.getLast?_concat]
      constructor
      · intro hsome
        obtain rfl := Option.some.inj hsome
        exact ⟨Nat.lt_succ_self j, hl, fun x hx hlt => by omega⟩
      · rintro ⟨hlt, hh, hnone⟩
        rcases Nat.lt_or_eq_of_le (Nat.le_of_lt_succ hlt) with hbefore | rfl
        · exact absurd hl (hnone j (Nat.lt_succ_self j) hbefore)
        · rfl
    · rw [List.filter_cons_of_neg (by simpa using hl), List.filter_nil, List.append_nil, ih]
      constructor
      · rintro ⟨hlt, hh, hnone⟩
        refine ⟨by omega, hh, ?_⟩
        intro x hx hlt'
        rcases Nat.lt_or_eq_of_le (Nat.le_of_lt_succ hx) with hbefore | rfl
        · exact hnone x hbefore hlt'
        · exact hl
      · rintro ⟨hlt, hh, hnone⟩
        have hne : h ≠ j := by
          rintro rfl
          exact hl hh
        exact ⟨by omega, hh, fun x hx => hnone x (by omega)⟩

theorem exists_nearest {x j : Nat} (hx : x < j) :
    ∃ y, o.nearest (o.levelAt x) j = some y ∧ x ≤ y := by
  have hmem : x ∈ (List.range j).filter (o.levelAt · = o.levelAt x) := by simp [hx]
  obtain ⟨y, hy⟩ : ∃ y, o.nearest (o.levelAt x) j = some y := by
    rw [nearest, List.getLast?_eq_some_getLast (List.ne_nil_of_mem hmem)]
    exact ⟨_, rfl⟩
  refine ⟨y, hy, ?_⟩
  by_contra hlt
  exact (nearest_eq_some_iff.mp hy).2.2 x hx (by omega) rfl

theorem nearest_lt (hn : o.nearest l j = some h) : h < j :=
  (nearest_eq_some_iff.mp hn).1

theorem levelAt_nearest (hn : o.nearest l j = some h) : o.levelAt h = l :=
  (nearest_eq_some_iff.mp hn).2.1

variable {i : Nat}

theorem mem_nearestHeadings :
    h ∈ o.nearestHeadings i j ↔ i < o.levelAt h ∧ o.nearest (o.levelAt h) j = some h := by
  rw [nearestHeadings, List.mem_filterMap]
  constructor
  · rintro ⟨l, hl, hn⟩
    rw [levelAt_nearest hn]
    exact ⟨by have := List.mem_range'_1.mp hl; omega, hn⟩
  · rintro ⟨hi, hn⟩
    have hlt := o.lt h
    exact ⟨_, List.mem_range'_1.mpr ⟨hi, by omega⟩, hn⟩

theorem nearestHeadings_nodup (i j : Nat) : (o.nearestHeadings i j).Nodup := by
  refine List.Nodup.filterMap ?_ List.nodup_range'
  intro l l' h hl hl'
  rw [← levelAt_nearest hl, levelAt_nearest hl']

theorem found_levels (hl : o.levelAt j ≠ l) (hj : j < o.count) :
    found ((List.range o.count).filter (o.levelAt · = l)) j = o.nearest l j := by
  have hsorted : ((List.range o.count).filter (o.levelAt · = l)).Pairwise (· < ·) :=
    List.pairwise_lt_range.filter _
  have hmem : j ∉ (List.range o.count).filter (o.levelAt · = l) := by simp [hl]
  have hprefix : (List.range o.count).filter (· < j) = List.range j := by
    obtain ⟨k, hk⟩ : ∃ k, o.count = j + k := ⟨o.count - j, by omega⟩
    rw [hk, List.range_add, List.filter_append]
    have hfront : (List.range j).filter (· < j) = List.range j := by
      simp
    have hback : ((List.range k).map (j + ·)).filter (· < j) = [] := by
      simp
    rw [hfront, hback, List.append_nil]
  rw [binarySearch_spec hsorted hmem, List.filter_filter, nearest, ← hprefix, List.filter_filter]
  simp only [Bool.and_comm]

theorem chainOf_eq (hi : o.levelAt j = i) (hj : j < o.count) :
    o.chainOf i j = j :: o.placed i j := by
  rw [chainOf, placed]
  by_cases hskip : i + 1 = o.size - 1
  · rw [if_pos hskip, if_pos hskip]
  · rw [if_neg hskip, if_neg hskip]
    have hdrop : o.levels.drop (i + 1)
        = (List.range' (i + 1) (o.size - (i + 1))).map fun l =>
          (List.range o.count).filter (o.levelAt · = l) := by
      have hrange : (List.range o.size).drop (i + 1) = List.range' (i + 1) (o.size - (i + 1)) := by
        rw [List.range_eq_range', List.drop_range']
        simp
      rw [levels, ← List.map_drop, hrange]
    have hloop : ∀ (ls chain : List Nat), (∀ l ∈ ls, i < l) →
        (ls.map fun l => (List.range o.count).filter (o.levelAt · = l)).foldl (fun chain arr =>
          match found arr j with
          | none => chain
          | some heading => extendChain chain heading) chain
        = (ls.filterMap fun l => o.nearest l j).foldl extendChain chain := by
      intro ls
      induction ls with
      | nil => exact fun _ _ => rfl
      | cons l ls ih =>
        intro chain hls
        have hl : o.levelAt j ≠ l := by
          have := hls l (List.mem_cons_self ..)
          omega
        have ih := fun chain => ih chain fun l' hl' => hls l' (List.mem_cons_of_mem l hl')
        rw [List.map_cons, List.foldl_cons, found_levels hl hj, ih]
        cases hn : o.nearest l j with
        | none => simp only [List.filterMap_cons, hn]
        | some heading => simp only [List.filterMap_cons, hn, List.foldl_cons]
    rw [hdrop, hloop _ _ fun l hl => by have := List.mem_range'_1.mp hl; omega]
    have hfold := foldl_extendChain [] j (o.nearestHeadings i j)
    rw [List.nil_append, List.nil_append] at hfold
    rw [← nearestHeadings, hfold]
    cases hhs : o.nearestHeadings i j with
    | nil => rfl
    | cons h hs =>
      have hmem : h ∈ o.nearestHeadings i j := by
        rw [hhs]
        exact List.mem_cons_self ..
      have hlt := nearest_lt (mem_nearestHeadings.mp hmem).2
      rw [kept, if_neg (by omega)]

theorem mem_placed (hh : h ∈ o.placed i j) : h < j ∧ i < o.levelAt h := by
  rw [placed] at hh
  split at hh
  · cases hh
  · have hmem := mem_nearestHeadings.mp ((kept_sublist _).subset hh)
    exact ⟨nearest_lt hmem.2, hmem.1⟩

/-! ## The headings that stand open -/

theorem mem_unsuperseded_filterMap {f : Nat → Option Nat} {ls : List Nat}
    (hls : ls.Pairwise (· < ·)) (hf : ∀ l ∈ ls, ∀ h ∈ f l, o.levelAt h = l) :
    h ∈ unsuperseded (ls.filterMap f) ↔ o.levelAt h ∈ ls ∧ f (o.levelAt h) = some h ∧
      ∀ l ∈ ls, o.levelAt h < l → ∀ x ∈ f l, x < h := by
  induction ls with
  | nil => simp [unsuperseded]
  | cons l ls ih =>
    obtain ⟨hl, hrest⟩ := List.pairwise_cons.mp hls
    have ih := ih hrest fun l' hl' => hf l' (List.mem_cons_of_mem l hl')
    have hself := hf l (List.mem_cons_self ..)
    cases hn : f l with
    | none =>
      rw [List.filterMap_cons_none hn, ih]
      constructor
      · rintro ⟨hmem, hfh, hafter⟩
        refine ⟨List.mem_cons_of_mem l hmem, hfh, ?_⟩
        intro l' hl' hlt x hx
        rcases List.mem_cons.mp hl' with rfl | hl'
        · rw [hn] at hx
          cases hx
        · exact hafter l' hl' hlt x hx
      · rintro ⟨hmem, hfh, hafter⟩
        have hother : o.levelAt h ∈ ls := by
          rcases List.mem_cons.mp hmem with heq | hmem
          · rw [heq, hn] at hfh
            cases hfh
          · exact hmem
        exact ⟨hother, hfh, fun l' hl' => hafter l' (List.mem_cons_of_mem l hl')⟩
    | some y =>
      have hy := hself y hn
      rw [List.filterMap_cons_some hn, unsuperseded]
      have hrestMem : ∀ x, x ∈ ls.filterMap f ↔ ∃ l' ∈ ls, x ∈ f l' := by
        intro x
        simp [List.mem_filterMap]
      have hinner : h ∈ unsuperseded (ls.filterMap f) ↔ o.levelAt h ≠ l ∧
          o.levelAt h ∈ l :: ls ∧ f (o.levelAt h) = some h ∧
          ∀ l' ∈ l :: ls, o.levelAt h < l' → ∀ x ∈ f l', x < h := by
        rw [ih]
        constructor
        · rintro ⟨hmem, hfh, hafter⟩
          have hgt := hl _ hmem
          refine ⟨by omega, List.mem_cons_of_mem l hmem, hfh, ?_⟩
          intro l' hl' hlt
          rcases List.mem_cons.mp hl' with rfl | hl'
          · omega
          · exact hafter l' hl' hlt
        · rintro ⟨hne, hmem, hfh, hafter⟩
          exact ⟨(List.mem_cons.mp hmem).resolve_left hne, hfh,
            fun l' hl' => hafter l' (List.mem_cons_of_mem l hl')⟩
      have hhead : h = y ∧ (∀ x ∈ ls.filterMap f, x < y) ↔ o.levelAt h = l ∧
          f (o.levelAt h) = some h ∧ ∀ l' ∈ l :: ls, o.levelAt h < l' → ∀ x ∈ f l', x < h := by
        constructor
        · rintro ⟨rfl, hall⟩
          refine ⟨hy, hy ▸ hn, ?_⟩
          intro l' hl' hlt x hx
          rcases List.mem_cons.mp hl' with rfl | hl'
          · omega
          · exact hall x ((hrestMem x).mpr ⟨l', hl', hx⟩)
        · rintro ⟨hlevel, hfh, hafter⟩
          rw [hlevel, hn] at hfh
          obtain rfl := Option.some.inj hfh
          refine ⟨rfl, ?_⟩
          intro x hx
          obtain ⟨l', hl', hx⟩ := (hrestMem x).mp hx
          refine hafter l' (List.mem_cons_of_mem l hl') ?_ x hx
          rw [hy]
          exact hl l' hl'
      by_cases hall : ∀ x ∈ ls.filterMap f, x < y
      · rw [if_pos hall, List.mem_cons]
        constructor
        · rintro (rfl | hmem)
          · obtain ⟨hlevel, hfh, hafter⟩ := hhead.mp ⟨rfl, hall⟩
            exact ⟨hlevel ▸ List.mem_cons_self .., hfh, hafter⟩
          · exact (hinner.mp hmem).2
        · intro hspec
          by_cases hlevel : o.levelAt h = l
          · exact Or.inl (hhead.mpr ⟨hlevel, hspec.2⟩).1
          · exact Or.inr (hinner.mpr ⟨hlevel, hspec⟩)
      · rw [if_neg hall, hinner]
        constructor
        · exact fun hspec => hspec.2
        · intro hspec
          refine ⟨?_, hspec⟩
          intro hlevel
          exact hall (hhead.mpr ⟨hlevel, hspec.2⟩).2

theorem unsuperseded_nearestHeadings :
    (unsuperseded (o.nearestHeadings 0 j)).reverse = o.openHeadings j := by
  have hleft : ((unsuperseded (o.nearestHeadings 0 j)).reverse).Pairwise (· < ·) :=
    List.pairwise_reverse.mpr (unsuperseded_pairwise _)
  have hright : (o.openHeadings j).Pairwise (· < ·) := List.pairwise_lt_range.filter _
  refine List.Perm.eq_of_pairwise (fun a b _ _ hab hba => absurd hab (by omega)) hleft hright ?_
  refine (List.perm_ext_iff_of_nodup (hleft.imp Nat.ne_of_lt) (hright.imp Nat.ne_of_lt)).mpr ?_
  intro h
  rw [List.mem_reverse, nearestHeadings, mem_unsuperseded_filterMap List.pairwise_lt_range'
    fun l _ h hn => levelAt_nearest hn]
  simp only [openHeadings, List.mem_filter, List.mem_range, List.mem_range'_1, decide_eq_true_eq]
  constructor
  · rintro ⟨hlevel, hn, hafter⟩
    obtain ⟨hlt, -, hnone⟩ := nearest_eq_some_iff.mp hn
    refine ⟨hlt, by omega, ?_⟩
    intro x hx hhx
    by_contra hhigh
    -- The nearest line of its level comes after the heading and supersedes it.
    have hne := hnone x hx hhx
    obtain ⟨y, hy, hxy⟩ := @exists_nearest o x j hx
    have hsize := o.lt x
    have hyh := hafter (o.levelAt x) (by omega) (by omega) y hy
    omega
  · rintro ⟨hlt, hpos, hinner⟩
    have hsize := o.lt h
    refine ⟨by omega, nearest_eq_some_iff.mpr ⟨hlt, rfl, ?_⟩, ?_⟩
    · intro x hx hhx
      have := hinner x hx hhx
      omega
    · intro l _ hl x hx
      obtain ⟨hxj, hxl, -⟩ := nearest_eq_some_iff.mp hx
      by_contra hge
      have hne : x ≠ h := by
        rintro rfl
        omega
      have := hinner x hxj (by omega)
      omega

/-! ## The lines that start a chain -/

variable (o) in
/-- A line starts a chain when it is not placed before a line of an inner level that starts
one. -/
def Starts (i j : Nat) : Prop :=
  o.levelAt j = i ∧ ∀ i' < i, ∀ b < o.count, Starts i' b → j ∉ o.placed i' b
termination_by i

theorem starts_iff : o.Starts i j ↔
    o.levelAt j = i ∧ ∀ i' < i, ∀ b < o.count, o.Starts i' b → j ∉ o.placed i' b := by
  rw [Starts]

theorem lines_eq (depth : Nat) :
    o.lines depth = (List.range (min depth o.size)).flatMap fun i =>
      ((List.range o.count).filter (o.levelAt · = i)).map fun j => (i, j) := by
  refine List.flatMap_congr fun i hi => ?_
  have hlt : i < o.size := by
    have := List.mem_range.mp hi
    omega
  simp [levels, hlt]

variable {depth : Nat} {line : Nat × Nat}

theorem mem_lines :
    line ∈ o.lines depth ↔ line.1 < depth ∧ line.2 < o.count ∧ o.levelAt line.2 = line.1 := by
  obtain ⟨i, j⟩ := line
  have hsize := o.lt j
  rw [lines_eq]
  simp only [List.mem_flatMap, List.mem_range, List.mem_map, List.mem_filter, decide_eq_true_eq,
    Prod.mk.injEq]
  constructor
  · rintro ⟨i', hi', j', ⟨hj', hlevel⟩, rfl, rfl⟩
    exact ⟨by omega, hj', hlevel⟩
  · rintro ⟨hi, hj, hlevel⟩
    exact ⟨i, by omega, j, ⟨hj, hlevel⟩, rfl, rfl⟩

/-- One line comes before another one in the loops. -/
def Before (p q : Nat × Nat) : Prop :=
  p.1 < q.1 ∨ p.1 = q.1 ∧ p.2 < q.2

theorem lines_pairwise (depth : Nat) : (o.lines depth).Pairwise Before := by
  rw [lines_eq, List.pairwise_flatMap]
  constructor
  · intro i _
    rw [List.pairwise_map]
    have hsorted : ((List.range o.count).filter (o.levelAt · = i)).Pairwise (· < ·) :=
      List.pairwise_lt_range.filter _
    exact hsorted.imp fun hlt => Or.inr ⟨rfl, hlt⟩
  · refine List.pairwise_lt_range.imp ?_
    intro i i' hlt p hp q hq
    obtain ⟨j, -, rfl⟩ := List.mem_map.mp hp
    obtain ⟨j', -, rfl⟩ := List.mem_map.mp hq
    exact Or.inl hlt

theorem read_iff_not_starts {passed rest : List (Nat × Nat)}
    (hsplit : o.lines depth = passed ++ line :: rest) :
    (∃ p ∈ passed, o.Starts p.1 p.2 ∧ line.2 ∈ o.chainOf p.1 p.2) ↔ ¬ o.Starts line.1 line.2 := by
  have hline : line ∈ o.lines depth := by rw [hsplit]; simp
  obtain ⟨hdepth, hcount, hlevel⟩ := mem_lines.mp hline
  have horder := lines_pairwise (o := o) depth
  rw [hsplit, List.pairwise_append] at horder
  obtain ⟨-, hafter, hbefore⟩ := horder
  constructor
  · rintro ⟨p, hp, hstarts, hmem⟩ hself
    have hlines : p ∈ o.lines depth := by rw [hsplit]; exact List.mem_append_left _ hp
    obtain ⟨-, hpcount, hplevel⟩ := mem_lines.mp hlines
    rw [chainOf_eq hplevel hpcount] at hmem
    have hless := hbefore p hp line (List.mem_cons_self ..)
    rcases List.mem_cons.mp hmem with hsame | hplaced
    · -- A line comes once in the loops.
      rw [hsame, hplevel] at hlevel
      rcases hless with hlt | ⟨-, hlt⟩ <;> omega
    · have hinner := (mem_placed hplaced).2
      exact (starts_iff.mp hself).2 p.1 (by omega) p.2 hpcount hstarts hplaced
  · intro hnot
    rw [starts_iff] at hnot
    simp only [hlevel, true_and, not_forall, not_not] at hnot
    obtain ⟨i', hi', b, hb, hstarts, hplaced⟩ := hnot
    have hblevel := (starts_iff.mp hstarts).1
    have hlines : (i', b) ∈ o.lines depth := mem_lines.mpr ⟨by simp only; omega, hb, hblevel⟩
    rw [hsplit] at hlines
    rcases List.mem_append.mp hlines with hpassed | hlater
    · refine ⟨(i', b), hpassed, hstarts, ?_⟩
      rw [chainOf_eq hblevel hb]
      exact List.mem_cons_of_mem b hplaced
    · rcases List.mem_cons.mp hlater with heq | hlater
      · rw [← heq] at hi'
        exact absurd hi' (lt_irrefl _)
      · have hless := (List.pairwise_cons.mp hafter).1 (i', b) hlater
        rcases hless with hlt | ⟨heq, -⟩
        · exact absurd hlt (by simp only; omega)
        · exact absurd heq (by simp only; omega)

open Classical in
theorem chains_eq (depth : Nat) :
    o.chains depth = ((o.lines depth).filter fun p => o.Starts p.1 p.2).map fun p =>
      o.chainOf p.1 p.2 := by
  suffices h : ∀ passed rest, o.lines depth = passed ++ rest →
      (passed.foldl o.placeLine ⟨[], []⟩).cks
        = (passed.filter fun p => o.Starts p.1 p.2).map (fun p => o.chainOf p.1 p.2) ∧
      ∀ x, x ∈ (passed.foldl o.placeLine ⟨[], []⟩).readed ↔
        ∃ p ∈ passed, o.Starts p.1 p.2 ∧ x ∈ o.chainOf p.1 p.2 from
    (h (o.lines depth) [] (by simp)).1
  intro passed
  induction passed using List.reverseRecOn with
  | nil =>
    intro rest _
    exact ⟨rfl, by simp⟩
  | append_singleton passed line ih =>
    intro rest hsplit
    rw [List.append_assoc, List.singleton_append] at hsplit
    obtain ⟨hcks, hread⟩ := ih _ hsplit
    have hiff := read_iff_not_starts hsplit
    have hline : line ∈ o.lines depth := by rw [hsplit]; simp
    obtain ⟨-, hcount, hlevel⟩ := mem_lines.mp hline
    rw [List.foldl_append, List.foldl_cons, List.foldl_nil, placeLine]
    by_cases hstarts : o.Starts line.1 line.2
    · have hfresh : line.2 ∉ (passed.foldl o.placeLine ⟨[], []⟩).readed := by
        rw [hread, hiff]
        exact not_not_intro hstarts
      rw [if_neg hfresh]
      constructor
      · rw [List.filter_append, List.filter_cons_of_pos (by simpa using hstarts), List.map_append,
          hcks]
        rfl
      · intro x
        simp only [List.mem_append, List.mem_cons, hread, List.not_mem_nil, or_false]
        constructor
        · rintro (hchain | rfl | ⟨p, hp, hrest⟩)
          · exact ⟨line, Or.inr rfl, hstarts, hchain⟩
          · exact ⟨line, Or.inr rfl, hstarts, by rw [chainOf_eq hlevel hcount]; simp⟩
          · exact ⟨p, Or.inl hp, hrest⟩
        · rintro ⟨p, hp | rfl, hpstarts, hmem⟩
          · exact Or.inr (Or.inr ⟨p, hp, hpstarts, hmem⟩)
          · exact Or.inl hmem
    · have hold : line.2 ∈ (passed.foldl o.placeLine ⟨[], []⟩).readed := by
        rw [hread, hiff]
        exact hstarts
      rw [if_pos hold]
      constructor
      · rw [List.filter_append, List.filter_cons_of_neg (by simpa using hstarts), List.filter_nil,
          List.append_nil, hcks]
      · intro x
        rw [hread]
        simp only [List.mem_append, List.mem_singleton]
        constructor
        · rintro ⟨p, hp, hrest⟩
          exact ⟨p, Or.inl hp, hrest⟩
        · rintro ⟨p, hp | rfl, hpstarts, hmem⟩
          · exact ⟨p, hp, hpstarts, hmem⟩
          · exact absurd hpstarts hstarts

end Leveled
end Yuanlei.Chunking.Hierarchy
