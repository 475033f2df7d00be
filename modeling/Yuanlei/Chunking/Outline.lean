import Yuanlei.Chunking.Node

/-!
# Headings over lines

Which texts the tree of headings gives.  The lines are numbered in the order of the document.
A heading is a line that is not deeper than the tree; the headings over a line are the nearest
lines above it of strictly decreasing level, and the lines directly below a heading are those
before the next heading.

Main results:

- `getTree_keeps_lines`: no line is lost, lines stay in order, and a line comes under
  its headings.
- `heading_followed_by_its_lines`: the headings over a line need not stand next to
  each other.
-/

namespace Yuanlei.Chunking

open PosixPath (Text)
open Node

/-! ## Headings over a line -/

/-- The nearest lines of strictly decreasing level below a bound, from the levels of the lines
above with the nearest one first; each with its level and its number. -/
def headingsAbove (bound : Int) : List Nat → List (Nat × Nat)
  | [] => []
  | level :: above =>
    if level < bound then (level, above.length) :: headingsAbove level above
    else headingsAbove bound above

/-- The headings over a line of a tree of some depth, the outermost first. -/
def enclosing (depth : Int) (levels : List Nat) (i : Nat) : List Nat :=
  ((headingsAbove (depth + 1) (levels.take i).reverse).map (·.2)).reverse

/-- A heading and the lines directly below it. -/
def segment (depth : Int) (levels : List Nat) (heading : Nat) : List Nat :=
  heading :: List.range' (heading + 1)
    ((levels.drop (heading + 1)).takeWhile fun (level : Nat) => depth < level).length

/-- The lines from the outermost heading over a line down to the line itself: each heading
is followed by the lines directly below it. -/
def linesDownTo (depth : Int) (levels : List Nat) (i : Nat) : List Nat :=
  (enclosing depth levels i).flatMap (segment depth (levels.take (i + 1)))

section HeadingsAbove

variable {depth bound : Int}

theorem headingsAbove_dropWhile {bound' : Int} (h : bound ≤ bound') (above : List Nat) :
    (headingsAbove bound' above).dropWhile (fun e => bound ≤ (e.1 : Int))
      = headingsAbove bound above := by
  induction above generalizing bound' with
  | nil => rfl
  | cons level above ih =>
    unfold headingsAbove
    by_cases hlow : (level : Int) < bound
    · have hlow' : (level : Int) < bound' := by
        omega
      rw [if_pos hlow, if_pos hlow', List.dropWhile_cons_of_neg (by simpa using hlow)]
    · rw [if_neg hlow]
      by_cases hmiddle : (level : Int) < bound'
      · rw [if_pos hmiddle, List.dropWhile_cons_of_pos (by simpa using hlow)]
        exact ih (by omega)
      · rw [if_neg hmiddle]
        exact ih h

variable {above : List Nat} {e : Nat × Nat}

theorem mem_headingsAbove (h : e ∈ headingsAbove bound above) :
    e.2 < above.length ∧ above.reverse[e.2]? = some e.1 ∧ (e.1 : Int) < bound := by
  induction above generalizing bound with
  | nil => cases h
  | cons level above ih =>
    unfold headingsAbove at h
    rw [List.reverse_cons]
    split at h
    · rename_i hlow
      rcases List.mem_cons.mp h with heq | hmem
      · rw [heq]
        refine ⟨by simp, ?_, hlow⟩
        simp
      · obtain ⟨hlt, hget, hbound⟩ := ih hmem
        refine ⟨by simp only [List.length_cons]; omega, ?_, by omega⟩
        rw [List.getElem?_append_left (by simpa using hlt)]
        exact hget
    · obtain ⟨hlt, hget, hbound⟩ := ih h
      refine ⟨by simp only [List.length_cons]; omega, ?_, hbound⟩
      rw [List.getElem?_append_left (by simpa using hlt)]
      exact hget

variable {rest : List (Nat × Nat)}

theorem deep_after_nearest (h : headingsAbove bound above = e :: rest) :
    ∀ level ∈ above.reverse.drop (e.2 + 1), bound ≤ (level : Int) := by
  induction above with
  | nil => cases h
  | cons level above ih =>
    unfold headingsAbove at h
    split at h
    · rw [List.cons.injEq] at h
      rw [← h.1, List.drop_eq_nil_of_le (by simp)]
      simp
    · rename_i hhigh
      have hlt : e.2 < above.length := (mem_headingsAbove (h ▸ List.mem_cons_self)).1
      rw [List.reverse_cons,
        List.drop_append_of_le_length (by simp only [List.length_reverse]; omega)]
      intro l hmem
      rcases List.mem_append.mp hmem with hmem | hmem
      · exact ih h l hmem
      · rw [List.mem_singleton.mp hmem]
        exact Int.not_lt.mp hhigh

theorem lt_nearest {e' : Nat × Nat} (h : headingsAbove bound above = e :: rest) (hmem : e' ∈ rest) :
    e'.2 < e.2 := by
  induction above with
  | nil => cases h
  | cons level above ih =>
    unfold headingsAbove at h
    split at h
    · rw [List.cons.injEq] at h
      rw [← h.2] at hmem
      rw [← h.1]
      exact (mem_headingsAbove hmem).1
    · exact ih h

end HeadingsAbove

/-! ## The open headings of the stack -/

section Entries

variable {depth : Int} {levels : List Nat} {heading level : Nat}

theorem segment_snoc_deep (hlt : heading < levels.length) (hdeep : depth < level)
    (hafter : ∀ l ∈ levels.drop (heading + 1), depth < (l : Int)) :
    segment depth (levels ++ [level]) heading
      = segment depth levels heading ++ [levels.length] := by
  have hall : ∀ l ∈ levels.drop (heading + 1) ++ [level], depth < (l : Int) := by
    intro l hmem
    rcases List.mem_append.mp hmem with hmem | hmem
    · exact hafter l hmem
    · rw [List.mem_singleton.mp hmem]
      exact hdeep
  have hlength : heading + 1 + (levels.length - (heading + 1)) = levels.length := by
    omega
  unfold segment
  rw [List.drop_append_of_le_length (by omega),
    List.takeWhile_eq_self_iff.mpr fun l hmem => decide_eq_true (hall l hmem),
    List.takeWhile_eq_self_iff.mpr fun l hmem => decide_eq_true (hafter l hmem),
    List.length_append, List.length_singleton, List.range'_1_concat, List.length_drop, hlength,
    List.cons_append]

theorem segment_snoc_closed (hlt : heading < levels.length)
    (hclosed : ¬ depth < (level : Int) ∨ ∃ l ∈ levels.drop (heading + 1), ¬ depth < (l : Int)) :
    segment depth (levels ++ [level]) heading = segment depth levels heading := by
  unfold segment
  rw [List.drop_append_of_le_length (by omega), List.takeWhile_append]
  split
  · rename_i hall
    have heq := List.takeWhile_eq_self_iff.mp (List.IsPrefix.eq_of_length
      (List.takeWhile_prefix _) hall)
    rcases hclosed with hhigh | ⟨l, hmem, hhigh⟩
    · simp [hhigh, hall]
    · exact absurd (of_decide_eq_true (heq l hmem)) hhigh
  · rfl

theorem segment_fresh (level : Nat) :
    segment depth (levels ++ [level]) levels.length = [levels.length] := by
  simp [segment]

/-- The lines of a document with their numbers. -/
def numbered (levels : List Nat) : List (Nat × Nat) :=
  levels.zipIdx

theorem numbered_snoc (levels : List Nat) (level : Nat) :
    numbered (levels ++ [level]) = numbered levels ++ [(level, levels.length)] := by
  simp [numbered, List.zipIdx_append]

/-- The open headings are the headings over the next line with the lines directly below them. -/
theorem viewOf_entries (depth : Int) (levels : List Nat) : (viewOf depth (numbered levels)).2
      = (headingsAbove (depth + 1) levels.reverse).map fun e =>
          (e.1, segment depth levels e.2) := by
  induction levels using List.reverseRecOn with
  | nil => rfl
  | append_singleton levels level ih =>
    rw [numbered_snoc, viewOf, List.foldl_append, ← viewOf, List.reverse_append]
    simp only [List.foldl_cons, List.foldl_nil, List.reverse_cons, List.reverse_nil,
      List.nil_append, List.singleton_append]
    by_cases hdeep : depth < (level : Int)
    · have habove : headingsAbove (depth + 1) (level :: levels.reverse)
          = headingsAbove (depth + 1) levels.reverse := if_neg (by omega)
      rw [habove]
      unfold viewStep
      rw [if_pos hdeep]
      cases hopen : headingsAbove (depth + 1) levels.reverse with
      | nil =>
        rw [hopen, List.map_nil] at ih
        rw [ih]
        rfl
      | cons e rest =>
        rw [hopen, List.map_cons] at ih
        rw [ih]
        have hhead := mem_headingsAbove (hopen ▸ List.mem_cons_self)
        rw [List.length_reverse, List.reverse_reverse] at hhead
        have hafter := deep_after_nearest hopen
        rw [List.reverse_reverse] at hafter
        have hrest : ∀ e' ∈ rest, segment depth (levels ++ [level]) e'.2
            = segment depth levels e'.2 := by
          intro e' hmem
          have hlt := lt_nearest hopen hmem
          refine segment_snoc_closed (by omega) (Or.inr ⟨e.1, ?_, by omega⟩)
          rw [List.mem_iff_getElem?]
          refine ⟨e.2 - (e'.2 + 1), ?_⟩
          rw [List.getElem?_drop, ← hhead.2.1]
          congr 1
          omega
        simp only [List.map_cons, segment_snoc_deep hhead.1 hdeep fun l hmem => by
          have hl := hafter l hmem
          omega]
        congr 1
        exact List.map_congr_left fun e' hmem => by rw [hrest e' hmem]
    · have habove : headingsAbove (depth + 1) (level :: levels.reverse)
          = (level, levels.length) :: headingsAbove level levels.reverse := by
        rw [headingsAbove, if_pos (by omega), List.length_reverse]
      rw [habove]
      unfold viewStep
      rw [if_neg hdeep, ih]
      have hbound : (level : Int) ≤ depth + 1 := by
        omega
      have hold : ∀ e ∈ headingsAbove level levels.reverse,
          segment depth (levels ++ [level]) e.2 = segment depth levels e.2 := by
        intro e hmem
        have hlt := (mem_headingsAbove hmem).1
        rw [List.length_reverse] at hlt
        exact segment_snoc_closed hlt (Or.inl hdeep)
      have hdrop : ((headingsAbove (depth + 1) levels.reverse).map fun e =>
          (e.1, segment depth levels e.2)).dropWhile (fun e => level ≤ e.1)
            = (headingsAbove level levels.reverse).map fun e =>
                (e.1, segment depth levels e.2) := by
        rw [List.dropWhile_map, ← headingsAbove_dropWhile hbound levels.reverse]
        congr 2
        funext e
        simp
      have hsame : ((headingsAbove level levels.reverse).map fun e =>
          (e.1, segment depth (levels ++ [level]) e.2))
            = (headingsAbove level levels.reverse).map fun e =>
                (e.1, segment depth levels e.2) :=
        List.map_congr_left fun e hmem => by rw [hold e hmem]
      rw [List.map_cons, segment_fresh, hdrop, hsame]

/-- The text that the walk is at after a deep line goes down to this line. -/
theorem current_eq_linesDownTo (hdeep : depth < (level : Int))
    (hheading : headingsAbove (depth + 1) levels.reverse ≠ []) :
    (viewOf depth (numbered (levels ++ [level]))).current
      = linesDownTo depth (levels ++ [level]) levels.length := by
  have habove : headingsAbove (depth + 1) (levels ++ [level]).reverse
      = headingsAbove (depth + 1) levels.reverse := by
    rw [List.reverse_append, List.reverse_singleton, List.singleton_append]
    exact if_neg (by omega)
  have htake : (levels ++ [level]).take (levels.length + 1) = levels ++ [level] :=
    List.take_of_length_le (by simp)
  have hopen : (viewOf depth (numbered (levels ++ [level]))).2 ≠ [] := by
    rw [viewOf_entries, habove]
    simpa using hheading
  rw [View.current, if_neg hopen, viewOf_entries, habove, linesDownTo, enclosing, htake,
    List.take_left', path, ← List.map_reverse, ← List.map_reverse, List.flatMap_map,
    List.flatMap_map]
  rfl

end Entries

/-! ## Numbers for texts -/

/-- Numbers in the place of texts. -/
def renameView {β : Type} (f : Nat → β) (view : View Nat) : View β :=
  (view.1.map f, view.2.map fun e => (e.1, e.2.map f))

section Rename

variable {depth : Int} {β : Type} (f : Nat → β) (view : View Nat)

theorem current_rename : (renameView f view).current = view.current.map f := by
  obtain ⟨intro, entries⟩ := view
  cases entries with
  | nil => rfl
  | cons e entries =>
    simp [renameView, View.current, path, ← List.map_reverse, List.flatMap_map, List.map_flatMap]

theorem viewStep_rename (level i : Nat) :
    viewStep depth (renameView f view) (level, f i) = renameView f (viewStep depth view (level, i)) := by
  obtain ⟨intro, entries⟩ := view
  unfold viewStep
  split
  · cases entries with
    | nil => simp [renameView]
    | cons e entries => simp [renameView]
  · simp only [renameView, List.map_cons, List.map_nil, List.dropWhile_map]
    rfl

/-- The lines with the texts of their numbers. -/
def titled (levels : List Nat) : List (Nat × β) :=
  (numbered levels).map fun line => (line.1, f line.2)

variable (levels : List Nat)

theorem titled_snoc (level : Nat) :
    titled f (levels ++ [level]) = titled f levels ++ [(level, f levels.length)] := by
  simp [titled, numbered_snoc]

theorem viewOf_titled :
    viewOf depth (titled f levels) = renameView f (viewOf depth (numbered levels)) := by
  induction levels using List.reverseRecOn with
  | nil => rfl
  | append_singleton levels level ih =>
    rw [titled_snoc, numbered_snoc, viewOf, viewOf, List.foldl_append, List.foldl_append,
      ← viewOf, ← viewOf, ih]
    exact viewStep_rename f _ level levels.length

end Rename

/-! ## No line is lost -/

/-- The numbers of the lines of each text. -/
structure Indexed {β : Type} (depth : Int) (f : Nat → β) (levels : List Nat)
    (index : List (List Nat)) : Prop where
  outputs : outputs depth (openNodes depth (titled f levels)) = index.map (List.map f)
  covered : ∀ i < levels.length, ∃ is ∈ index, i ∈ is
  ordered : ∀ is ∈ index, is.Pairwise (· < ·) ∧ ∀ i ∈ is, i < levels.length
  headed : ∀ i level : Nat, levels[i]? = some level → depth < (level : Int) →
    ∃ is ∈ index, i ∈ is ∧ linesDownTo depth levels i <+: is
  current : (viewOf depth (numbered levels)).current = [] ∨
    index.getLast? = some (viewOf depth (numbered levels)).current

section Index

variable {depth : Int} {β : Type} {f : Nat → β}

theorem path_dropWhile_prefix {α : Type} (p : Nat × List α → Bool)
    (entries : List (Nat × List α)) : path (entries.dropWhile p) <+: path entries := by
  induction entries with
  | nil => exact List.prefix_refl _
  | cons e entries ih =>
    by_cases he : p e = true
    · rw [List.dropWhile_cons_of_pos he, path_cons]
      exact ih.trans (List.prefix_append _ _)
    · have hsame : (e :: entries).dropWhile p = e :: entries := List.dropWhile_cons_of_neg he
      exact hsame.symm ▸ List.prefix_refl (path (e :: entries))

/-- A line is put behind a part of the text that the walk was at. -/
theorem current_viewStep (view : View Nat) (level i : Nat) :
    ∃ p, p <+: view.current ∧ (viewStep depth view (level, i)).current = p ++ [i] := by
  by_cases hdeep : depth < (level : Int)
  · exact ⟨view.current, List.prefix_refl _, viewStep_deep hdeep⟩
  · refine ⟨_, ?_, viewStep_heading hdeep⟩
    unfold View.current
    split
    · rename_i hnil
      rw [hnil]
      exact List.nil_prefix
    · exact path_dropWhile_prefix _ _

theorem viewOf_snoc (levels : List Nat) (level : Nat) : viewOf depth (numbered (levels ++ [level]))
      = viewStep depth (viewOf depth (numbered levels)) (level, levels.length) := by
  rw [numbered_snoc, viewOf, List.foldl_append]
  rfl

variable {levels : List Nat} {level : Nat}

theorem linesDownTo_snoc {i : Nat} (h : i < levels.length) :
    linesDownTo depth (levels ++ [level]) i = linesDownTo depth levels i := by
  rw [linesDownTo, linesDownTo, enclosing, enclosing, List.take_append_of_le_length (by omega),
    List.take_append_of_le_length (by omega)]

/-- The texts that there were are there or are gone on with, and the new line is in one. -/
theorem Indexed.snoc {index index' : List (List Nat)} {c : List Nat}
    (h : Indexed depth f levels index)
    (houtputs : Node.outputs depth (openNodes depth (titled f (levels ++ [level])))
      = index'.map (List.map f))
    (hc : (viewOf depth (numbered (levels ++ [level]))).current = c)
    (hlast : index'.getLast? = some c) (hextends : ∀ is ∈ index, ∃ is' ∈ index', is <+: is')
    (hold : ∀ is' ∈ index', is' ∈ index ∨ is' = c)
    (hordered : c.Pairwise (· < ·) ∧ ∀ i ∈ c, i < levels.length + 1)
    (hmem : levels.length ∈ c) : Indexed depth f (levels ++ [level]) index' where
  outputs := houtputs
  covered i hi := by
    rw [List.length_append, List.length_singleton] at hi
    by_cases heq : i = levels.length
    · rw [heq]
      exact ⟨c, List.mem_of_getLast? hlast, hmem⟩
    · obtain ⟨is, his, hin⟩ := h.covered i (by omega)
      obtain ⟨is', his', hpart⟩ := hextends is his
      exact ⟨is', his', hpart.subset hin⟩
  ordered is' his' := by
    rw [List.length_append, List.length_singleton]
    rcases hold is' his' with his | heq
    · obtain ⟨hpairwise, hlt⟩ := h.ordered is' his
      exact ⟨hpairwise, fun i hi => Nat.lt_succ_of_lt (hlt i hi)⟩
    · rw [heq]
      exact hordered
  headed i l hget hdeep := by
    by_cases heq : i = levels.length
    · rw [heq] at hget ⊢
      rw [List.getElem?_append_right (Nat.le_refl _), Nat.sub_self, List.getElem?_cons_zero,
        Option.some.injEq] at hget
      refine ⟨c, List.mem_of_getLast? hlast, hmem, ?_⟩
      by_cases hheading : headingsAbove (depth + 1) levels.reverse = []
      · have hnone : linesDownTo depth (levels ++ [level]) levels.length = [] := by
          have htake : (levels ++ [level]).take levels.length = levels := List.take_left' rfl
          rw [linesDownTo, enclosing, htake, hheading]
          rfl
        rw [hnone]
        exact List.nil_prefix
      · have hsame := current_eq_linesDownTo (hget ▸ hdeep) hheading
        exact hc ▸ hsame ▸ List.prefix_refl _
    · have hlt : i < levels.length := by
        have hbound := (List.getElem?_eq_some_iff.mp hget).1
        rw [List.length_append, List.length_singleton] at hbound
        omega
      rw [List.getElem?_append_left hlt] at hget
      obtain ⟨is, his, hin, hdown⟩ := h.headed i l hget hdeep
      obtain ⟨is', his', hpart⟩ := hextends is his
      rw [linesDownTo_snoc hlt]
      exact ⟨is', his', hpart.subset hin, hdown.trans hpart⟩
  current := by
    rw [hc]
    exact Or.inr hlast

theorem exists_indexed (hdepth : 1 ≤ depth) (f : Nat → β) (hlevels : ∀ level ∈ levels, 1 ≤ level) : ∃ index, Indexed depth f levels index := by
  induction levels using List.reverseRecOn with
  | nil =>
    refine ⟨[], ?_, ?_, ?_, ?_, ?_⟩
    · simp [titled, numbered, openNodes, Node.outputs, emitted, titlesOf, root, dfs, dfsChildren]
    · simp
    · simp
    · simp
    · exact Or.inl rfl
  | append_singleton levels level ih =>
    have hold : ∀ l ∈ levels, 1 ≤ l := fun l hmem => hlevels l (List.mem_append_left _ hmem)
    obtain ⟨index, hindex⟩ := ih hold
    have hlines : ∀ line ∈ titled f levels, 1 ≤ line.1 := by
      intro line hmem
      obtain ⟨p, hp, heq⟩ := List.mem_map.mp hmem
      rw [← heq]
      exact hold p.1 (List.fst_mem_of_mem_zipIdx hp)
    have htracks := tracks_openNodes hdepth hlines
    have hnext : openNodes depth (titled f (levels ++ [level]))
        = buildStep depth (openNodes depth (titled f levels)) (level, f levels.length) := by
      rw [titled_snoc, openNodes, List.foldl_append]
      rfl
    have hlevel : 1 ≤ (level, f levels.length).1 := hlevels level (by simp)
    have hstep := outputs_step hdepth htracks hlevel
    obtain ⟨p, hpart, hcurrent⟩ : ∃ p, p <+: (viewOf depth (numbered levels)).current ∧
        (viewStep depth (viewOf depth (numbered levels)) (level, levels.length)).current
          = p ++ [levels.length] := current_viewStep _ level levels.length
    rw [← hnext, viewOf_titled, viewStep_rename, current_rename, current_rename,
      hindex.outputs, hcurrent] at hstep
    have hview : (viewOf depth (numbered (levels ++ [level]))).current = p ++ [levels.length] := by
      rw [viewOf_snoc, hcurrent]
    have hp : p.Pairwise (· < ·) ∧ ∀ i ∈ p, i < levels.length := by
      rcases hindex.current with hnil | hlast
      · rw [hnil, List.prefix_nil] at hpart
        rw [hpart]
        simp
      · obtain ⟨hpairwise, hlt⟩ := hindex.ordered _ (List.mem_of_getLast? hlast)
        exact ⟨hpairwise.sublist hpart.sublist, fun i hi => hlt i (hpart.subset hi)⟩
    have hordered : (p ++ [levels.length]).Pairwise (· < ·) ∧
        ∀ i ∈ p ++ [levels.length], i < levels.length + 1 := by
      constructor
      · refine List.pairwise_append.mpr ⟨hp.1, List.pairwise_singleton _ _, ?_⟩
        intro a ha b hb
        rw [List.mem_singleton.mp hb]
        exact hp.2 a ha
      · intro i hi
        rcases List.mem_append.mp hi with hi | hi
        · exact Nat.lt_succ_of_lt (hp.2 i hi)
        · rw [List.mem_singleton.mp hi]
          exact Nat.lt_succ_self _
    have hmem : levels.length ∈ p ++ [levels.length] := by
      simp
    rcases hstep with hnew | ⟨hfull, hsame, done, hdone, hlast⟩
    · refine ⟨index ++ [p ++ [levels.length]], hindex.snoc ?_ hview (by simp) ?_ ?_ hordered hmem⟩
      · simp [hnew]
      · exact fun is his => ⟨is, List.mem_append_left _ his, List.prefix_refl _⟩
      · intro is his
        rcases List.mem_append.mp his with his | his
        · exact Or.inl his
        · exact Or.inr (List.mem_singleton.mp his)
    · have hopen : index.getLast? = some (viewOf depth (numbered levels)).current := by
        rcases hindex.current with hnil | hopen
        · rw [hnil] at hfull
          exact absurd rfl hfull
        · exact hopen
      obtain ⟨before, hbefore⟩ := List.getLast?_eq_some_iff.mp hopen
      have hsplit : done = before.map (List.map f) := by
        rw [hbefore, List.map_append] at hdone
        exact (List.append_inj_left' hdone rfl).symm
      have hwhole : p = (viewOf depth (numbered levels)).current := by
        have hlength := congrArg List.length hsame
        simp only [List.length_map, List.length_append, List.length_singleton] at hlength
        exact hpart.eq_of_length (by omega)
      refine ⟨before ++ [p ++ [levels.length]], hindex.snoc ?_ hview (by simp) ?_ ?_ hordered hmem⟩
      · simp [hlast, hsplit]
      · intro is his
        rw [hbefore] at his
        rcases List.mem_append.mp his with his | his
        · exact ⟨is, List.mem_append_left _ his, List.prefix_refl _⟩
        · refine ⟨p ++ [levels.length], by simp, ?_⟩
          rw [List.mem_singleton.mp his, ← hwhole]
          exact List.prefix_append _ _
      · intro is his
        rcases List.mem_append.mp his with his | his
        · exact Or.inl (hbefore ▸ List.mem_append_left _ his)
        · exact Or.inr (List.mem_singleton.mp his)

end Index

/-- The text of a line. -/
def lineText (lines : List (Nat × Text)) (i : Nat) : Text :=
  ((lines[i]?).map Prod.snd).getD []

theorem titled_lineText (lines : List (Nat × Text)) :
    titled (lineText lines) (lines.map Prod.fst) = lines := by
  apply List.ext_getElem?
  intro i
  rw [titled, numbered, List.getElem?_map, List.getElem?_zipIdx, List.getElem?_map]
  cases hget : lines[i]? with
  | none => rfl
  | some line => simp [lineText, hget]

/-- Every line is in a text of the tree, the lines of a text are in the order of the
document, and a line below the depth is in a text that starts with the headings over it, each
followed by the lines directly below it, down to the line itself. -/
theorem getTree_keeps_lines {depth : Nat} (hdepth : 1 ≤ depth) (lines : List (Nat × Text))
    (hlevels : ∀ line ∈ lines, 1 ≤ line.1) :
    ∃ index : List (List Nat), getTree depth (buildTree depth lines)
        = index.map (fun is => List.intercalate ['\n'] (is.map (lineText lines))) ∧
      (∀ i < lines.length, ∃ is ∈ index, i ∈ is) ∧
      (∀ is ∈ index, is.Pairwise (· < ·) ∧ ∀ i ∈ is, i < lines.length) ∧
      ∀ (i : Nat) (line : Nat × Text), lines[i]? = some line → depth < line.1 →
        ∃ is ∈ index, i ∈ is ∧ linesDownTo depth (lines.map Prod.fst) i <+: is := by
  have hone : (1 : Int) ≤ depth := by
    omega
  have hfirst : ∀ level ∈ lines.map Prod.fst, 1 ≤ level := by
    intro level hmem
    obtain ⟨line, hline, heq⟩ := List.mem_map.mp hmem
    rw [← heq]
    exact hlevels line hline
  obtain ⟨index, hindex⟩ := exists_indexed hone (lineText lines) hfirst
  have houtputs := hindex.outputs
  rw [titled_lineText] at houtputs
  refine ⟨index, ?_, ?_, ?_, ?_⟩
  · rw [getTree, getTreeLines_buildTree hone hlevels, houtputs, List.map_map]
    rfl
  · intro i hi
    exact hindex.covered i (by simpa using hi)
  · intro is his
    obtain ⟨hpairwise, hlt⟩ := hindex.ordered is his
    exact ⟨hpairwise, fun i hi => by simpa using hlt i hi⟩
  · intro i line hget hdeep
    exact hindex.headed i line.1 (by simp [hget]) (by omega)

/-- Two nested headings with a line below each of them. -/
def sampleLines : List (Nat × Text) :=
  [(1, ['A']), (3, ['x']), (2, ['B']), (3, ['y'])]

theorem sampleLines_keep_lines : ∃ index : List (List Nat), getTree 2 (buildTree 2 sampleLines)
        = index.map (fun is => List.intercalate ['\n'] (is.map (lineText sampleLines))) ∧
      (∀ i < 4, ∃ is ∈ index, i ∈ is) ∧ (∀ is ∈ index, is.Pairwise (· < ·) ∧ ∀ i ∈ is, i < 4) ∧
      ∀ (i : Nat) (line : Nat × Text), sampleLines[i]? = some line → 2 < line.1 →
        ∃ is ∈ index, i ∈ is ∧ linesDownTo 2 (sampleLines.map Prod.fst) i <+: is :=
  getTree_keeps_lines (by decide) sampleLines (by decide)

/-- The last line is in no text that starts with the headings over it: a line of its own stands
behind the first one. -/
theorem heading_followed_by_its_lines : enclosing 2 (sampleLines.map Prod.fst) 3 = [0, 2] ∧
      ¬ ∃ text ∈ getTree 2 (buildTree 2 sampleLines),
        List.intercalate ['\n'] ([0, 2].map (lineText sampleLines)) <+: text := by
  decide +kernel

end Yuanlei.Chunking
