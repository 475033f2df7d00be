import Yuanlei.Chunking.Hierarchy

/-!
# The chunks of a hierarchical merge

The outer part of `hierarchical_merge` of `nlp.py`: a chain becomes a chunk with its
outermost heading first, and chains of one line are put together while they stay small.

Main results:

- `Leveled.merged`: the chunks, as the numbers of their lines.
- `pack_shape`: a chunk is a chain, or lines that are chains of their own.
-/

namespace Yuanlei.Chunking.Hierarchy

/-! ## Chains of one line -/

/-- The chunks before the last one, the last one, and its size. -/
structure Packed where
  done : List (List Nat)
  current : List Nat
  num : Nat

/-- One chain: `tokens` is the size of a line. -/
def packChain (tokens : Nat → Nat) (st : Packed) : List Nat → Packed
  | [j] =>
    if tokens j + st.num < 218 then
      { st with current := st.current ++ [j], num := st.num + tokens j }
    else { done := st.done ++ [st.current], current := [j], num := tokens j }
  | ck => { done := st.done ++ [st.current], current := ck, num := 218 }

/-- The chunks of the chains. -/
def packChains (tokens : Nat → Nat) (cks : List (List Nat)) : List (List Nat) :=
  let st := cks.foldl (packChain tokens) ⟨[], [], 0⟩
  (st.done ++ [st.current]).filter (· ≠ [])

/-- The line of a chain of one line. -/
def single : List Nat → Option Nat
  | [j] => some j
  | _ => none

variable {j : Nat}

theorem eq_of_single {ck : List Nat} (h : single ck = some j) : ck = [j] := by
  match ck with
  | [] => cases h
  | [_] => rw [Option.some.inj h]
  | _ :: _ :: _ => cases h

/-- The lines that are chains of their own. -/
def singles (cks : List (List Nat)) : List Nat :=
  cks.filterMap single

theorem singles_append (cks cks' : List (List Nat)) :
    singles (cks ++ cks') = singles cks ++ singles cks' :=
  List.filterMap_append ..

variable {cks : List (List Nat)}

theorem mem_singles (h : j ∈ singles cks) : [j] ∈ cks := by
  obtain ⟨ck, hck, hj⟩ := List.mem_filterMap.mp h
  rwa [← eq_of_single hj]

/-- What holds of the chunks after some chains. -/
structure PackInv (passed : List (List Nat)) (st : Packed) : Prop where
  all : (st.done ++ [st.current]).flatten = passed.flatten
  done : ∀ c ∈ st.done, c ∈ passed ∨ c.Sublist (singles passed)
  current : (218 ≤ st.num ∧ st.current ∈ passed) ∨ st.current.Sublist (singles passed)

variable (tokens : Nat → Nat)

theorem packChain_step {passed : List (List Nat)} {st : Packed}
    (h : PackInv passed st) (ck : List Nat) : PackInv (passed ++ [ck]) (packChain tokens st ck) := by
  have hall := h.all
  have hmore : ∀ c, c ∈ passed ∨ c.Sublist (singles passed) →
      c ∈ passed ++ [ck] ∨ c.Sublist (singles (passed ++ [ck])) := by
    intro c hc
    rw [singles_append]
    exact hc.imp (List.mem_append_left _) fun hsub => hsub.trans (List.sublist_append_left _ _)
  have hclosed : ∀ c ∈ st.done ++ [st.current],
      c ∈ passed ++ [ck] ∨ c.Sublist (singles (passed ++ [ck])) := by
    intro c hc
    refine hmore c ?_
    rcases List.mem_append.mp hc with hc | hc
    · exact h.done c hc
    · rw [List.mem_singleton.mp hc]
      exact h.current.imp_left fun hcurrent => hcurrent.2
  unfold packChain
  split
  · rename_i j
    split
    · constructor
      case all => simp [← hall]
      case done => exact fun c hc => hmore c (h.done c hc)
      case current =>
        right
        have hsub := h.current.resolve_left fun hlarge => by omega
        rw [singles_append]
        exact hsub.append (List.Sublist.refl [j])
    · constructor
      case all => simp [← hall]
      case done => exact hclosed
      case current =>
        right
        rw [singles_append]
        exact List.sublist_append_right _ _
  · constructor
    case all => simp [← hall]
    case done => exact hclosed
    case current => exact Or.inl ⟨le_refl _, by simp⟩

theorem packChains_inv (cks : List (List Nat)) :
    PackInv cks (cks.foldl (packChain tokens) ⟨[], [], 0⟩) := by
  induction cks using List.reverseRecOn with
  | nil => exact ⟨rfl, by simp, Or.inr (List.Sublist.refl [])⟩
  | append_singleton cks ck ih =>
    rw [List.foldl_append]
    exact packChain_step tokens ih ck

theorem flatten_filter_ne_nil (cs : List (List Nat)) :
    (cs.filter (· ≠ [])).flatten = cs.flatten := by
  induction cs with
  | nil => rfl
  | cons c cs ih =>
    by_cases hc : c = []
    · subst hc
      rw [List.filter_cons_of_neg (by simp), ih]
      rfl
    · rw [List.filter_cons_of_pos (by simpa using hc), List.flatten_cons, List.flatten_cons, ih]

/-- The chunks hold the lines of the chains in their order. -/
theorem packChains_flatten (cks : List (List Nat)) :
    (packChains tokens cks).flatten = cks.flatten := by
  rw [packChains, flatten_filter_ne_nil]
  exact (packChains_inv tokens cks).all

theorem pack_shape {tokens : Nat → Nat} {c : List Nat}
    (h : c ∈ packChains tokens cks) : c ∈ cks ∨ c.Sublist (singles cks) := by
  have hinv := packChains_inv tokens cks
  have hmem := List.mem_of_mem_filter h
  rcases List.mem_append.mp hmem with hdone | hcurrent
  · exact hinv.done c hdone
  · rw [List.mem_singleton.mp hcurrent]
    exact hinv.current.imp_left fun hchain => hchain.2

namespace Leveled

variable (o : Leveled)

/-- The chunks, as the numbers of their lines. -/
def merged (depth : Nat) (tokens : Nat → Nat) : List (List Nat) :=
  packChains tokens ((o.chains depth).map List.reverse)

variable {o} {depth : Nat} {tokens : Nat → Nat}

/-! ## The lines of the chunks -/

variable {x : Nat}

theorem mem_merged : x ∈ (o.merged depth tokens).flatten ↔
      ∃ p ∈ o.lines depth, o.Starts p.1 p.2 ∧ (x = p.2 ∨ x ∈ o.placed p.1 p.2) := by
  classical
  rw [merged, packChains_flatten, chains_eq, List.map_map, List.mem_flatten]
  simp only [List.mem_map, List.mem_filter, decide_eq_true_eq, Function.comp_apply]
  constructor
  · rintro ⟨_, ⟨p, ⟨hp, hstarts⟩, rfl⟩, hx⟩
    obtain ⟨-, hcount, hlevel⟩ := mem_lines.mp hp
    rw [List.mem_reverse, chainOf_eq hlevel hcount, List.mem_cons] at hx
    exact ⟨p, hp, hstarts, hx⟩
  · rintro ⟨p, hp, hstarts, hx⟩
    obtain ⟨-, hcount, hlevel⟩ := mem_lines.mp hp
    refine ⟨_, ⟨p, ⟨hp, hstarts⟩, rfl⟩, ?_⟩
    rw [List.mem_reverse, chainOf_eq hlevel hcount, List.mem_cons]
    exact hx

theorem mem_merged_of_within {x : Nat} (hx : x < o.count) (hlevel : o.levelAt x < depth) :
    x ∈ (o.merged depth tokens).flatten := by
  rw [mem_merged]
  by_cases hstarts : o.Starts (o.levelAt x) x
  · exact ⟨(o.levelAt x, x), mem_lines.mpr ⟨hlevel, hx, rfl⟩, hstarts, Or.inl rfl⟩
  · rw [starts_iff] at hstarts
    simp only [true_and, not_forall, not_not] at hstarts
    obtain ⟨i, hi, b, hb, hbstarts, hplaced⟩ := hstarts
    have hblevel := (starts_iff.mp hbstarts).1
    exact ⟨(i, b), mem_lines.mpr ⟨by simp only; omega, hb, hblevel⟩, hbstarts, Or.inr hplaced⟩

theorem mem_merged_iff_of_beyond (hlevel : depth ≤ o.levelAt x) :
    x ∈ (o.merged depth tokens).flatten ↔
      ∃ i < depth, ∃ j < o.count, o.Starts i j ∧ x ∈ o.placed i j := by
  rw [mem_merged]
  constructor
  · rintro ⟨p, hp, hstarts, hx⟩
    obtain ⟨hdepth, hcount, hplevel⟩ := mem_lines.mp hp
    rcases hx with rfl | hx
    · omega
    · exact ⟨p.1, hdepth, p.2, hcount, hstarts, hx⟩
  · rintro ⟨i, hi, j, hj, hstarts, hx⟩
    exact ⟨(i, j), mem_lines.mpr ⟨hi, hj, (starts_iff.mp hstarts).1⟩, hstarts, Or.inr hx⟩

theorem body_starts (hlevel : o.levelAt x = 0) : o.Starts 0 x :=
  starts_iff.mpr ⟨hlevel, fun i' hi' => absurd hi' (Nat.not_lt_zero i')⟩

theorem body_not_placed {i j : Nat} (hlevel : o.levelAt x = 0) : x ∉ o.placed i j := by
  intro hx
  have := (mem_placed hx).2
  omega

theorem count_flatten_chains (hlevel : o.levelAt x = 0) (ps : List (Nat × Nat))
    (hps : ∀ p ∈ ps, p ∈ o.lines depth) :
    (ps.map fun p => (o.chainOf p.1 p.2).reverse).flatten.count x = (ps.map (·.2)).count x := by
  induction ps with
  | nil => rfl
  | cons p ps ih =>
    obtain ⟨-, hcount, hplevel⟩ := mem_lines.mp (hps p (List.mem_cons_self ..))
    have hnone : (o.placed p.1 p.2).count x = 0 :=
      List.count_eq_zero.mpr (body_not_placed hlevel)
    rw [List.map_cons, List.flatten_cons, List.count_append,
      ih fun q hq => hps q (List.mem_cons_of_mem p hq), List.count_reverse,
      chainOf_eq hplevel hcount, List.count_cons, hnone, List.map_cons, List.count_cons]
    omega

theorem lines_snd_nodup (depth : Nat) : ((o.lines depth).map (·.2)).Nodup := by
  rw [List.Nodup, List.pairwise_map]
  refine (lines_pairwise depth).imp_of_mem ?_
  intro p q hp hq hbefore hsame
  have hlevels := (mem_lines.mp hp).2.2.symm.trans (hsame ▸ (mem_lines.mp hq).2.2)
  rcases hbefore with hlt | ⟨-, hlt⟩
  · omega
  · omega

theorem count_body (hx : x < o.count) (hlevel : o.levelAt x = 0) (hdepth : 0 < depth) :
    (o.merged depth tokens).flatten.count x = 1 := by
  classical
  rw [merged, packChains_flatten, chains_eq, List.map_map]
  have hcount := count_flatten_chains hlevel
    ((o.lines depth).filter fun p => o.Starts p.1 p.2) fun p hp => List.mem_of_mem_filter hp
  refine hcount.trans (List.count_eq_one_of_mem ?_ ?_)
  · exact (lines_snd_nodup depth).sublist (List.filter_sublist.map _)
  · refine List.mem_map.mpr ⟨(0, x), List.mem_filter.mpr ⟨?_, ?_⟩, rfl⟩
    · exact mem_lines.mpr ⟨hdepth, hx, hlevel⟩
    · simpa using body_starts hlevel

/-! ## The headings before a line -/

theorem exists_line_of_mem_chains {ck : List Nat} (h : ck ∈ o.chains depth) :
    ∃ j, o.levelAt j < depth ∧ j < o.count ∧ ck = j :: o.placed (o.levelAt j) j := by
  classical
  rw [chains_eq] at h
  obtain ⟨p, hp, rfl⟩ := List.mem_map.mp h
  obtain ⟨hdepth, hcount, hlevel⟩ := mem_lines.mp (List.mem_of_mem_filter hp)
  exact ⟨p.2, by omega, hcount, by rw [chainOf_eq hlevel hcount, hlevel]⟩

theorem singles_pairwise :
    (singles ((o.chains depth).map List.reverse)).Pairwise (o.levelAt · ≤ o.levelAt ·) := by
  classical
  rw [singles, List.pairwise_filterMap, chains_eq, List.map_map, List.pairwise_map]
  refine ((lines_pairwise depth).filter _).imp_of_mem ?_
  have hline : ∀ p ∈ (o.lines depth).filter (fun p => o.Starts p.1 p.2), ∀ a,
      single ((List.reverse ∘ fun p => o.chainOf p.1 p.2) p) = some a →
      a = p.2 ∧ o.levelAt p.2 = p.1 := by
    intro p hp a ha
    obtain ⟨-, hcount, hlevel⟩ := mem_lines.mp (List.mem_of_mem_filter hp)
    have hone : (o.chainOf p.1 p.2).reverse = [a] := eq_of_single ha
    rw [chainOf_eq hlevel hcount, List.reverse_eq_iff, List.reverse_singleton] at hone
    exact ⟨(List.cons.inj hone).1.symm, hlevel⟩
  intro p q hp hq hbefore a ha b hb
  obtain ⟨rfl, hplevel⟩ := hline p hp a ha
  obtain ⟨rfl, hqlevel⟩ := hline q hq b hb
  rw [hplevel, hqlevel]
  rcases hbefore with hlt | ⟨heq, -⟩
  · exact Nat.le_of_lt hlt
  · exact Nat.le_of_eq heq

/-- What stands before a body line in its chunk: the headings of its chain, and body lines. -/
theorem headings_before {c before after : List Nat} (hc : c ∈ o.merged depth tokens)
    (hsplit : c = before ++ x :: after)
    (hlevel : o.levelAt x = 0) :
    before.filter (0 < o.levelAt ·) = (o.placed 0 x).reverse := by
  have hmem : x ∈ c := by rw [hsplit]; simp
  rcases pack_shape hc with hchain | hsub
  case inl =>
    obtain ⟨ck, hck, rfl⟩ := List.mem_map.mp hchain
    obtain ⟨j, -, -, rfl⟩ := exists_line_of_mem_chains hck
    have hx : x = j := by
      rcases List.mem_cons.mp (List.mem_reverse.mp hmem) with hx | hx
      · exact hx
      · exact absurd hx (body_not_placed hlevel)
    subst hx
    rw [List.reverse_cons, hlevel] at hsplit
    have hnot : x ∉ (o.placed 0 x).reverse := by
      rw [List.mem_reverse]
      exact body_not_placed hlevel
    obtain ⟨hbefore, -, -⟩ := (List.append_cons_inj_of_notMem hnot List.not_mem_nil).mp hsplit
    rw [← hbefore, List.filter_eq_self]
    intro h hh
    have := (mem_placed (List.mem_reverse.mp hh)).2
    simpa using this
  case inr =>
    have hsingle := List.mem_map.mp (mem_singles (hsub.subset hmem))
    obtain ⟨ck, hck, hone⟩ := hsingle
    obtain ⟨j, -, -, rfl⟩ := exists_line_of_mem_chains hck
    rw [List.reverse_eq_iff, List.reverse_singleton, List.cons.injEq] at hone
    obtain ⟨rfl, hplaced⟩ := hone
    rw [hlevel] at hplaced
    rw [hplaced, List.reverse_nil, List.filter_eq_nil_iff]
    intro h hh
    have hpairwise := singles_pairwise.sublist hsub
    rw [hsplit, List.pairwise_append] at hpairwise
    have hle := hpairwise.2.2 h hh j (List.mem_cons_self ..)
    simp only [decide_eq_true_eq]
    omega

/-! ## Merges that keep the lines -/

/-- What a merge should give: every line is in a chunk, a body line once, and the headings before
a body line are those that stand open over it. -/
structure KeepsLines (o : Leveled) (chunks : List (List Nat)) : Prop where
  every : ∀ x < o.count, x ∈ chunks.flatten
  once : ∀ x < o.count, o.levelAt x = 0 → chunks.flatten.count x = 1
  headed : ∀ c ∈ chunks, ∀ before x after, c = before ++ x :: after → o.levelAt x = 0 →
    before.filter (0 < o.levelAt ·) = o.openHeadings x

/-- A heading beyond the depth is placed before a line that starts a chain. -/
def Covered (o : Leveled) (depth : Nat) : Prop :=
  ∀ x < o.count, depth ≤ o.levelAt x → ∃ i < depth, ∃ j < o.count, o.Starts i j ∧ x ∈ o.placed i j

/-- Over a body line no heading supersedes two headings at once. -/
def BodiesNested (o : Leveled) : Prop :=
  ∀ x < o.count, o.levelAt x = 0 → Nested (o.nearestHeadings 0 x)

/-- The headings that are placed before a body line are those that stand open over it exactly
when none of them supersedes two at once. -/
theorem placed_eq_open_iff (x : Nat) :
    (o.placed 0 x).reverse = o.openHeadings x ↔ Nested (o.nearestHeadings 0 x) := by
  have hlarge := o.large
  rw [placed, if_neg (by omega), ← unsuperseded_nearestHeadings, List.reverse_inj,
    kept_eq_unsuperseded_iff (nearestHeadings_nodup 0 x)]

theorem merged_ne_nil_iff : o.merged depth tokens ≠ [] ↔ ∃ x < o.count, o.levelAt x < depth := by
  constructor
  · intro hne
    obtain ⟨c, hc⟩ := List.exists_mem_of_ne_nil _ hne
    have hcne : c ≠ [] := of_decide_eq_true (List.mem_filter.mp hc).2
    obtain ⟨y, hy⟩ := List.exists_mem_of_ne_nil _ hcne
    obtain ⟨p, hp, -, -⟩ := mem_merged.mp (List.mem_flatten_of_mem hc hy)
    obtain ⟨hdepth, hcount, hlevel⟩ := mem_lines.mp hp
    exact ⟨p.2, hcount, by omega⟩
  · rintro ⟨x, hx, hlevel⟩ hnil
    have hmem := @mem_merged_of_within o depth tokens x hx hlevel
    rw [hnil] at hmem
    cases hmem

theorem keepsLines_iff (o : Leveled) (depth : Nat) (tokens : Nat → Nat) :
    (o.merged depth tokens ≠ [] → KeepsLines o (o.merged depth tokens)) ↔
      (∀ x < o.count, depth ≤ o.levelAt x) ∨ (Covered o depth ∧ BodiesNested o) := by
  by_cases hwithin : ∃ x < o.count, o.levelAt x < depth
  case neg =>
    have hnil : ¬ o.merged depth tokens ≠ [] := fun hne => hwithin (merged_ne_nil_iff.mp hne)
    have hbeyond : ∀ x < o.count, depth ≤ o.levelAt x := by
      intro x hx
      by_contra hlt
      exact hwithin ⟨x, hx, by omega⟩
    exact ⟨fun _ => Or.inl hbeyond, fun _ hne => absurd hne hnil⟩
  case pos =>
    have hdepth : 0 < depth := by
      omega
    have hnot : ¬ ∀ x < o.count, depth ≤ o.levelAt x := by
      obtain ⟨x, hx, hlevel⟩ := hwithin
      intro hall
      have := hall x hx
      omega
    rw [forall_prop_of_true (merged_ne_nil_iff.mpr hwithin), or_iff_right hnot]
    constructor
    · intro hkeeps
      constructor
      · intro x hx hlevel
        exact (mem_merged_iff_of_beyond hlevel).mp (hkeeps.every x hx)
      · intro x hx hlevel
        obtain ⟨c, hc, hxc⟩ := List.mem_flatten.mp (hkeeps.every x hx)
        obtain ⟨before, after, hsplit⟩ := List.append_of_mem hxc
        have hopen := hkeeps.headed c hc before x after hsplit hlevel
        rw [headings_before hc hsplit hlevel] at hopen
        exact (placed_eq_open_iff x).mp hopen
    · rintro ⟨hcovered, hnested⟩
      constructor
      case every =>
        intro x hx
        by_cases hlevel : o.levelAt x < depth
        · exact mem_merged_of_within hx hlevel
        · exact (mem_merged_iff_of_beyond (by omega)).mpr (hcovered x hx (by omega))
      case once => exact fun x hx hlevel => count_body hx hlevel hdepth
      case headed =>
        intro c hc before x after hsplit hlevel
        rw [headings_before hc hsplit hlevel]
        have hmem : x ∈ (o.merged depth tokens).flatten := by
          refine List.mem_flatten_of_mem hc ?_
          rw [hsplit]
          simp
        obtain ⟨p, hp, -, hself⟩ := mem_merged.mp hmem
        have hx : x = p.2 := hself.resolve_right (body_not_placed hlevel)
        exact (placed_eq_open_iff x).mpr (hnested x (hx ▸ (mem_lines.mp hp).2.1) hlevel)

end Leveled
end Yuanlei.Chunking.Hierarchy
