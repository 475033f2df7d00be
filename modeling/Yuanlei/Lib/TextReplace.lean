import Mathlib.Data.List.Basic
import Mathlib.Data.List.Infix
import Mathlib.Tactic.Common

/-!
# Replacing a text by a marker

`replace` is Python's `str.replace` for a pattern that is not empty: the occurrences are
found from the left and do not overlap.  The results say what is left of a pattern when the marker
that takes its place and the pattern have no part in common.

Main results:

- `replace_spec`: a text is cut at the occurrences, and no piece has one.
- `replace_fill`: replacing a value in a template that has it only in its slots.
-/

universe u

namespace TextReplace

variable {α : Type u} [DecidableEq α]

/-! ## Replacement from the left -/

/-- The text after `skip` characters that belong to the last occurrence. -/
def replaceFrom (p r : List α) : Nat → List α → List α
  | _, [] => []
  | skip + 1, _ :: cs => replaceFrom p r skip cs
  | 0, c :: cs =>
    if p.isPrefixOf (c :: cs) then r ++ replaceFrom p r (p.length - 1) cs
    else c :: replaceFrom p r 0 cs

def replace (p r t : List α) : List α :=
  replaceFrom p r 0 t

theorem replaceFrom_eq_drop (p r : List α) (n : Nat) (t : List α) :
    replaceFrom p r n t = replace p r (t.drop n) := by
  induction t generalizing n with
  | nil => cases n <;> simp [replaceFrom, replace]
  | cons c cs ih =>
    cases n with
    | zero => rfl
    | succ n =>
      rw [replaceFrom, ih n, List.drop_succ_cons]

@[simp]
theorem replace_nil (p r : List α) : replace p r [] = [] :=
  rfl

variable {p : List α}

theorem replace_append (hp : p ≠ []) (r t : List α) :
    replace p r (p ++ t) = r ++ replace p r t := by
  obtain ⟨c, cs, rfl⟩ := List.exists_cons_of_ne_nil hp
  have hmatch : (c :: cs).isPrefixOf (c :: (cs ++ t)) = true := by
    rw [List.isPrefixOf_iff_prefix]
    exact List.prefix_append (c :: cs) t
  rw [replace, List.cons_append, replaceFrom, if_pos hmatch, replaceFrom_eq_drop]
  simp

theorem replace_cons {c : α} {cs : List α} (h : ¬ p <+: c :: cs) (r : List α) :
    replace p r (c :: cs) = c :: replace p r cs := by
  have hmatch : ¬ p.isPrefixOf (c :: cs) = true := by
    rwa [List.isPrefixOf_iff_prefix]
  rw [replace, replaceFrom, if_neg hmatch]
  rfl

/-- A text starts with the pattern or with a character that is kept. -/
theorem replace_induction (hp : p ≠ []) {P : List α → Prop} (hnil : P [])
    (hmatch : ∀ t, P t → P (p ++ t)) (hcons : ∀ c cs, ¬ p <+: c :: cs → P cs → P (c :: cs))
    (t : List α) : P t := by
  induction hn : t.length using Nat.strong_induction_on generalizing t with
  | h n ih =>
    cases t with
    | nil => exact hnil
    | cons c cs =>
      by_cases hpre : p <+: c :: cs
      · obtain ⟨rest, hrest⟩ := hpre
        rw [← hrest]
        refine hmatch rest (ih rest.length ?_ rest rfl)
        have hlen := congrArg List.length hrest
        have hpos := List.length_pos_of_ne_nil hp
        rw [List.length_append] at hlen
        omega
      · refine hcons c cs hpre (ih cs.length ?_ cs rfl)
        rw [← hn, List.length_cons]
        omega

/-- A piece and further pieces with a text in front of each. -/
def join (r g : List α) (gs : List (List α)) : List α :=
  g ++ gs.flatMap fun g' => r ++ g'

omit [DecidableEq α] in
theorem join_cons (r g g' : List α) (gs : List (List α)) :
    join r g (g' :: gs) = g ++ (r ++ join r g' gs) := by
  simp [join]

/-- A text is cut at the occurrences of the pattern, and no piece has one. -/
theorem replace_spec (hp : p ≠ []) (r t : List α) :
    ∃ g gs, t = join p g gs ∧ replace p r t = join r g gs ∧ ∀ h ∈ g :: gs, ¬ p <:+: h := by
  have hnil : ¬ p <:+: [] := fun h => hp (List.eq_nil_of_infix_nil h)
  induction t using replace_induction hp with
  | hnil => exact ⟨[], [], rfl, rfl, by simpa using hnil⟩
  | hmatch t ih =>
    obtain ⟨g, gs, ht, hr, hfree⟩ := ih
    refine ⟨[], g :: gs, ?_, ?_, ?_⟩
    · rw [join_cons, ← ht, List.nil_append]
    · rw [replace_append hp, hr, join_cons, List.nil_append]
    · intro h hh
      rcases List.mem_cons.mp hh with heq | hh
      · exact heq ▸ hnil
      · exact hfree h hh
  | hcons c cs hpre ih =>
    obtain ⟨g, gs, ht, hr, hfree⟩ := ih
    refine ⟨c :: g, gs, ?_, ?_, ?_⟩
    · rw [join, List.cons_append, ht, join]
    · rw [replace_cons hpre, hr, join, join, List.cons_append]
    · intro h hh
      rcases List.mem_cons.mp hh with heq | hh
      · subst heq
        intro hoccurs
        rcases List.infix_cons_iff.mp hoccurs with hprefix | hrest
        · apply hpre
          rw [ht, join, ← List.cons_append]
          exact hprefix.trans (List.prefix_append _ _)
        · exact hfree g (by simp) hrest
      · exact hfree h (by simp [hh])

variable {t : List α}

/-- A text without the pattern stays. -/
theorem replace_eq_self (h : ¬ p <:+: t) (r : List α) : replace p r t = t := by
  induction t with
  | nil => rfl
  | cons c cs ih =>
    have hpre : ¬ p <+: c :: cs := fun hprefix => h hprefix.isInfix
    have hrest : ¬ p <:+: cs := fun hoccurs => h (List.infix_cons hoccurs)
    rw [replace_cons hpre, ih hrest]

/-! ## Patterns that do not touch the marker -/

/-- Two texts share a part when they meet in some text. -/
def Touches (s r : List α) : Prop :=
  s <:+: r ∨ r <:+: s ∨ (∃ x ∈ s.tails, x ≠ [] ∧ x <+: r) ∨ ∃ x ∈ s.inits, x ≠ [] ∧ x <:+ r

instance (s r : List α) : Decidable (Touches s r) :=
  inferInstanceAs (Decidable (_ ∨ _ ∨ _ ∨ _))

variable {s r x : List α}

omit [DecidableEq α] in
theorem touches_of_trailing (hx : x ≠ []) (hs : x <:+ s) (hr : x <+: r) : Touches s r :=
  Or.inr (Or.inr (Or.inl ⟨x, (List.mem_tails x s).mpr hs, hx, hr⟩))

omit [DecidableEq α] in
theorem touches_of_leading (hx : x ≠ []) (hs : x <+: s) (hr : x <:+ r) : Touches s r :=
  Or.inr (Or.inr (Or.inr ⟨x, (List.mem_inits x s).mpr hs, hx, hr⟩))

variable {u v : List α}

omit [DecidableEq α] in
theorem prefix_append_cases (h : x <+: u ++ v) : x <+: u ∨ ∃ y, x = u ++ y ∧ y <+: v := by
  obtain ⟨b, hb⟩ := h
  rcases List.append_eq_append_iff.mp hb with ⟨y, hu, -⟩ | ⟨y, hx, hv⟩
  · exact Or.inl ⟨y, hu.symm⟩
  · exact Or.inr ⟨y, hx, b, hv.symm⟩

omit [DecidableEq α] in
theorem suffix_append_cases (h : x <:+ u ++ v) : x <:+ v ∨ ∃ y, x = y ++ v ∧ y <:+ u := by
  obtain ⟨a, ha⟩ := h
  rcases List.append_eq_append_iff.mp ha with ⟨y, hu, hx⟩ | ⟨y, -, hv⟩
  · exact Or.inr ⟨y, hx, a, hu.symm⟩
  · exact Or.inl ⟨y, hv.symm⟩

omit [DecidableEq α] in
/-- An occurrence in two texts one after the other lies in one of them or in both. -/
theorem infix_append_cases (h : s <:+: u ++ v) :
    s <:+: u ∨ s <:+: v ∨ ∃ x z, s = x ++ z ∧ x ≠ [] ∧ z ≠ [] ∧ x <:+ u ∧ z <+: v := by
  obtain ⟨a, b, hab⟩ := h
  rcases List.append_eq_append_iff.mp hab with ⟨y, hu, -⟩ | ⟨y, hleft, hv⟩
  · exact Or.inl ⟨a, y, hu.symm⟩
  · rcases List.append_eq_append_iff.mp hleft with ⟨d, hu, hs⟩ | ⟨d, -, hy⟩
    · by_cases hd : d = []
      · refine Or.inr (Or.inl ⟨[], b, ?_⟩)
        simp [hs, hd, hv]
      · by_cases hyn : y = []
        · refine Or.inl ⟨a, [], ?_⟩
          simp [hs, hyn, hu]
        · exact Or.inr (Or.inr ⟨d, y, hs, hd, hyn, ⟨a, hu.symm⟩, ⟨b, hv.symm⟩⟩)
    · refine Or.inr (Or.inl ⟨d, b, ?_⟩)
      rw [hv, hy]

omit [DecidableEq α] in
theorem touches_of_prefix_append (hx : x ≠ []) (hs : x <:+ s) (h : x <+: r ++ v) : Touches s r := by
  rcases prefix_append_cases h with hprefix | ⟨y, hy, -⟩
  · exact touches_of_trailing hx hs hprefix
  · refine Or.inr (Or.inl ?_)
    rw [hy] at hs
    exact (List.prefix_append r y).isInfix.trans hs.isInfix

omit [DecidableEq α] in
theorem touches_of_suffix_append (hx : x ≠ []) (hs : x <+: s) (h : x <:+ u ++ r) : Touches s r := by
  rcases suffix_append_cases h with hsuffix | ⟨y, hy, -⟩
  · exact touches_of_leading hx hs hsuffix
  · refine Or.inr (Or.inl ?_)
    rw [hy] at hs
    exact (List.suffix_append y r).isInfix.trans hs.isInfix

omit [DecidableEq α] in
theorem infix_of_not_touches (hsep : ¬ Touches s r)
    (h : s <:+: u ++ (r ++ v)) : s <:+: u ∨ s <:+: v := by
  rcases infix_append_cases h with hu | hrv | ⟨x, z, hs, -, hz, -, hzpre⟩
  · exact Or.inl hu
  · rcases infix_append_cases hrv with hr | hv | ⟨x, z, hs, hx, -, hxsuf, -⟩
    · exact absurd (Or.inl hr) hsep
    · exact Or.inr hv
    · exact absurd (touches_of_leading hx (hs ▸ List.prefix_append x z) hxsuf) hsep
  · exact absurd (touches_of_prefix_append hz (hs ▸ List.suffix_append x z) hzpre) hsep

variable {g : List α} {gs : List (List α)}

omit [DecidableEq α] in
theorem not_infix_join (hsep : ¬ Touches s r) (h : ∀ g' ∈ g :: gs, ¬ s <:+: g') : ¬ s <:+: join r g gs := by
  induction gs generalizing g with
  | nil => simpa [join] using h g (by simp)
  | cons g' gs ih =>
    intro hoccurs
    rw [join_cons] at hoccurs
    rcases infix_of_not_touches hsep hoccurs with hg | hrest
    · exact h g (by simp) hg
    · exact ih (fun k hk => h k (List.mem_cons_of_mem _ hk)) hrest

omit [DecidableEq α] in
theorem infix_join_of_mem {h : List α} (hmem : h ∈ g :: gs) :
    h <:+: join p g gs := by
  induction gs generalizing g with
  | nil =>
    rw [List.mem_singleton] at hmem
    simp [join, hmem]
  | cons g' gs ih =>
    rw [join_cons]
    rcases List.mem_cons.mp hmem with heq | hrest
    · rw [heq]
      exact (List.prefix_append g _).isInfix
    · exact ((ih hrest).trans (List.suffix_append p _).isInfix).trans
        (List.suffix_append g _).isInfix

/-- The pattern is gone. -/
theorem not_infix_replace_self (hp : p ≠ []) (hsep : ¬ Touches p r) (t : List α) :
    ¬ p <:+: replace p r t := by
  obtain ⟨g, gs, -, hr, hfree⟩ := replace_spec hp r t
  rw [hr]
  exact not_infix_join hsep hfree

/-- A text that does not touch the marker does not come back. -/
theorem not_infix_replace (hp : p ≠ []) (hsep : ¬ Touches s r)
    (h : ¬ s <:+: t) : ¬ s <:+: replace p r t := by
  obtain ⟨g, gs, ht, hr, -⟩ := replace_spec hp r t
  rw [hr]
  refine not_infix_join hsep fun g' hg' hoccurs => h ?_
  rw [ht]
  exact hoccurs.trans (infix_join_of_mem hg')

omit [DecidableEq α] in
theorem suffix_join (hsep : ¬ Touches s r)
    (hs : x <+: s) (h : x <:+ join r g gs) : x <:+ join p g gs := by
  induction gs generalizing g with
  | nil => simpa [join] using h
  | cons g' gs ih =>
    rw [join_cons, ← List.append_assoc] at h
    rw [join_cons]
    rcases suffix_append_cases h with hrest | ⟨y, hy, hysuf⟩
    · exact ((ih hrest).trans (List.suffix_append p _)).trans (List.suffix_append g _)
    · by_cases hyn : y = []
      · have hrest : x <:+ join r g' gs := by
          rw [hy, hyn, List.nil_append]
        exact ((ih hrest).trans (List.suffix_append p _)).trans (List.suffix_append g _)
      · have hys : y <+: s := (List.prefix_append y _).trans (hy ▸ hs)
        exact absurd (touches_of_suffix_append hyn hys hysuf) hsep

/-- The end of a text that starts the pattern was its end before. -/
theorem suffix_of_suffix_replace (hp : p ≠ []) (hsep : ¬ Touches s r)
    (hs : x <+: s) (h : x <:+ replace p r t) : x <:+ t := by
  obtain ⟨g, gs, ht, hr, -⟩ := replace_spec hp r t
  rw [hr] at h
  rw [ht]
  exact suffix_join hsep hs h

/-- The start of a text that ends the pattern was its start before. -/
theorem prefix_of_prefix_replace {z : List α} (hp : p ≠ []) (hsep : ¬ Touches s r)
    (hs : z <:+ s) (h : z <+: replace p r t) : z <+: t := by
  obtain ⟨g, gs, ht, hr, -⟩ := replace_spec hp r t
  rw [hr] at h
  rw [ht]
  cases gs with
  | nil => simpa [join] using h
  | cons g' gs =>
    rw [join_cons] at h ⊢
    rcases prefix_append_cases h with hg | ⟨y, hy, hypre⟩
    · exact hg.trans (List.prefix_append g _)
    · by_cases hyn : y = []
      · rw [hy, hyn, List.append_nil]
        exact List.prefix_append g _
      · have hys : y <:+ s := (List.suffix_append g y).trans (hy ▸ hs)
        exact absurd (touches_of_prefix_append hyn hys hypre) hsep

/-- A text that is part of the pattern afterwards has not changed. -/
theorem replace_eq_self_of_infix (hp : p ≠ []) (hsep : ¬ Touches s r)
    (h : replace p r t <:+: s) : replace p r t = t := by
  obtain ⟨g, gs, ht, hr, -⟩ := replace_spec hp r t
  rw [hr] at h ⊢
  cases gs with
  | nil =>
    rw [ht]
    simp [join]
  | cons g' gs =>
    rw [join_cons] at h
    have hoccurs : r <:+: s :=
      ((List.prefix_append r _).isInfix.trans (List.suffix_append g _).isInfix).trans h
    exact absurd (Or.inr (Or.inl hoccurs)) hsep

/-! ## Several patterns -/

/-- The patterns are replaced one after the other. -/
def replaceAll (ps : List (List α)) (r t : List α) : List α :=
  ps.foldl (fun t p => replace p r t) t

@[simp]
theorem replaceAll_nil (r t : List α) : replaceAll [] r t = t :=
  rfl

theorem replaceAll_cons (p : List α) (ps : List (List α)) (r t : List α) :
    replaceAll (p :: ps) r t = replaceAll ps r (replace p r t) :=
  rfl

section Separate

variable {ps : List (List α)} {r s t : List α}

theorem not_infix_replaceAll_of_not_infix (hps : ∀ p ∈ ps, p ≠ []) (hsep : ¬ Touches s r)
    (h : ¬ s <:+: t) : ¬ s <:+: replaceAll ps r t := by
  induction ps generalizing t with
  | nil => exact h
  | cons p ps ih =>
    rw [replaceAll_cons]
    apply ih fun q hq => hps q (by simp [hq])
    exact not_infix_replace (hps p (by simp)) hsep h

/-- A pattern that does not touch the marker is gone in the end. -/
theorem not_infix_replaceAll (hps : ∀ p ∈ ps, p ≠ []) (hs : s ∈ ps) (hsep : ¬ Touches s r)
    (t : List α) : ¬ s <:+: replaceAll ps r t := by
  induction ps generalizing t with
  | nil => simp at hs
  | cons p ps ih =>
    rw [replaceAll_cons]
    have hps' : ∀ q ∈ ps, q ≠ [] := fun q hq => hps q (by simp [hq])
    rcases List.mem_cons.mp hs with heq | hmem
    · subst heq
      exact not_infix_replaceAll_of_not_infix hps' hsep
        (not_infix_replace_self (hps s (by simp)) hsep t)
    · exact ih hps' hmem (replace p r t)

theorem replaceAll_eq_self (h : ∀ p ∈ ps, ¬ p <:+: t) : replaceAll ps r t = t := by
  induction ps with
  | nil => rfl
  | cons p ps ih =>
    rw [replaceAll_cons, replace_eq_self (h p (by simp))]
    exact ih fun q hq => h q (by simp [hq])

theorem suffix_of_suffix_replaceAll (hps : ∀ p ∈ ps, p ≠ []) (hsep : ¬ Touches s r) {x : List α}
    (hs : x <+: s) (h : x <:+ replaceAll ps r t) : x <:+ t := by
  induction ps generalizing t with
  | nil => exact h
  | cons p ps ih =>
    rw [replaceAll_cons] at h
    have hrest := ih (fun q hq => hps q (by simp [hq])) h
    exact suffix_of_suffix_replace (hps p (by simp)) hsep hs hrest

theorem prefix_of_prefix_replaceAll (hps : ∀ p ∈ ps, p ≠ []) (hsep : ¬ Touches s r) {z : List α}
    (hs : z <:+ s) (h : z <+: replaceAll ps r t) : z <+: t := by
  induction ps generalizing t with
  | nil => exact h
  | cons p ps ih =>
    rw [replaceAll_cons] at h
    have hrest := ih (fun q hq => hps q (by simp [hq])) h
    exact prefix_of_prefix_replace (hps p (by simp)) hsep hs hrest

theorem replaceAll_eq_self_of_infix (hps : ∀ p ∈ ps, p ≠ []) (hsep : ¬ Touches s r)
    (h : replaceAll ps r t <:+: s) : replaceAll ps r t = t := by
  induction ps generalizing t with
  | nil => rfl
  | cons p ps ih =>
    rw [replaceAll_cons] at h ⊢
    have hrest := ih (fun q hq => hps q (by simp [hq])) h
    rw [hrest] at h ⊢
    exact replace_eq_self_of_infix (hps p (by simp)) hsep h

end Separate

/-! ## Across several texts -/

/-- The text starts in one of the texts and ends in a later one. -/
def Crosses (s : List α) (texts : List (List α)) : Prop :=
  ∃ before first middle last after x z, texts = before ++ first :: (middle ++ last :: after) ∧
    x ≠ [] ∧ z ≠ [] ∧ x <:+ first ∧ z <+: last ∧ s = x ++ (middle.flatten ++ z)

variable {texts : List (List α)}

omit [DecidableEq α] in
theorem exists_of_prefix_flatten {y : List α} (hy : y ≠ []) (h : y <+: texts.flatten) :
    ∃ middle last after z, texts = middle ++ last :: after ∧ z ≠ [] ∧ z <+: last ∧
      y = middle.flatten ++ z := by
  induction texts generalizing y with
  | nil =>
    rw [List.flatten_nil] at h
    exact absurd (List.eq_nil_of_prefix_nil h) hy
  | cons t texts ih =>
    rw [List.flatten_cons] at h
    rcases prefix_append_cases h with ht | ⟨y', hy', hrest⟩
    · exact ⟨[], t, texts, y, rfl, hy, ht, rfl⟩
    · by_cases hyn : y' = []
      · refine ⟨[], t, texts, y, rfl, hy, ?_, rfl⟩
        rw [hy', hyn, List.append_nil]
      · obtain ⟨middle, last, after, z, htexts, hz, hzpre, heq⟩ := ih hyn hrest
        refine ⟨t :: middle, last, after, z, by rw [htexts]; rfl, hz, hzpre, ?_⟩
        rw [hy', heq, List.flatten_cons, List.append_assoc]

omit [DecidableEq α] in
/-- An occurrence in texts one after the other lies in one of them or crosses. -/
theorem infix_flatten_cases (hs : s ≠ [])
    (h : s <:+: texts.flatten) : (∃ t ∈ texts, s <:+: t) ∨ Crosses s texts := by
  induction texts with
  | nil =>
    rw [List.flatten_nil] at h
    exact absurd (List.eq_nil_of_infix_nil h) hs
  | cons t texts ih =>
    rw [List.flatten_cons] at h
    rcases infix_append_cases h with ht | hrest | ⟨x, y, hxy, hx, hy, hxsuf, hypre⟩
    · exact Or.inl ⟨t, by simp, ht⟩
    · rcases ih hrest with ⟨t', ht', hoccurs⟩ | hcross
      · exact Or.inl ⟨t', by simp [ht'], hoccurs⟩
      · obtain ⟨before, first, middle, last, after, x, z, htexts, hparts⟩ := hcross
        exact Or.inr ⟨t :: before, first, middle, last, after, x, z, by rw [htexts]; rfl, hparts⟩
    · obtain ⟨middle, last, after, z, htexts, hz, hzpre, heq⟩ := exists_of_prefix_flatten hy hypre
      refine Or.inr ⟨[], t, middle, last, after, x, z, ?_, hx, hz, hxsuf, hzpre, ?_⟩
      · rw [htexts, List.nil_append]
      · rw [hxy, heq]

variable {ps : List (List α)}

/-- A text across replaced texts was there before the replacements. -/
theorem crosses_of_map (hps : ∀ p ∈ ps, p ≠ [])
    (hsep : ¬ Touches s r) (h : Crosses s (texts.map (replaceAll ps r))) : Crosses s texts := by
  obtain ⟨before, first, middle, last, after, x, z, htexts, hx, hz, hxsuf, hzpre, hs⟩ := h
  obtain ⟨before', rest, rfl, -, hrest⟩ := List.map_eq_append_iff.mp htexts
  obtain ⟨first', rest', rfl, rfl, hrest'⟩ := List.map_eq_cons_iff.mp hrest
  obtain ⟨middle', rest'', rfl, rfl, hrest''⟩ := List.map_eq_append_iff.mp hrest'
  obtain ⟨last', after', rfl, rfl, -⟩ := List.map_eq_cons_iff.mp hrest''
  have hsame : middle'.map (replaceAll ps r) = middle' := by
    conv_rhs => rw [← List.map_id middle']
    apply List.map_congr_left
    intro t ht
    apply replaceAll_eq_self_of_infix hps hsep
    have hmem : replaceAll ps r t ∈ middle'.map (replaceAll ps r) := List.mem_map_of_mem ht
    have hoccurs : replaceAll ps r t <:+: (middle'.map (replaceAll ps r)).flatten :=
      List.infix_of_mem_flatten hmem
    rw [hs]
    exact (hoccurs.trans (List.prefix_append _ z).isInfix).trans (List.suffix_append x _).isInfix
  refine ⟨before', first', middle', last', after', x, z, rfl, hx, hz, ?_, ?_, ?_⟩
  · exact suffix_of_suffix_replaceAll hps hsep (hs ▸ List.prefix_append x _) hxsuf
  · refine prefix_of_prefix_replaceAll hps hsep ?_ hzpre
    rw [hs, ← List.append_assoc]
    exact List.suffix_append _ z
  · rw [hs, hsame]

/-! ## Templates -/

/-- A character, or a slot for one of several values. -/
inductive Piece (α : Type u) where
  | lit (c : α)
  | slot (i : Nat)

def fill (val : Nat → List α) : List (Piece α) → List α
  | [] => []
  | .lit c :: rest => c :: fill val rest
  | .slot i :: rest => val i ++ fill val rest

/-- The text occurs in the filled template only in slots with this value. -/
def OnlyInSlots (s : List α) (val : Nat → List α) : List (Piece α) → Prop
  | [] => True
  | .lit c :: rest => ¬ s <+: c :: fill val rest ∧ OnlyInSlots s val rest
  | .slot i :: rest =>
    (val i ≠ s → ∀ j < (val i).length, ¬ s <+: (val i ++ fill val rest).drop j) ∧
      OnlyInSlots s val rest

theorem replace_append_of_forall (h : ∀ j < u.length, ¬ s <+: (u ++ t).drop j) (r : List α) :
    replace s r (u ++ t) = u ++ replace s r t := by
  induction u with
  | nil => rfl
  | cons c u ih =>
    have hhead : ¬ s <+: c :: (u ++ t) := h 0 (by simp)
    rw [List.cons_append, replace_cons hhead, ih, List.cons_append]
    intro j hj
    exact h (j + 1) (by simpa using hj)

variable {val : Nat → List α} {tpl : List (Piece α)}

/-- Replacing a value in a template that has it only in its slots. -/
theorem replace_fill (hs : s ≠ []) (r : List α) (h : OnlyInSlots s val tpl) :
    replace s r (fill val tpl) = fill (fun i => if val i = s then r else val i) tpl := by
  induction tpl with
  | nil => rfl
  | cons piece rest ih =>
    cases piece with
    | lit c =>
      rw [fill, replace_cons h.1, ih h.2, fill]
    | slot i =>
      rw [fill, fill]
      by_cases hi : val i = s
      · rw [if_pos hi, hi, replace_append hs, ih h.2]
      · rw [if_neg hi, replace_append_of_forall (h.1 hi), ih h.2]

/-- When its turn comes, each text occurs only in the slots with its value. -/
def FoundInSlots (r : List α) (tpl : List (Piece α)) : List (List α) → (Nat → List α) → Prop
  | [], _ => True
  | p :: ps, val =>
    OnlyInSlots p val tpl ∧ FoundInSlots r tpl ps fun i => if val i = p then r else val i

/-- Replacing all values in a template that has them only in their slots. -/
theorem replaceAll_fill (hps : ∀ p ∈ ps, p ≠ []) (h : FoundInSlots r tpl ps val) :
    replaceAll ps r (fill val tpl) = fill (fun i => if val i ∈ ps then r else val i) tpl := by
  induction ps generalizing val with
  | nil => simp
  | cons p ps ih =>
    rw [replaceAll_cons, replace_fill (hps p (by simp)) r h.1,
      ih (fun q hq => hps q (by simp [hq])) h.2]
    congr 1
    funext i
    by_cases hi : val i = p
    · simp [hi]
    · simp [hi]

end TextReplace
