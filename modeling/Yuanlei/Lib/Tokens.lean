import Mathlib.Data.List.DropRight

/-!
# Runs and single symbols

The tokens of a text over an arbitrary alphabet, as a regular expression of the form
`word+|single` finds them: the maximal runs of word symbols and the single symbols.

Main results:

- `tokens`: the tokens of a text in their order.
- `starts_spec`: the positions at which tokens start.
-/

namespace Tokens

variable {α : Type*} (word single : α → Bool)

/-! ## Tokens -/

/-- The run that has been read so far as a token. -/
def flush (run : List α) : List (List α) :=
  if run.isEmpty then [] else [run]

/-- The tokens of the rest of a text behind a run. -/
def tokensFrom (run : List α) : List α → List (List α)
  | [] => flush run
  | c :: t =>
    if word c then tokensFrom (run ++ [c]) t
    else flush run ++ (if single c then [c] :: tokensFrom [] t else tokensFrom [] t)

/-- The tokens of a text. -/
def tokens (t : List α) : List (List α) :=
  tokensFrom word single [] t

/-- The cut between two texts splits a run. -/
def joined (s t : List α) : Bool :=
  s.getLast?.any word && t.head?.any word

variable {word single}

@[simp]
theorem tokens_nil : tokens word single [] = [] :=
  rfl

variable {run : List α}

theorem tokensFrom_run (hrun : ∀ c ∈ run, word c) (t : List α) :
    tokensFrom word single run t = tokens word single (run ++ t) := by
  have hread : ∀ (more run : List α), (∀ c ∈ more, word c) →
      tokensFrom word single run (more ++ t) = tokensFrom word single (run ++ more) t := by
    intro more
    induction more with
    | nil =>
      intro run _
      simp
    | cons c more ih =>
      intro run hmore
      have hc : word c := hmore c List.mem_cons_self
      rw [List.cons_append, tokensFrom, if_pos hc,
        ih (run ++ [c]) fun d hd => hmore d (List.mem_cons_of_mem c hd)]
      simp
  rw [tokens, hread run [] hrun, List.nil_append]

theorem tokens_run (hrun : ∀ c ∈ run, word c) (hne : run ≠ []) :
    tokens word single run = [run] := by
  have hread : tokensFrom word single run [] = tokens word single (run ++ []) :=
    tokensFrom_run hrun []
  rw [List.append_nil] at hread
  rw [← hread, tokensFrom, flush, if_neg (by simpa using hne)]

variable {c : α}

/-- A symbol outside runs. -/
theorem tokens_cons_other (hc : word c = false) (t : List α) :
    tokens word single (c :: t) = (if single c then [[c]] else []) ++ tokens word single t := by
  unfold tokens
  rw [tokensFrom, if_neg (by simp [hc])]
  by_cases hsingle : single c
  · simp [hsingle, flush]
  · simp [hsingle, flush]

/-! ## Cuts -/

variable {t s : List α}

theorem tokensFrom_append (hrun : s = [] → run ≠ [] → t.head?.any word = false)
    (hcut : joined word s t = false) :
    tokensFrom word single run (s ++ t) = tokensFrom word single run s ++ tokens word single t := by
  induction s generalizing run with
  | nil =>
    rw [List.nil_append, tokensFrom]
    by_cases hempty : run = []
    · subst hempty
      simp [flush, tokens]
    · have hhead := hrun rfl hempty
      cases t with
      | nil => simp [tokensFrom, flush, tokens]
      | cons c t =>
        have hc : word c = false := by simpa using hhead
        rw [tokens_cons_other hc, tokensFrom, if_neg (by simp [hc])]
        by_cases hsingle : single c <;> simp [hsingle, tokens]
  | cons c s ih =>
    have hcut' : joined word s t = false := by
      cases s with
      | nil => rfl
      | cons d s => simpa [joined, List.getLast?_cons_cons] using hcut
    rw [List.cons_append, tokensFrom, tokensFrom]
    by_cases hc : word c
    · rw [if_pos hc, if_pos hc]
      apply ih _ hcut'
      intro hs _
      subst hs
      simpa [joined, hc] using hcut
    · rw [if_neg hc, if_neg hc]
      have hrest : tokensFrom word single [] (s ++ t)
          = tokensFrom word single [] s ++ tokens word single t :=
        ih (fun _ hne => absurd rfl hne) hcut'
      rw [hrest]
      by_cases hsingle : single c <;> simp [hsingle]

theorem tokens_append (hcut : joined word s t = false) :
    tokens word single (s ++ t) = tokens word single s ++ tokens word single t :=
  tokensFrom_append (fun _ hne => absurd rfl hne) hcut

theorem tokens_eq_nil_of_forall (h : ∀ c ∈ t, word c = false ∧ single c = false) : tokens word single t =
    [] := by
  induction t with
  | nil => rfl
  | cons c t ih =>
    obtain ⟨hword, hsingle⟩ := h c List.mem_cons_self
    rw [tokens_cons_other hword, ih fun d hd => h d (List.mem_cons_of_mem c hd)]
    simp [hsingle]

theorem tokens_cons_word (hc : word c) (t : List α) : tokens word single (c :: t)
      = (c :: t.takeWhile word) :: tokens word single (t.dropWhile word) := by
  have hsplit : c :: t = (c :: t.takeWhile word) ++ t.dropWhile word := by
    rw [List.cons_append, List.takeWhile_append_dropWhile]
  have hrun : ∀ d ∈ c :: t.takeWhile word, word d := by
    intro d hd
    rcases List.mem_cons.mp hd with rfl | hmem
    · exact hc
    · exact List.mem_takeWhile_imp hmem
  have hcut : joined word (c :: t.takeWhile word) (t.dropWhile word) = false := by
    have hhead : (t.dropWhile word).head?.any word = false := by
      have hnot := List.head?_dropWhile_not word t
      cases hdrop : t.dropWhile word with
      | nil => rfl
      | cons d rest =>
        rw [hdrop] at hnot
        simpa using hnot
    simp [joined, hhead]
  calc tokens word single (c :: t)
      = tokens word single ((c :: t.takeWhile word) ++ t.dropWhile word) := by rw [← hsplit]
    _ = _ := by rw [tokens_append hcut, tokens_run hrun (by simp)]; rfl

variable (single) in
/-- A symbol that continues the run after it. -/
theorem tokens_cons_joined (h : joined word [c] t = true) :
    ∃ run rest, run ≠ [] ∧ tokens word single t = run :: rest ∧
      tokens word single (c :: t) = (c :: run) :: rest := by
  cases t with
  | nil => simp [joined] at h
  | cons d t =>
    have hwords : word c ∧ word d := by simpa [joined] using h
    obtain ⟨hc, hd⟩ := hwords
    refine ⟨d :: t.takeWhile word, tokens word single (t.dropWhile word), by simp,
      tokens_cons_word hd t, ?_⟩
    rw [tokens_cons_word hc, List.takeWhile_cons_of_pos hd, List.dropWhile_cons_of_pos hd]

variable (single) in
/-- A symbol that continues the run before it. -/
theorem tokens_concat_joined (h : joined word t [c] = true) :
    ∃ front run, tokens word single t = front ++ [run] ∧
      tokens word single (t ++ [c]) = front ++ [run ++ [c]] := by
  have hsplit : t.rdropWhile word ++ t.rtakeWhile word = t := List.rdropWhile_append_rtakeWhile ..
  have hrun : ∀ d ∈ t.rtakeWhile word, word d := fun d hd => List.mem_rtakeWhile_imp hd
  have hlast : ∃ d, t.getLast? = some d ∧ word d ∧ word c := by
    cases hget : t.getLast? with
    | none => simp [joined, hget] at h
    | some d => exact ⟨d, rfl, by simpa [joined, hget] using h⟩
  obtain ⟨d, hd, hword, hc⟩ := hlast
  have hne : t.rtakeWhile word ≠ [] := by
    intro hempty
    obtain ⟨front, rfl⟩ := List.getLast?_eq_some_iff.mp hd
    rw [List.rtakeWhile_concat_pos _ _ _ hword] at hempty
    simp at hempty
  have hcut : ∀ s, joined word (t.rdropWhile word) s = false := by
    intro s
    have hnot : (t.rdropWhile word).getLast?.any word = false := by
      by_cases hempty : t.rdropWhile word = []
      · simp [hempty]
      · rw [List.getLast?_eq_some_getLast hempty]
        simpa using List.rdropWhile_last_not word t hempty
    simp [joined, hnot]
  refine ⟨tokens word single (t.rdropWhile word), t.rtakeWhile word, ?_, ?_⟩
  · conv_lhs => rw [← hsplit, tokens_append (hcut _), tokens_run hrun hne]
  · have hrun' : ∀ e ∈ t.rtakeWhile word ++ [c], word e := by
      intro e he
      rcases List.mem_append.mp he with hmem | hself
      · exact hrun e hmem
      · rw [List.mem_singleton.mp hself]
        exact hc
    conv_lhs => rw [← hsplit, List.append_assoc, tokens_append (hcut _), tokens_run hrun' (by simp)]

/-! ## The number of tokens -/

theorem tokens_singleton (c : α) :
    tokens word single [c] = if word c || single c then [[c]] else [] := by
  by_cases hword : word c
  · rw [tokens_run (by simpa using hword) (by simp)]
    simp [hword]
  · rw [tokens_cons_other (by simpa using hword)]
    by_cases hsingle : single c <;> simp [hsingle, hword]

variable (word single) in
theorem length_tokens_singleton_le (c : α) : (tokens word single [c]).length ≤ 1 := by
  rw [tokens_singleton]
  split <;> simp

theorem length_tokens_concat_le (t : List α) (c : α) :
    (tokens word single (t ++ [c])).length ≤ (tokens word single t).length + 1 := by
  by_cases hjoined : joined word t [c] = true
  · obtain ⟨front, run, ht, htc⟩ := tokens_concat_joined single hjoined
    simp [ht, htc]
  · rw [tokens_append (by simpa using hjoined), List.length_append]
    have hle := length_tokens_singleton_le word single c
    omega

theorem length_tokens_cons_le (c : α) (t : List α) :
    (tokens word single (c :: t)).length ≤ (tokens word single t).length + 1 := by
  by_cases hjoined : joined word [c] t = true
  · obtain ⟨run, rest, -, ht, hct⟩ := tokens_cons_joined single hjoined
    simp [ht, hct]
  · rw [← List.singleton_append, tokens_append (by simpa using hjoined), List.length_append]
    have hle := length_tokens_singleton_le word single c
    omega

/-! ## The positions of tokens -/

variable (word single) in
/-- The positions at which tokens start in the rest of a text; the first arguments are the
position of the rest and whether a run reaches up to it. -/
def startsFrom (i : Nat) (inRun : Bool) : List α → List Nat
  | [] => []
  | c :: t =>
    if (word c && !inRun) || (single c && !word c) then i :: startsFrom (i + 1) (word c) t
    else startsFrom (i + 1) (word c) t

variable (word single) in
/-- The positions at which the tokens of a text start. -/
def starts (t : List α) : List Nat :=
  startsFrom word single 0 false t

theorem length_tokens_concat (t : List α) (c : α) :
    (tokens word single (t ++ [c])).length = (tokens word single t).length +
      if (word c && !t.getLast?.any word) || (single c && !word c) then 1 else 0 := by
  by_cases hjoined : joined word t [c] = true
  · obtain ⟨front, run, ht, htc⟩ := tokens_concat_joined single hjoined
    have hboth : t.getLast?.any word = true ∧ word c = true := by simpa [joined] using hjoined
    simp [ht, htc, hboth]
  · rw [tokens_append (by simpa using hjoined), List.length_append, tokens_singleton]
    have hnot : t.getLast?.any word = false ∨ word c = false := by
      simpa [joined, Classical.or_iff_not_imp_left] using hjoined
    by_cases hword : word c
    · have hlast : t.getLast?.any word = false := by
        rcases hnot with h | h
        · exact h
        · rw [hword] at h
          cases h
      simp [hword, hlast]
    · by_cases hsingle : single c <;> simp [hword, hsingle]

theorem startsFrom_spec (rest : List α) : ∀ (pre : List α),
      (startsFrom word single pre.length (pre.getLast?.any word) rest).length
          + (tokens word single pre).length = (tokens word single (pre ++ rest)).length ∧
      ∀ k s, (startsFrom word single pre.length (pre.getLast?.any word) rest)[k]? = some s →
        ∃ front c behind, pre ++ rest = front ++ c :: behind ∧ front.length = s ∧
          joined word front (c :: behind) = false ∧
          (tokens word single front).length = (tokens word single pre).length + k := by
  induction rest with
  | nil =>
    intro pre
    simp [startsFrom]
  | cons c rest ih =>
    intro pre
    have hlast : (pre ++ [c]).getLast?.any word = word c := by simp
    obtain ⟨hcount, hget⟩ := ih (pre ++ [c])
    rw [hlast, List.length_append, List.length_singleton, length_tokens_concat,
      List.append_assoc, List.singleton_append] at hcount
    rw [hlast, List.length_append, List.length_singleton, length_tokens_concat,
      List.append_assoc, List.singleton_append] at hget
    by_cases hstart : ((word c && !pre.getLast?.any word) || (single c && !word c)) = true
    · rw [startsFrom, if_pos hstart]
      rw [if_pos hstart] at hcount hget
      refine ⟨by rw [List.length_cons]; omega, ?_⟩
      intro k s hk
      cases k with
      | zero =>
        have hs : pre.length = s := by simpa using hk
        refine ⟨pre, c, rest, rfl, hs, ?_, rfl⟩
        by_cases hword : word c
        · simpa [hword, joined] using hstart
        · simp [joined, hword]
      | succ k =>
        obtain ⟨front, d, behind, hsplit, hlength, hcut, htokens⟩ :=
          hget k s (by simpa using hk)
        exact ⟨front, d, behind, hsplit, hlength, hcut, by omega⟩
    · rw [startsFrom, if_neg hstart]
      rw [if_neg hstart] at hcount hget
      exact ⟨hcount, hget⟩

theorem starts_spec (t : List α) : (starts word single t).length = (tokens word single t).length ∧
      ∀ k s, (starts word single t)[k]? = some s →
        ∃ front c behind, t = front ++ c :: behind ∧ front.length = s ∧
          joined word front (c :: behind) = false ∧ (tokens word single front).length = k := by
  have hspec := @startsFrom_spec α word single t []
  simpa [starts] using hspec

end Tokens
