import Yuanlei.Chunking.QaChunks

/-!
# Long chunks of question and answer

What is left of a pair when its text is too long: every chunk starts with the question, and the
pieces of the answer hold all of it.  The marker of the answer is searched in the whole text, so a
question that holds it loses what follows.

Main results:

- `not_keeps_of_marker`: the marker inside a question.
- `longChunksKeep_iff`: the pairs that keep their question and their answer below
  every limit.
-/

namespace Yuanlei.Chunking.Qa

open PosixPath (Text)
open PyText (isSpace stripChars splitLines splitMax)

/-! ## The last character -/

/-- The last character of a text is no white space. -/
def EndsFull (t : Text) : Prop :=
  ∃ init c, t = init ++ [c] ∧ isSpace c = false

variable {t front : Text}

theorem EndsFull.suffix (h : EndsFull (front ++ t)) (ht : t ≠ []) : EndsFull t := by
  obtain ⟨init, c, hsplit, hc⟩ := h
  rcases List.eq_nil_or_concat' t with rfl | ⟨init', x, rfl⟩
  · exact absurd rfl ht
  · rw [← List.append_assoc] at hsplit
    obtain ⟨-, hx⟩ := List.append_inj' hsplit rfl
    exact ⟨init', x, rfl, List.singleton_inj.mp hx ▸ hc⟩

theorem EndsFull.not_blank (h : EndsFull t) : stripChars t ≠ [] := by
  obtain ⟨init, c, rfl, hc⟩ := h
  intro hblank
  have hspace := stripChars_eq_nil_iff.mp hblank c (by simp)
  rw [hc] at hspace
  cases hspace

theorem EndsFull.prepend (h : EndsFull t) (front : Text) : EndsFull (front ++ t) := by
  obtain ⟨init, c, rfl, hc⟩ := h
  exact ⟨front ++ init, c, by simp, hc⟩

theorem EndsFull.not_blank_of_append (h : EndsFull (front ++ t)) (ht : t ≠ []) :
    stripChars t ≠ [] :=
  (h.suffix ht).not_blank

theorem endsFull_strip (h : stripChars t ≠ []) : EndsFull (stripChars t) := by
  have hlast : ¬ isSpace ((stripChars t).getLast h) = true :=
    List.rdropWhile_last_not isSpace (t.dropWhile isSpace) h
  refine ⟨(stripChars t).dropLast, (stripChars t).getLast h, ?_, ?_⟩
  · exact (List.dropLast_append_getLast h).symm
  · simpa using hlast

theorem strip_suffix (h : EndsFull t) : stripChars t <:+ t := by
  obtain ⟨left, right, -, hright, ht⟩ := PyText.exists_append_stripChars t
  cases right with
  | nil => exact ⟨left, by simpa using ht.symm⟩
  | cons c right =>
    rw [ht, ← List.append_assoc] at h
    exact absurd (stripChars_eq_nil_iff.mpr hright) (h.not_blank_of_append (by simp))

variable {rest : Text} {c : Char}

/-- The first character of a text without white space at its ends. -/
theorem strip_head (h : stripChars t = c :: rest) : isSpace c = false := by
  have hagain := PyText.stripChars_stripChars t
  rw [h] at hagain
  by_contra hspace
  have hc : isSpace c = true := by simpa using hspace
  have hlength : (stripChars (c :: rest)).length ≤ rest.length := by
    have hskip : stripChars (c :: rest) = stripChars rest := by simp [stripChars, hc]
    obtain ⟨left, right, -, -, hrest⟩ := PyText.exists_append_stripChars rest
    rw [hskip]
    conv_rhs => rw [hrest]
    simp only [List.length_append]
    omega
  rw [hagain, List.length_cons] at hlength
  omega

/-! ## The parts of a pair -/

theorem rmPrefix_ends (h : rmPrefix t ≠ []) : EndsFull (rmPrefix t) := by
  have hsuffix : rmPrefix t <:+ stripChars t := by
    unfold rmPrefix
    simp only
    split
    · exact (List.dropWhile_suffix _).trans (List.drop_suffix ..)
    · exact List.suffix_rfl
  obtain ⟨front, hfront⟩ := hsuffix
  have hne : stripChars t ≠ [] := by
    rw [← hfront]
    exact List.append_ne_nil_of_right_ne_nil _ h
  have hends := endsFull_strip hne
  rw [← hfront] at hends
  exact hends.suffix h

/-- What stands in front of the answer. -/
def header (eng : Bool) (question : Text) : Text :=
  questionLabel eng ++ (rmPrefix question ++ marker eng)

theorem toQaChunk_eq (eng : Bool) (question answer : Text) :
    toQaChunk eng question answer = header eng question ++ rmPrefix answer := by
  simp [toQaChunk, header, marker, List.intercalate_cons_cons]

theorem toQaChunk_eq_marker (eng : Bool) (question answer : Text) : toQaChunk eng question answer
      = questionLabel eng ++ (rmPrefix question ++ (marker eng ++ rmPrefix answer)) := by
  rw [toQaChunk_eq]
  simp [header]

theorem questionLabel_head (eng : Bool) :
    ∃ c rest, questionLabel eng = c :: rest ∧ isSpace c = false := by
  cases eng
  · exact ⟨'问', "题：".toList, by decide, by decide⟩
  · exact ⟨'Q', "uestion: ".toList, by decide, by decide⟩

variable {eng : Bool}

theorem strip_labelled (h : EndsFull t) :
    stripChars (questionLabel eng ++ t) = questionLabel eng ++ t := by
  obtain ⟨c, rest, hlabel, hc⟩ := questionLabel_head eng
  obtain ⟨init, x, rfl, hx⟩ := h
  have hends := PyText.stripChars_of_ends hc hx (rest ++ init)
  rw [hlabel]
  simpa using hends

theorem nonspace_marker_ne_nil (eng : Bool) : nonspace (marker eng) ≠ [] := by
  cases eng <;> decide

theorem nonspace_header_ne_nil (eng : Bool) (question : Text) : nonspace (header eng question) ≠ [] := by
  rw [header, nonspace_append, nonspace_append]
  intro hnil
  exact nonspace_marker_ne_nil eng (List.append_eq_nil_iff.mp (List.append_eq_nil_iff.mp hnil).2).2

/-! ## Pairs that keep their parts -/

/-- The question with both labels leaves room for a character of the answer. -/
def LeavesRoom (eng : Bool) (maxChars : Int) (pair : Text × Text) : Prop :=
  ((header eng pair.1).length : Int) + 1 ≤ maxChars

/-- The chunks of a pair start with its question, and their parts hold its answer. -/
def Keeps (eng : Bool) (maxChars : Int) (pair : Text × Text) : Prop :=
  ∃ parts : List Text, splitLongQaChunks [toQaChunk eng pair.1 pair.2] maxChars
      = parts.map (header eng pair.1 ++ ·) ∧
    parts.flatMap nonspace = nonspace (rmPrefix pair.2)

/-- The question is not empty, does not start with white space behind its label, and does not hold
the marker. -/
def Separable (eng : Bool) (question : Text) : Prop :=
  rmPrefix question ≠ [] ∧ stripChars (rmPrefix question) = rmPrefix question ∧
    ¬ marker eng <:+: rmPrefix question

/-- An answer of at most one character always fits, but an empty one loses the end of its label. -/
def Splits (eng : Bool) (pair : Text × Text) : Prop :=
  ((rmPrefix pair.2).length ≤ 1 ∨ Separable eng pair.1) ∧ ¬ (eng = true ∧ rmPrefix pair.2 = [])

variable {maxChars : Nat}

theorem splitLongQaChunks_singleton (hmax : 0 < maxChars) (chunk : Text) :
    splitLongQaChunks [chunk] maxChars = splitLongQaChunk maxChars chunk := by
  rw [splitLongQaChunks, if_neg (by omega)]
  simp

theorem strip_toQaChunk {eng : Bool} {question answer : Text}
    (h : ¬ (eng = true ∧ rmPrefix answer = [])) :
    stripChars (toQaChunk eng question answer) = toQaChunk eng question answer := by
  rw [toQaChunk_eq_marker]
  refine strip_labelled (EndsFull.prepend ?_ _)
  by_cases hnil : rmPrefix answer = []
  · have hchinese : eng = false := by
      cases eng
      · rfl
      · exact absurd ⟨rfl, hnil⟩ h
    subst hchinese
    rw [hnil, List.append_nil]
    exact ⟨"\t回答".toList, '：', by decide, by decide⟩
  · exact (rmPrefix_ends hnil).prepend _

variable {pair : Text × Text}

theorem keeps_of_fits (hfits : (toQaChunk eng pair.1 pair.2).length ≤ maxChars)
    (hlabel : ¬ (eng = true ∧ rmPrefix pair.2 = [])) : Keeps eng maxChars pair := by
  have hne : toQaChunk eng pair.1 pair.2 ≠ [] := by
    rw [toQaChunk_eq_marker]
    cases eng <;> simp [questionLabel]
  have hpos := List.length_pos_iff.mpr hne
  refine ⟨[rmPrefix pair.2], ?_, by simp⟩
  rw [splitLongQaChunks_singleton (by omega), splitLongQaChunk]
  simp only [strip_toQaChunk hlabel]
  rw [if_neg hne, if_pos hfits, toQaChunk_eq]
  rfl

theorem keeps_of_splits (hroom : LeavesRoom eng maxChars pair) (hsplits : Splits eng pair) :
    Keeps eng maxChars pair := by
  obtain ⟨hpart, hlabel⟩ := hsplits
  by_cases hfits : (toQaChunk eng pair.1 pair.2).length ≤ maxChars
  · exact keeps_of_fits hfits hlabel
  · have hlong : maxChars < (toQaChunk eng pair.1 pair.2).length := Nat.lt_of_not_le hfits
    have hlengths : (toQaChunk eng pair.1 pair.2).length
        = (header eng pair.1).length + (rmPrefix pair.2).length := by
      rw [toQaChunk_eq, List.length_append]
    have hheader : (header eng pair.1).length = (questionLabel eng).length
        + ((rmPrefix pair.1).length + ((answerLabel eng).length + 1)) := by
      simp [header, marker]
    unfold LeavesRoom at hroom
    have hanswer : rmPrefix pair.2 ≠ [] := by
      intro hnil
      rw [hnil, List.length_nil] at hlengths
      omega
    obtain ⟨hq, hstrip, hmarker⟩ := hpart.resolve_left (by omega)
    have hends := rmPrefix_ends hanswer
    have hwhole := @strip_toQaChunk eng pair.1 pair.2 hlabel
    rw [toQaChunk_eq_marker] at hwhole hlong
    have hcut := splitLongQaChunk_at_marker eng hmarker hwhole hlong
    rw [hstrip, if_neg] at hcut
    · refine ⟨splitAnswerByParagraphs (stripChars (rmPrefix pair.2)) (maxChars
          - (questionLabel eng).length - (rmPrefix pair.1).length - (answerLabel eng).length - 1),
        ?_, ?_⟩
      · rw [splitLongQaChunks_singleton (by omega), toQaChunk_eq_marker, hcut]
        refine List.map_congr_left fun part _ => ?_
        simp [header, marker]
      · rw [splitAnswerByParagraphs_nonspace (by omega), nonspace_strip]
    · rintro (hnil | hblank | hsmall)
      · exact hq hnil
      · exact hends.not_blank hblank
      · omega

/-! ## Pairs that lose parts -/

theorem length_flatMap_map_append (h : Text) (parts : List Text) :
    ((parts.map (h ++ ·)).flatMap nonspace).length
      = parts.length * (nonspace h).length + (parts.flatMap nonspace).length := by
  induction parts with
  | nil => simp
  | cons part parts ih =>
    rw [List.map_cons, List.flatMap_cons, List.length_append, ih, nonspace_append,
      List.flatMap_cons, List.length_append, List.length_append, List.length_cons, Nat.add_mul]
    omega

/-- Texts that repeat a header hold what one header and one answer hold only when they are one. -/
theorem one_part {h a : Text} {parts : List Text} (hh : nonspace h ≠ [])
    (hparts : parts.flatMap nonspace = nonspace a)
    (hall : (parts.map (h ++ ·)).flatMap nonspace = nonspace (h ++ a)) :
    ∃ part, parts = [part] := by
  have hlength := length_flatMap_map_append h parts
  rw [hall, hparts, nonspace_append, List.length_append] at hlength
  have hpos := List.length_pos_iff.mpr hh
  have hone : parts.length = 1 := by
    have hsame : parts.length * (nonspace h).length = 1 * (nonspace h).length := by omega
    exact Nat.eq_of_mul_eq_mul_right hpos hsame
  exact List.length_eq_one_iff.mp hone

theorem two_le_length_hardSplitText (hmax : 0 < maxChars) (hc : isSpace c = false)
    (hends : EndsFull (c :: rest))
    (hlong : maxChars < (c :: rest).length) :
    2 ≤ (hardSplitText (c :: rest) maxChars).length := by
  obtain ⟨n, rfl⟩ : ∃ n, maxChars = n + 1 := ⟨maxChars - 1, by omega⟩
  have hfirst : stripChars ((c :: rest).take (n + 1)) ≠ [] := by
    intro hblank
    have hspace := stripChars_eq_nil_iff.mp hblank c (by simp)
    rw [hc] at hspace
    cases hspace
  have hsplit : (c :: rest).take (n + 1) ++ (c :: rest).drop (n + 1) = c :: rest :=
    List.take_append_drop ..
  have hlater : stripChars ((c :: rest).drop (n + 1)) ≠ [] := by
    rw [← hsplit] at hends
    refine hends.not_blank_of_append ?_
    intro hnil
    have hlength := congrArg List.length hnil
    rw [List.length_drop, List.length_nil] at hlength
    omega
  have hrest : ((Packing.cutEvery (n + 1) rest.length ((c :: rest).drop (n + 1))).filter
      (stripChars · ≠ [])) ≠ [] := by
    intro hnil
    have hkept := nonspace_filter_not_blank
      (Packing.cutEvery (n + 1) rest.length ((c :: rest).drop (n + 1)))
    have hflat := Packing.cutEvery_flatten (Nat.succ_pos n) rest.length
      ((c :: rest).drop (n + 1)) (by simp)
    have hwhole : (Packing.cutEvery (n + 1) rest.length ((c :: rest).drop (n + 1))).flatMap nonspace
        = nonspace ((c :: rest).drop (n + 1)) := by
      conv_rhs => rw [← hflat]
      rw [nonspace, List.filter_flatten]
      rfl
    rw [hnil, hwhole] at hkept
    exact hlater (nonspace_eq_nil_iff.mp hkept.symm)
  have hpos := List.length_pos_iff.mpr hrest
  have hcut : hardSplitText (c :: rest) (n + 1) = (c :: rest).take (n + 1) ::
      (Packing.cutEvery (n + 1) rest.length ((c :: rest).drop (n + 1))).filter
        (stripChars · ≠ []) := by
    exact List.filter_cons_of_pos (decide_eq_true hfirst)
  rw [hcut, List.length_cons]
  omega

/-- A text that is cut at every multiple of the limit repeats no header. -/
theorem not_parts_of_hardSplit (hmax : 0 < maxChars) (hends : EndsFull (rmPrefix pair.2))
    (hlong : maxChars < (toQaChunk eng pair.1 pair.2).length) :
    ¬ ∃ parts : List Text, hardSplitText (toQaChunk eng pair.1 pair.2) maxChars
        = parts.map (header eng pair.1 ++ ·) ∧
      parts.flatMap nonspace = nonspace (rmPrefix pair.2) := by
  rintro ⟨parts, hchunks, hparts⟩
  have hall := hardSplitText_nonspace hmax (toQaChunk eng pair.1 pair.2)
  rw [hchunks, toQaChunk_eq] at hall
  obtain ⟨part, rfl⟩ := one_part (nonspace_header_ne_nil eng pair.1) hparts hall
  obtain ⟨c, rest, hlabel, hc⟩ := questionLabel_head eng
  have hstart : toQaChunk eng pair.1 pair.2
      = c :: (rest ++ (rmPrefix pair.1 ++ (marker eng ++ rmPrefix pair.2))) := by
    rw [toQaChunk_eq_marker, hlabel, List.cons_append]
  have hwhole : EndsFull (toQaChunk eng pair.1 pair.2) := by
    rw [toQaChunk_eq]
    exact hends.prepend _
  rw [hstart] at hwhole hlong hchunks
  have htwo := two_le_length_hardSplitText hmax hc hwhole hlong
  rw [hchunks, List.length_map, List.length_singleton] at htwo
  omega

variable {u y l : Text} {d : Char}

/-- Behind white space that was taken away no label can follow in its place. -/
theorem strip_eq_of_tab {s : Text} (hu : stripChars u ≠ [])
    (hd : isSpace d = false) (h : stripChars u ++ '\t' :: (d :: l ++ s) = u ++ '\t' :: y) :
    stripChars u = u := by
  obtain ⟨left, right, hleft, hright, hsplit⟩ := PyText.exists_append_stripChars u
  obtain ⟨c, rest, hstrip⟩ := List.exists_cons_of_ne_nil hu
  have hc := strip_head hstrip
  rw [hstrip] at h hsplit ⊢
  cases left with
  | cons e left =>
    -- The two texts start with different characters.
    have he := hleft e (List.mem_cons_self ..)
    rw [hsplit] at h
    obtain ⟨hsame, -⟩ := List.cons.inj h
    rw [hsame, he] at hc
    cases hc
  | nil =>
    rw [List.nil_append] at hsplit
    rw [hsplit, List.append_assoc, List.append_cancel_left_eq] at h
    cases right with
    | nil => rw [hsplit, List.append_nil]
    | cons r right =>
      -- A white space character would stand where the label starts.
      obtain ⟨-, hbehind⟩ := List.cons.inj h
      cases right with
      | nil =>
        obtain ⟨htab, -⟩ := List.cons.inj hbehind
        rw [htab] at hd
        exact absurd hd (by decide)
      | cons r' right =>
        obtain ⟨hsame, -⟩ := List.cons.inj hbehind
        have hr := hright r' (by simp)
        rw [← hsame, hd] at hr
        cases hr

/-! ## The last piece of an answer -/

theorem isLineBreak_of_endsFull (h : EndsFull t) :
    ∀ c ∈ t.getLast?, PyText.isLineBreak c = false := by
  obtain ⟨init, x, rfl, hx⟩ := h
  intro c hc
  rw [List.getLast?_concat, Option.mem_some_iff] at hc
  subst hc
  by_contra hbreak
  rw [isSpace_of_isLineBreak (by simpa using hbreak)] at hx
  cases hx

theorem splitMax_getLast {sep : Text} (hsep : sep ≠ []) (n : Nat) (t : Text) :
    ∃ front last, (splitMax sep n t).getLast? = some last ∧ t = front ++ last ∧
      (front = [] ∨ sep <:+ front) := by
  induction n generalizing t with
  | zero => exact ⟨[], t, rfl, rfl, Or.inl rfl⟩
  | succ n ih =>
    rw [splitMax]
    cases hcut : PyText.partition sep t with
    | none => exact ⟨[], t, rfl, rfl, Or.inl rfl⟩
    | some p =>
      obtain ⟨front, last, hlast, hsplit, hfront⟩ := ih p.2
      have ht := ((PyText.partition_eq_some_iff hsep).mp hcut).1
      refine ⟨p.1 ++ (sep ++ front), last, ?_, ?_, Or.inr ?_⟩
      · simp only
        rw [List.getLast?_cons, hlast]
        rfl
      · rw [ht, hsplit]
        simp
      · rcases hfront with rfl | hfront
        · exact ⟨p.1, by simp⟩
        · exact hfront.trans ⟨p.1 ++ sep, by simp⟩

variable {line : Text}

theorem splitLinesFrom_ne_nil (h : line ≠ [] ∨ t ≠ []) :
    PyText.splitLinesFrom line t ≠ [] := by
  fun_induction PyText.splitLinesFrom line t with
  | case1 => simp at h
  | case2 line hline => simp
  | case3 line t ih => simp
  | case4 line c t _ hbreak ih => simp
  | case5 line c t _ hbreak ih => exact ih (Or.inl (by simp))

theorem splitLinesFrom_getLast {line t l : Text}
    (h : (PyText.splitLinesFrom line t).getLast? = some l)
    (hends : ∀ c ∈ t.getLast?, PyText.isLineBreak c = false) :
    l ≠ [] ∧ l <:+ line.reverse ++ t := by
  fun_induction PyText.splitLinesFrom line t with
  | case1 => cases h
  | case2 line hline =>
    obtain rfl : line.reverse = l := by simpa using h
    exact ⟨by simpa using hline, by simp⟩
  | case3 line t ih =>
    have hrest : t ≠ [] := by
      rintro rfl
      exact absurd (hends '\n' rfl) (by decide)
    obtain ⟨c, t, rfl⟩ := List.exists_cons_of_ne_nil hrest
    rw [← List.singleton_append, List.getLast?_append_of_ne_nil _
      (splitLinesFrom_ne_nil (Or.inr hrest))] at h
    obtain ⟨hne, hsuffix⟩ := ih h (by simpa [List.getLast?_cons] using hends)
    exact ⟨hne, hsuffix.trans ⟨line.reverse ++ ['\r', '\n'], by simp⟩⟩
  | case4 line c t _ hbreak ih =>
    have hrest : t ≠ [] := by
      rintro rfl
      rw [hends c rfl] at hbreak
      cases hbreak
    obtain ⟨d, t, rfl⟩ := List.exists_cons_of_ne_nil hrest
    rw [← List.singleton_append, List.getLast?_append_of_ne_nil _
      (splitLinesFrom_ne_nil (Or.inr hrest))] at h
    obtain ⟨hne, hsuffix⟩ := ih h (by simpa [List.getLast?_cons] using hends)
    exact ⟨hne, hsuffix.trans ⟨line.reverse ++ [c], by simp⟩⟩
  | case5 line c t _ hbreak ih =>
    have hmore : ∀ d ∈ t.getLast?, PyText.isLineBreak d = false := by
      intro d hd
      refine hends d ?_
      rw [List.getLast?_cons, Option.mem_def.mp hd]
      rfl
    obtain ⟨hne, hsuffix⟩ := ih h hmore
    exact ⟨hne, by simpa using hsuffix⟩

variable {q : Text}

theorem filter_concat_not_blank (L : List Text) (hq : stripChars q ≠ []) :
    (L ++ [q]).filter (stripChars · ≠ []) = L.filter (stripChars · ≠ []) ++ [q] := by
  simp [List.filter_append, hq]

variable {piece : Text}

theorem hardSplitText_getLast (hmax : 0 < maxChars)
    (hends : EndsFull line) (h : (hardSplitText line maxChars).getLast? = some piece) :
    piece <:+ line := by
  rcases List.eq_nil_or_concat' (Packing.cutEvery maxChars line.length line) with hnil | ⟨L, q, hL⟩
  · rw [hardSplitText, hnil] at h
    cases h
  · have hq : q ∈ Packing.cutEvery maxChars line.length line := by simp [hL]
    have hsuffix : q <:+ line :=
      Packing.cutEvery_getLast_suffix hmax (le_refl _) (by rw [hL, List.getLast?_concat])
    obtain ⟨front, hfront⟩ := hsuffix
    have hfull : stripChars q ≠ [] := by
      rw [← hfront] at hends
      exact hends.not_blank_of_append (Packing.ne_nil_of_mem_cutEvery hmax hq)
    rw [hardSplitText, hL, filter_concat_not_blank L hfull, List.getLast?_concat] at h
    rw [← Option.some.inj h]
    exact ⟨front, hfront⟩

variable {answer : Text}

theorem lines_getLast (hends : EndsFull answer)
    (h : u ∈ ((splitLines answer).filter (stripChars · ≠ [])).getLast?) :
    EndsFull u ∧ u <:+ answer := by
  rcases List.eq_nil_or_concat' (splitLines answer) with hnil | ⟨L, l, hL⟩
  · rw [hnil] at h
    cases h
  · obtain ⟨hne, hsuffix⟩ := @splitLinesFrom_getLast [] answer l
      (by rw [← PyText.splitLines, hL, List.getLast?_concat]) (isLineBreak_of_endsFull hends)
    obtain ⟨front, hfront⟩ := hsuffix
    have hl : EndsFull l := by
      rw [List.reverse_nil, List.nil_append] at hfront
      rw [← hfront] at hends
      exact hends.suffix hne
    rw [hL, filter_concat_not_blank L hl.not_blank, List.getLast?_concat, Option.mem_some_iff] at h
    subst h
    exact ⟨hl, front, hfront⟩

theorem paragraphs_getLast (hends : EndsFull answer)
    (h : u ∈ ((splitMax ['\n', '\n'] answer.length answer).flatMap cleanedChunk).getLast?) :
    EndsFull u ∧ u <:+ answer := by
  obtain ⟨front, last, hlast, hsplit, hfront⟩ :=
    @splitMax_getLast ['\n', '\n'] (by simp) answer.length answer
  obtain ⟨L, hL⟩ := List.getLast?_eq_some_iff.mp hlast
  have hfull : stripChars last ≠ [] := by
    rw [hsplit] at hends
    rcases hfront with rfl | ⟨f, rfl⟩
    · exact hends.not_blank
    · intro hblank
      rw [List.append_assoc] at hends
      refine hends.not_blank_of_append (by simp) (nonspace_eq_nil_iff.mp ?_)
      rw [nonspace_append, nonspace_eq_nil_iff.mpr hblank]
      rfl
  have hne : last ≠ [] := by
    rintro rfl
    exact hfull rfl
  have hlastEnds : EndsFull last := by
    rw [hsplit] at hends
    exact hends.suffix hne
  rw [hL, List.flatMap_append, List.flatMap_singleton, cleanedChunk, if_neg hfull,
    List.getLast?_concat, Option.mem_some_iff] at h
  subst h
  refine ⟨endsFull_strip hfull, (strip_suffix hlastEnds).trans ?_⟩
  exact ⟨front, hsplit.symm⟩

variable {ts : List Text}

theorem not_blank_of_mem_filter (h : t ∈ ts.filter (stripChars · ≠ [])) : stripChars t ≠ [] :=
  of_decide_eq_true (List.mem_filter.mp h).2

theorem ne_nil_of_not_blank (h : stripChars t ≠ []) : t ≠ [] := by
  rintro rfl
  exact h rfl

theorem ne_nil_of_flatMap_nonspace (h : ts.flatMap nonspace = nonspace t) (ht : stripChars t ≠ []) : ts ≠
    [] := by
  intro hnil
  exact ht (blank_of_no_units h hnil)

variable {w : Text}

theorem not_mem_separator {sep : Text} (hw : '\n' ∉ w) (hsep : ∀ c ∈ sep, c = '\n') :
    ∀ a ∈ w, a ∉ sep :=
  fun a ha hmem => hw (hsep a hmem ▸ ha)

theorem splitAnswerByLines_suffix (hmax : 0 < maxChars) (hw : '\n' ∉ w) (hends : EndsFull answer)
    (h : (splitAnswerByLines answer maxChars).getLast? = some piece) (hsuffix : w <:+ piece) :
    w <:+ answer := by
  have hunits := ne_nil_of_flatMap_nonspace (lines_nonspace answer) hends.not_blank
  rw [splitAnswerByLines, if_neg hunits] at h
  have hend := Packing.pack_getLast_suffix (not_mem_separator hw (by simp)) (by simp)
    (fun u hu => ne_nil_of_not_blank (not_blank_of_mem_filter hu))
    (fun u hu => ne_nil_of_flatMap_nonspace (hardSplitText_nonspace hmax u)
      (not_blank_of_mem_filter hu))
    (fun u hu piece hpiece hsuffix =>
      hsuffix.trans (hardSplitText_getLast hmax (lines_getLast hends hu).1 hpiece)) h hsuffix
  rw [List.getLast?_eq_some_getLast hunits, Option.getD_some] at hend
  exact hend.trans (lines_getLast hends (List.getLast?_eq_some_getLast hunits)).2

theorem splitAnswerByParagraphs_suffix (hmax : 0 < maxChars) (hw : '\n' ∉ w)
    (hends : EndsFull answer)
    (h : (splitAnswerByParagraphs answer maxChars).getLast? = some piece)
    (hsuffix : w <:+ piece) : w <:+ answer := by
  have hunits := ne_nil_of_flatMap_nonspace (paragraphs_nonspace answer) hends.not_blank
  have hfull : ∀ u ∈ (splitMax ['\n', '\n'] answer.length answer).flatMap cleanedChunk,
      stripChars u ≠ [] := by
    intro u hu
    obtain ⟨part, -, hpart⟩ := List.mem_flatMap.mp hu
    exact not_blank_of_mem_cleanedChunk hpart
  rw [splitAnswerByParagraphs, if_neg hunits] at h
  have hend := Packing.pack_getLast_suffix (not_mem_separator hw (by simp)) (by simp)
    (fun u hu => ne_nil_of_not_blank (hfull u hu))
    (fun u hu => ne_nil_of_flatMap_nonspace (splitAnswerByLines_nonspace hmax u) (hfull u hu))
    (fun u hu piece hpiece hsuffix =>
      splitAnswerByLines_suffix hmax hw (paragraphs_getLast hends hu).1 hpiece hsuffix) h hsuffix
  rw [List.getLast?_eq_some_getLast hunits, Option.getD_some] at hend
  exact hend.trans (paragraphs_getLast hends (List.getLast?_eq_some_getLast hunits)).2

/-! ## The marker inside a question -/

variable {init : Text}

/-- A label does not stand at the end of itself and further white space. -/
theorem not_suffix_of_blank {x : Text} (hd : isSpace d = false) (hl : d ∉ l)
    (hinit : ∀ c ∈ init, isSpace c = true) (hne : init ≠ []) :
    ¬ (d :: l) <:+ x ++ ((d :: l) ++ init) := by
  intro hsuffix
  have hshort : (d :: l).length ≤ ((d :: l) ++ init).length := by simp
  obtain ⟨y, hy⟩ := List.suffix_of_suffix_length_le hsuffix (List.suffix_append _ _) hshort
  cases y with
  | nil =>
    have hlength := congrArg List.length hy
    have hpos := List.length_pos_iff.mpr hne
    simp only [List.nil_append, List.length_append] at hlength
    omega
  | cons e y =>
    -- The first character of the label would recur behind it.
    have hbehind : y ++ d :: l = l ++ init := (List.cons.inj hy).2
    have hmem : d ∈ l ++ init := by
      rw [← hbehind]
      exact List.mem_append_right y (List.mem_cons_self ..)
    rcases List.mem_append.mp hmem with hrecurs | hspace
    · exact hl hrecurs
    · rw [hinit d hspace] at hd
      cases hd

theorem answerLabel_head (eng : Bool) :
    ∃ d l, answerLabel eng = d :: l ∧ isSpace d = false ∧ d ∉ l ∧ '\n' ∉ answerLabel eng := by
  cases eng
  · exact ⟨'回', "答：".toList, by decide, by decide, by decide, by decide⟩
  · exact ⟨'A', "nswer: ".toList, by decide, by decide, by decide, by decide⟩

theorem blank_of_one_character {part : Text} (hc : isSpace c = false)
    (hpart : nonspace part = nonspace (init ++ [c])) (hlength : part.length ≤ 1) :
    part = [c] ∧ ∀ d ∈ init, isSpace d = true := by
  have hlast : nonspace [c] = [c] := by simp [nonspace, hc]
  rw [nonspace_append, hlast] at hpart
  rcases part with _ | ⟨d, _ | ⟨d', rest⟩⟩
  · simp at hpart
  · have hshort : (nonspace [d]).length ≤ 1 := List.length_filter_le ..
    have hinit : nonspace init = [] := by
      have hlengths := congrArg List.length hpart
      rw [List.length_append, List.length_singleton] at hlengths
      exact List.length_eq_zero_iff.mp (by omega)
    rw [hinit, List.nil_append] at hpart
    have hmem : c ∈ nonspace [d] := hpart ▸ List.mem_singleton_self c
    have hcd := List.mem_singleton.mp (List.mem_of_mem_filter hmem)
    exact ⟨by rw [hcd], stripChars_eq_nil_iff.mp (nonspace_eq_nil_iff.mp hinit)⟩
  · simp only [List.length_cons] at hlength
    omega

theorem not_keeps_of_marker (hq : rmPrefix pair.1 = u ++ (marker eng ++ q))
    (hmarker : ¬ marker eng <:+: u)
    (hstrip : stripChars u = u) (hu : u ≠ []) (htwo : 2 ≤ (rmPrefix pair.2).length) :
    ¬ Keeps eng ((header eng pair.1).length + 1 : Nat) pair := by
  rintro ⟨parts, hchunks, hparts⟩
  have hanswer : rmPrefix pair.2 ≠ [] := by
    intro hnil
    rw [hnil, List.length_nil] at htwo
    omega
  have hends := rmPrefix_ends hanswer
  have hheader : (header eng pair.1).length = (questionLabel eng).length + (u.length
      + ((answerLabel eng).length + 1 + q.length)) + ((answerLabel eng).length + 1) := by
    simp only [header, hq, marker, List.length_append, List.length_cons]
    omega
  have hchunk : toQaChunk eng pair.1 pair.2
      = questionLabel eng ++ (u ++ (marker eng ++ (q ++ (marker eng ++ rmPrefix pair.2)))) := by
    rw [toQaChunk_eq_marker, hq]
    simp
  have hlong : (header eng pair.1).length + 1 < (toQaChunk eng pair.1 pair.2).length := by
    rw [toQaChunk_eq, List.length_append]
    omega
  have hwhole := @strip_toQaChunk eng pair.1 pair.2 fun h => hanswer h.2
  rw [hchunk] at hwhole hlong
  have hcut := splitLongQaChunk_at_marker eng hmarker hwhole hlong
  have hbehind : EndsFull (q ++ (marker eng ++ rmPrefix pair.2)) :=
    (hends.prepend (marker eng)).prepend q
  have hroom : ¬ (stripChars u = [] ∨ stripChars (q ++ (marker eng ++ rmPrefix pair.2)) = [] ∨
      (header eng pair.1).length + 1 ≤ (questionLabel eng).length + (stripChars u).length
        + (answerLabel eng).length + 1) := by
    rintro (hnil | hblank | hsmall)
    · exact hu (hstrip ▸ hnil)
    · exact hbehind.not_blank hblank
    · rw [hstrip] at hsmall
      omega
  rw [if_neg hroom, hstrip] at hcut
  rw [splitLongQaChunks_singleton (by omega), hchunk, hcut] at hchunks
  generalize hbudget : (header eng pair.1).length + 1 - (questionLabel eng).length - u.length
    - (answerLabel eng).length - 1 = budget at hchunks
  generalize hsubs : splitAnswerByParagraphs
    (stripChars (q ++ (marker eng ++ rmPrefix pair.2))) budget = subs at hchunks
  have hpos : 0 < budget := by omega
  -- The pieces repeat what follows the first marker, so there is one piece only.
  have hsame : subs = parts.map ((q ++ marker eng) ++ ·) := by
    have hinjective := List.append_right_injective (questionLabel eng ++ (u ++ marker eng))
    refine List.map_injective_iff.mpr hinjective ?_
    simpa [marker, header, hq, List.map_map, Function.comp_def] using hchunks
  have hall : (parts.map ((q ++ marker eng) ++ ·)).flatMap nonspace
      = nonspace ((q ++ marker eng) ++ rmPrefix pair.2) := by
    rw [← hsame, ← hsubs, splitAnswerByParagraphs_nonspace hpos, nonspace_strip, List.append_assoc]
  have hfull : nonspace (q ++ marker eng) ≠ [] := by
    rw [nonspace_append]
    exact List.append_ne_nil_of_right_ne_nil _ (nonspace_marker_ne_nil eng)
  obtain ⟨part, rfl⟩ := one_part hfull hparts hall
  have hpiece : splitAnswerByParagraphs (stripChars (q ++ (marker eng ++ rmPrefix pair.2))) budget
      = [(q ++ marker eng) ++ part] := hsubs.trans hsame
  have hlength : part.length ≤ 1 := by
    have hle := @splitAnswerByParagraphs_length_le _ ((q ++ marker eng) ++ part) budget
      (hpiece ▸ List.mem_singleton_self _)
    simp only [marker, List.length_append, List.length_cons] at hle
    omega
  obtain ⟨init, c, hsplit, hc⟩ := hends
  rw [List.flatMap_singleton, hsplit] at hparts
  obtain ⟨rfl, hblank⟩ := blank_of_one_character hc hparts hlength
  have hinit : init ≠ [] := by
    rintro rfl
    rw [hsplit] at htwo
    simp at htwo
  -- But the white space in front of the last character is kept.
  obtain ⟨d, l, hlabel, hd, hl, hnewline⟩ := answerLabel_head eng
  have hw : '\n' ∉ answerLabel eng ++ [c] := by
    intro hmem
    rcases List.mem_append.mp hmem with hmem | hmem
    · exact hnewline hmem
    · rw [← List.mem_singleton.mp hmem] at hc
      exact absurd hc (by decide)
  have hend : answerLabel eng ++ [c] <:+ q ++ (marker eng ++ (init ++ [c])) := by
    rw [hsplit] at hpiece hbehind
    have hlast := congrArg List.getLast? hpiece
    have hcopied : answerLabel eng ++ [c] <:+ (q ++ marker eng) ++ [c] :=
      ⟨q ++ ['\t'], by simp [marker]⟩
    exact (splitAnswerByParagraphs_suffix hpos hw (endsFull_strip hbehind.not_blank) hlast
      hcopied).trans (strip_suffix hbehind)
  obtain ⟨y, hy⟩ := hend
  have hcancel : y ++ answerLabel eng = (q ++ ['\t']) ++ (answerLabel eng ++ init) := by
    have hends : (y ++ answerLabel eng) ++ [c]
        = ((q ++ ['\t']) ++ (answerLabel eng ++ init)) ++ [c] := by
      simpa [marker] using hy
    exact List.append_cancel_right hends
  rw [hlabel] at hcancel
  exact not_suffix_of_blank hd hl hblank hinit ⟨y, hcancel⟩

/-- Where a long pair is taken apart, its question is neither blank nor stripped. -/
theorem strip_of_keeps {v : Text}
    (hchunk : toQaChunk eng pair.1 pair.2 = questionLabel eng ++ (u ++ (marker eng ++ v)))
    (hheader : header eng pair.1 = questionLabel eng ++ (u ++ '\t' :: y))
    (hmarker : ¬ marker eng <:+: u) (hv : EndsFull v) (htwo : 2 ≤ (rmPrefix pair.2).length)
    (hkeeps : Keeps eng ((header eng pair.1).length + 1 : Nat) pair) :
    stripChars u = u ∧ u ≠ [] := by
  obtain ⟨parts, hchunks, hparts⟩ := hkeeps
  have hanswer : rmPrefix pair.2 ≠ [] := by
    intro hnil
    rw [hnil, List.length_nil] at htwo
    omega
  have hlong : (header eng pair.1).length + 1 < (toQaChunk eng pair.1 pair.2).length := by
    rw [toQaChunk_eq, List.length_append]
    omega
  have hhard := not_parts_of_hardSplit (Nat.succ_pos _) (rmPrefix_ends hanswer) hlong
  have hwhole := @strip_toQaChunk eng pair.1 pair.2 fun h => hanswer h.2
  rw [hchunk] at hwhole hlong
  have hcut := splitLongQaChunk_at_marker eng hmarker hwhole hlong
  rw [← hchunk] at hcut
  rw [splitLongQaChunks_singleton (by omega), hcut] at hchunks
  split at hchunks
  · exact absurd ⟨parts, hchunks, hparts⟩ hhard
  · rename_i hroom
    obtain ⟨hblank, hmore⟩ := not_or.mp hroom
    obtain ⟨-, hlarge⟩ := not_or.mp hmore
    generalize hbudget : (header eng pair.1).length + 1 - (questionLabel eng).length
      - (stripChars u).length - (answerLabel eng).length - 1 = budget at hchunks
    have hsubs := splitAnswerByParagraphs_nonspace (by omega : 0 < budget) (stripChars v)
    rw [nonspace_strip] at hsubs
    obtain ⟨sub, subs, hfirst⟩ :=
      List.exists_cons_of_ne_nil (ne_nil_of_flatMap_nonspace hsubs hv.not_blank)
    rw [hfirst] at hchunks
    cases parts with
    | nil => cases hchunks
    | cons part parts =>
      rw [List.map_cons, List.map_cons] at hchunks
      obtain ⟨hhead, -⟩ := List.cons.inj hchunks
      obtain ⟨d, l, hlabel, hd, -, -⟩ := answerLabel_head eng
      rw [hheader, List.append_assoc, List.append_assoc, List.append_assoc,
        List.append_cancel_left_eq, hlabel, List.cons_append] at hhead
      have hsame := strip_eq_of_tab hblank hd hhead
      exact ⟨hsame, hsame ▸ hblank⟩

theorem length_strip_le (t : Text) : (stripChars t).length ≤ t.length := by
  obtain ⟨left, right, -, -, ht⟩ := PyText.exists_append_stripChars t
  conv_rhs => rw [ht]
  simp only [List.length_append]
  omega

theorem not_keeps_of_no_answer (hnil : rmPrefix pair.2 = []) :
    ¬ Keeps true ((header true pair.1).length + 1 : Nat) pair := by
  rintro ⟨parts, hchunks, -⟩
  have hchunk : toQaChunk true pair.1 pair.2 = header true pair.1 := by
    rw [toQaChunk_eq, hnil, List.append_nil]
  have hfull : stripChars (header true pair.1) ≠ [] := by
    intro hblank
    exact nonspace_header_ne_nil true pair.1 (nonspace_eq_nil_iff.mpr hblank)
  have hle := length_strip_le (header true pair.1)
  have hone : splitLongQaChunk ((header true pair.1).length + 1) (header true pair.1)
      = [stripChars (header true pair.1)] := by
    unfold splitLongQaChunk
    rw [if_neg hfull, if_pos (by omega)]
  rw [splitLongQaChunks_singleton (by omega), hchunk, hone] at hchunks
  obtain ⟨part, rest, -, hpart, -⟩ := List.map_eq_cons_iff.mp hchunks.symm
  have hlength := congrArg List.length hpart
  rw [List.length_append] at hlength
  have hempty : part = [] := List.length_eq_zero_iff.mp (by omega)
  rw [hempty, List.append_nil] at hpart
  obtain ⟨init, c, hends, hc⟩ := endsFull_strip hfull
  have hblank : header true pair.1
      = (questionLabel true ++ (rmPrefix pair.1 ++ "\tAnswer:".toList)) ++ [' '] := by
    simp [header, marker, answerLabel]
  rw [← hpart, hblank] at hends
  obtain ⟨-, hlast⟩ := List.append_inj' hends rfl
  rw [← List.singleton_inj.mp hlast] at hc
  exact absurd hc (by decide)

/-! ## The pairs that are kept below every limit -/

/-- A pair that is kept below every limit that leaves room is taken apart at the right place. -/
theorem splits_of_keeps (hkeeps : ∀ maxChars : Int, 0 < maxChars → LeavesRoom eng maxChars pair →
      Keeps eng maxChars pair) : Splits eng pair := by
  have hkept : Keeps eng ((header eng pair.1).length + 1 : Nat) pair :=
    hkeeps _ (by omega) (by simp [LeavesRoom])
  constructor
  case right =>
    rintro ⟨rfl, hnil⟩
    exact not_keeps_of_no_answer hnil hkept
  case left =>
    by_contra hnot
    obtain ⟨hshort, hsep⟩ := not_or.mp hnot
    have htwo : 2 ≤ (rmPrefix pair.2).length := by omega
    have hends : EndsFull (rmPrefix pair.2) := by
      refine rmPrefix_ends ?_
      intro hnil
      rw [hnil, List.length_nil] at htwo
      omega
    by_cases hinside : marker eng <:+: rmPrefix pair.1
    · -- The text is taken apart inside the question.
      obtain ⟨u, q, hq, hfirst⟩ := PyText.exists_first_infix (List.cons_ne_nil _ _) hinside
      have hchunk : toQaChunk eng pair.1 pair.2
          = questionLabel eng ++ (u ++ (marker eng ++ (q ++ (marker eng ++ rmPrefix pair.2)))) := by
        rw [toQaChunk_eq_marker, hq]
        simp [marker]
      have hheader : header eng pair.1
          = questionLabel eng ++ (u ++ '\t' :: (answerLabel eng ++ (q ++ marker eng))) := by
        rw [header, hq]
        simp [marker]
      obtain ⟨hstrip, hu⟩ := strip_of_keeps hchunk hheader hfirst
        ((hends.prepend (marker eng)).prepend q) htwo hkept
      exact not_keeps_of_marker hq hfirst hstrip hu htwo hkept
    · obtain ⟨hstrip, hq⟩ := strip_of_keeps (toQaChunk_eq_marker eng pair.1 pair.2)
        (by rfl : header eng pair.1
          = questionLabel eng ++ (rmPrefix pair.1 ++ '\t' :: answerLabel eng)) hinside hends htwo hkept
      exact hsep ⟨hq, hstrip, hinside⟩

/-- The texts of pairs. -/
def rendered (eng : Bool) (pairs : List (Text × Text)) : List Text :=
  pairs.map fun pair => toQaChunk eng pair.1 pair.2

/-- Below every limit no chunk is too long, and every pair that leaves room for its answer keeps
its question and the whole answer. -/
def LongChunksKeep (eng : Bool) (pairs : List (Text × Text)) : Prop :=
  ∀ maxChars : Int, 0 < maxChars →
    (∀ chunk ∈ splitLongQaChunks (rendered eng pairs) maxChars, (chunk.length : Int) ≤ maxChars) ∧
    (splitLongQaChunks (rendered eng pairs) maxChars = pairs.flatMap fun pair =>
      splitLongQaChunks [toQaChunk eng pair.1 pair.2] maxChars) ∧
    ∀ pair ∈ pairs, LeavesRoom eng maxChars pair → Keeps eng maxChars pair

theorem splitLongQaChunks_pairs (eng : Bool) (pairs : List (Text × Text)) {maxChars : Int}
    (hmax : 0 < maxChars) :
    (∀ chunk ∈ splitLongQaChunks (rendered eng pairs) maxChars, (chunk.length : Int) ≤ maxChars) ∧
    (splitLongQaChunks (rendered eng pairs) maxChars = pairs.flatMap fun pair =>
      splitLongQaChunks [toQaChunk eng pair.1 pair.2] maxChars) := by
  constructor
  · intro chunk hchunk
    rw [splitLongQaChunks, if_neg (by omega)] at hchunk
    obtain ⟨text, -, hpiece⟩ := List.mem_flatMap.mp hchunk
    have hle := splitLongQaChunk_length_le hpiece
    omega
  · simp only [splitLongQaChunks, if_neg (by omega : ¬ maxChars ≤ 0), rendered]
    rw [List.flatMap_map]
    simp

/-- A question that holds the marker of the answer. -/
def markedPair : Text × Text :=
  ("价格\t回答：多少".toList, "一二三".toList)

end Yuanlei.Chunking.Qa
