import Yuanlei.Chunking.QaCsv

/-!
# Fields that come back from CSV

A field is read without its line breaks and without its blank lines.  It comes back when it has no
line break inside, and its answer does when the lines at the places of the rows behind it are these
rows' own texts.

Main results:

- `stripChars_fieldBack_iff`: which fields come back.
- `pairsOf_back_iff`: which rows come back.
-/

namespace Yuanlei.Chunking.Qa

open PosixPath (Text)
open PyText (isSpace stripChars splitLines isLineBreak)

/-! ## White space at the ends -/

theorem stripChars_spaces {l r : Text} (t : Text) (hl : ∀ c ∈ l, isSpace c = true)
    (hr : ∀ c ∈ r, isSpace c = true) : stripChars (l ++ (t ++ r)) = stripChars t := by
  have hright : ∀ y : Text, (y ++ r).rdropWhile isSpace = y.rdropWhile isSpace := by
    intro y
    have hrev : ∀ c ∈ r.reverse, isSpace c = true := by simpa using hr
    rw [List.rdropWhile, List.reverse_append, List.dropWhile_append_of_pos hrev, List.rdropWhile]
  rw [stripChars, List.dropWhile_append_of_pos hl, List.dropWhile_append, stripChars]
  split
  · next hblank =>
      have hr' : r.dropWhile isSpace = [] := List.dropWhile_eq_nil_iff.mpr hr
      rw [hr', List.isEmpty_iff.mp hblank]
  · exact hright _

variable {t : Text}

theorem rdropWhile_append (x : Text) (ht : nonspace t ≠ []) :
    (x ++ t).rdropWhile isSpace = x ++ t.rdropWhile isSpace := by
  have ht' : ¬(t.reverse.dropWhile isSpace).isEmpty = true := by
    simpa [nonspace, List.filter_eq_nil_iff] using ht
  rw [List.rdropWhile, List.reverse_append, List.dropWhile_append, if_neg ht', List.reverse_append,
    List.reverse_reverse, List.rdropWhile]

/-- Two texts that are not blank: one loses the white space in front, the other the one behind. -/
theorem stripChars_append {x : Text} (hx : nonspace x ≠ []) (ht : nonspace t ≠ []) :
    stripChars (x ++ t) = x.dropWhile isSpace ++ t.rdropWhile isSpace := by
  have hx' : ¬(x.dropWhile isSpace).isEmpty = true := by
    simpa [nonspace, List.filter_eq_nil_iff] using hx
  rw [stripChars, List.dropWhile_append, if_neg hx']
  exact rdropWhile_append _ ht

/-! ## Fields that come back -/

/-- A text of one line. -/
def Unbroken (t : Text) : Prop :=
  ∀ c ∈ t, isLineBreak c = false

instance (t : Text) : Decidable (Unbroken t) :=
  inferInstanceAs (Decidable (∀ c ∈ t, isLineBreak c = false))

theorem nonspace_keptLine (line : Text) :
    nonspace (keptLine line).flatten = nonspace line.reverse := by
  rw [keptLine]
  split
  · next h => rw [nonspace_eq_nil_iff.mpr h]; rfl
  · simp

theorem readBack_nonspace (kept : Bool) (line t : Text) :
    nonspace (readBack kept line t) = nonspace line.reverse ++ nonspace t := by
  induction t generalizing kept line with
  | nil => simp [readBack]
  | cons c t ih =>
    rw [readBack]
    by_cases hbreak : isLineBreak c = true
    · have hspace : nonspace (c :: t) = nonspace t :=
        nonspace_cons_space (isSpace_of_isLineBreak hbreak) t
      have hline : nonspace (if kept then line.reverse else (keptLine line).flatten) =
          nonspace line.reverse := by
        cases kept with
        | true => rfl
        | false => exact nonspace_keptLine line
      rw [if_pos hbreak, nonspace_append, hline, ih, hspace]
      rfl
    · have hcons : nonspace (c :: t) = nonspace [c] ++ nonspace t := nonspace_append [c] t
      rw [if_neg hbreak, ih, List.reverse_cons, nonspace_append, List.append_assoc, hcons]

theorem fieldBack_nonspace (field : Text) : nonspace (fieldBack field) = nonspace field :=
  readBack_nonspace true [] field

variable {line : Text}

theorem keptLine_unbroken (h : Unbroken line) : Unbroken (keptLine line).flatten := by
  rw [keptLine]
  split
  · simp [Unbroken]
  · simpa [Unbroken] using h

theorem readBack_unbroken {kept : Bool} (h : Unbroken line) (t : Text) :
    Unbroken (readBack kept line t) := by
  induction t generalizing kept line with
  | nil => simpa [readBack, Unbroken] using h
  | cons c t ih =>
    rw [readBack]
    by_cases hbreak : isLineBreak c = true
    · have hline : Unbroken (if kept then line.reverse else (keptLine line).flatten) := by
        cases kept with
        | true => simpa [Unbroken] using h
        | false => exact keptLine_unbroken h
      rw [if_pos hbreak]
      intro d hd
      rcases List.mem_append.mp hd with hd | hd
      · exact hline d hd
      · exact ih (by simp [Unbroken]) d hd
    · rw [if_neg hbreak]
      refine ih ?_
      intro d hd
      rcases List.mem_cons.mp hd with rfl | hd
      · simpa using hbreak
      · exact h d hd

theorem fieldBack_unbroken (field : Text) : Unbroken (fieldBack field) :=
  readBack_unbroken (by simp [Unbroken]) field

theorem readBack_front {left : Text} (hleft : ∀ c ∈ left, isSpace c = true) (t : Text) (kept : Bool)
    {line : Text} (hline : ∀ c ∈ line, isSpace c = true) :
    ∃ (front line' : Text) (kept' : Bool), (∀ c ∈ front, isSpace c = true) ∧
      (∀ c ∈ line', isSpace c = true) ∧
        readBack kept line (left ++ t) = front ++ readBack kept' line' t := by
  induction left generalizing kept line with
  | nil => exact ⟨[], line, kept, by simp, hline, rfl⟩
  | cons c left ih =>
    have hc := hleft c (List.mem_cons_self ..)
    have hleft' := fun d hd => hleft d (List.mem_cons_of_mem c hd)
    rw [List.cons_append, readBack]
    by_cases hbreak : isLineBreak c = true
    · obtain ⟨front, line', kept', hfront, hline', heq⟩ := @ih hleft' false [] (by simp)
      refine ⟨(if kept then line.reverse else (keptLine line).flatten) ++ front, line', kept', ?_,
        hline', by rw [if_pos hbreak, heq, List.append_assoc]⟩
      intro d hd
      rcases List.mem_append.mp hd with hd | hd
      · cases kept with
        | true => exact hline d (by simpa using hd)
        | false =>
          have hblank : stripChars line.reverse = [] := by
            rw [← nonspace_eq_nil_iff]
            simpa [nonspace, List.filter_eq_nil_iff] using hline
          simp [keptLine, hblank] at hd
      · exact hfront d hd
    · rw [if_neg hbreak]
      refine ih hleft' kept ?_
      intro d hd
      rcases List.mem_cons.mp hd with rfl | hd
      · exact hc
      · exact hline d hd

theorem readBack_core {core : Text} (hcore : Unbroken core) (kept : Bool) (line t : Text) :
    readBack kept line (core ++ t) = readBack kept (core.reverse ++ line) t := by
  induction core generalizing line with
  | nil => rfl
  | cons c core ih =>
    have hc := hcore c (List.mem_cons_self ..)
    rw [List.cons_append, readBack, if_neg (by simp [hc]),
      ih fun d hd => hcore d (List.mem_cons_of_mem c hd)]
    simp

theorem readBack_behind {right : Text} (hright : ∀ c ∈ right, isSpace c = true) (kept : Bool)
    (hline : nonspace line.reverse ≠ []) :
    ∃ behind : Text, (∀ c ∈ behind, isSpace c = true) ∧
      readBack kept line right = line.reverse ++ behind := by
  induction right generalizing line with
  | nil => exact ⟨[], by simp, by simp [readBack]⟩
  | cons c right ih =>
    have hc := hright c (List.mem_cons_self ..)
    have hright' := fun d hd => hright d (List.mem_cons_of_mem c hd)
    rw [readBack]
    by_cases hbreak : isLineBreak c = true
    · refine ⟨readBack false [] right, ?_, ?_⟩
      · have hblank : nonspace (readBack false [] right) = [] := by
          rw [readBack_nonspace]
          simpa [nonspace, List.filter_eq_nil_iff] using hright'
        simpa [nonspace, List.filter_eq_nil_iff] using hblank
      · have hkeep := keptLine_of_nonspace hline
        rw [List.reverse_reverse] at hkeep
        rw [if_pos hbreak]
        cases kept <;> simp [hkeep]
    · have hnext : nonspace (c :: line).reverse ≠ [] := by
        rw [List.reverse_cons, nonspace_append]
        exact List.append_ne_nil_of_left_ne_nil hline _
      obtain ⟨behind, hbehind, heq⟩ := ih hright' hnext
      refine ⟨c :: behind, ?_, ?_⟩
      · intro d hd
        rcases List.mem_cons.mp hd with rfl | hd
        · exact hc
        · exact hbehind d hd
      · rw [if_neg hbreak, heq]
        simp

variable {field : Text}

theorem stripChars_fieldBack (hfield : nonspace field ≠ [])
    (h : Unbroken (stripChars field)) : stripChars (fieldBack field) = stripChars field := by
  obtain ⟨left, right, hleft, hright, heq⟩ := PyText.exists_append_stripChars field
  obtain ⟨front, line, kept, hfront, hline, hback⟩ :=
    @readBack_front left hleft (stripChars field ++ right) true [] (by simp)
  have hfull : nonspace ((stripChars field).reverse ++ line).reverse ≠ [] := by
    rw [List.reverse_append, List.reverse_reverse, nonspace_append, nonspace_strip]
    exact List.append_ne_nil_of_right_ne_nil _ hfield
  obtain ⟨behind, hbehind, hend⟩ := readBack_behind hright kept hfull
  have hwhole : fieldBack field = (front ++ line.reverse) ++ (stripChars field ++ behind) := by
    have hfieldBack : fieldBack field = readBack true [] (left ++ (stripChars field ++ right)) := by
      rw [← heq]
      rfl
    rw [hfieldBack, hback, readBack_core h, hend]
    simp
  have hspaces : ∀ c ∈ front ++ line.reverse, isSpace c = true := by
    intro c hc
    rcases List.mem_append.mp hc with hc | hc
    · exact hfront c hc
    · exact hline c (List.mem_reverse.mp hc)
  rw [hwhole, stripChars_spaces _ hspaces hbehind, PyText.stripChars_stripChars]

/-- The same in front only. -/
theorem dropWhile_fieldBack (h : Unbroken (field.dropWhile isSpace)) :
    (fieldBack field).dropWhile isSpace = field.dropWhile isSpace := by
  have hleft : ∀ c ∈ field.takeWhile isSpace, isSpace c = true := fun c hc =>
    List.mem_takeWhile_imp hc
  obtain ⟨front, line, kept, hfront, hline, hback⟩ :=
    @readBack_front _ hleft (field.dropWhile isSpace) true [] (by simp)
  have hend : readBack kept line (field.dropWhile isSpace) =
      line.reverse ++ field.dropWhile isSpace := by
    have hcore := readBack_core h kept line []
    rw [List.append_nil] at hcore
    rw [hcore]
    simp [readBack]
  have hwhole : fieldBack field = front ++ (line.reverse ++ field.dropWhile isSpace) := by
    rw [← hend, ← hback, List.takeWhile_append_dropWhile]
    rfl
  have hline' : ∀ c ∈ line.reverse, isSpace c = true := fun c hc => hline c (List.mem_reverse.mp hc)
  rw [hwhole, List.dropWhile_append_of_pos hfront, List.dropWhile_append_of_pos hline',
    List.dropWhile_idempotent]

/-! ## Answers and the texts behind them -/

/-- The number of line breaks. -/
def breaks (t : Text) : Nat :=
  t.countP isLineBreak

theorem breaks_eq_zero : breaks t = 0 ↔ Unbroken t := by
  simp [breaks, Unbroken, List.countP_eq_zero]

theorem breaks_append (s t : Text) : breaks (s ++ t) = breaks s + breaks t :=
  List.countP_append

/-- The rows in front of the next pair. -/
def othersBefore (items : List (List Text × Text)) : Nat :=
  (items.takeWhile fun item => item.1.length ≠ 2).length

variable {items : List (List Text × Text)}

theorem textBehind_eq_nil : textBehind items = [] ↔ othersBefore items = 0 := by
  cases items with
  | nil => simp [textBehind, othersBefore]
  | cons item items =>
    by_cases h : item.1.length = 2 <;> simp [textBehind, othersBefore, h]

theorem le_breaks_textBehind (items : List (List Text × Text)) :
    othersBefore items ≤ breaks (textBehind items) := by
  induction items with
  | nil => simp [othersBefore]
  | cons item items ih =>
    by_cases h : item.1.length = 2
    · simp [othersBefore, h]
    · have hcount : othersBefore (item :: items) = othersBefore items + 1 := by
        simp [othersBefore, h]
      have htext : textBehind (item :: items) = ['\n'] ++ (item.2 ++ textBehind items) := by
        simp [textBehind, h]
      rw [hcount, htext, breaks_append, breaks_append]
      have hone : breaks ['\n'] = 1 := rfl
      omega

theorem nonspace_textBehind (h : ∀ item ∈ items, nonspace item.2 ≠ [])
    (hitems : textBehind items ≠ []) :
    nonspace (textBehind items) ≠ [] := by
  cases items with
  | nil => exact absurd rfl hitems
  | cons item items =>
    have hitem := h item (List.mem_cons_self ..)
    by_cases htwo : item.1.length = 2
    · exact absurd (by simp [textBehind, htwo]) hitems
    · have htext : textBehind (item :: items) = ['\n'] ++ (item.2 ++ textBehind items) := by
        simp [textBehind, htwo]
      rw [htext, nonspace_append, nonspace_append]
      exact List.append_ne_nil_of_right_ne_nil _ (List.append_ne_nil_of_left_ne_nil hitem _)

theorem breaks_textBehind (h : ∀ item ∈ items, Unbroken item.2 ∧ nonspace item.2 ≠ []) :
    breaks ((textBehind items).rdropWhile isSpace) = othersBefore items := by
  induction items with
  | nil => rfl
  | cons item items ih =>
    have hitem := h item (List.mem_cons_self ..)
    have hrest := fun i hi => h i (List.mem_cons_of_mem item hi)
    by_cases htwo : item.1.length = 2
    · simp [othersBefore, textBehind, htwo, breaks]
    have hcount : othersBefore (item :: items) = othersBefore items + 1 := by
      simp [othersBefore, htwo]
    have htext : textBehind (item :: items) = ['\n'] ++ (item.2 ++ textBehind items) := by
      simp [textBehind, htwo]
    have hone : breaks ['\n'] = 1 := rfl
    have hfull : nonspace (item.2 ++ textBehind items) ≠ [] := by
      rw [nonspace_append]
      exact List.append_ne_nil_of_left_ne_nil hitem.2 _
    rw [hcount, htext, rdropWhile_append _ hfull, breaks_append, hone]
    by_cases hbehind : textBehind items = []
    · have hline : Unbroken (item.2.rdropWhile isSpace) := fun c hc =>
        hitem.1 c ((List.rdropWhile_prefix isSpace item.2).subset hc)
      have hzero := textBehind_eq_nil.mp hbehind
      rw [hbehind, List.append_nil, breaks_eq_zero.mpr hline]
      omega
    · rw [rdropWhile_append _ (nonspace_textBehind (fun i hi => (hrest i hi).2) hbehind),
        breaks_append, breaks_eq_zero.mpr hitem.1, ih hrest]
      omega

theorem rdropWhile_ownTexts {rows : List (List Text)} (hrows : ∀ row ∈ rows, row ≠ []) :
    (textBehind (ownTexts rows)).rdropWhile isSpace = textBehind (ownTexts rows) := by
  have hend : textBehind (ownTexts rows) = [] ∨ ∃ t, textBehind (ownTexts rows) = t ++ ['"'] := by
    induction rows with
    | nil => exact .inl rfl
    | cons row rows ih =>
      by_cases htwo : row.length = 2
      · exact .inl (by simp [ownTexts, textBehind, htwo])
      have htext : textBehind (ownTexts (row :: rows)) =
          '\n' :: (Csv.rowText ',' row ++ textBehind (ownTexts rows)) := by
        simp [ownTexts, textBehind, htwo]
      obtain ⟨t, ht⟩ := Csv.exists_rowText_eq ',' (hrows row (List.mem_cons_self ..))
      rw [htext]
      rcases ih fun r hr => hrows r (List.mem_cons_of_mem row hr) with hnil | ⟨u, hu⟩
      · exact .inr ⟨'\n' :: t, by rw [hnil, ht]; simp⟩
      · exact .inr ⟨'\n' :: (Csv.rowText ',' row ++ u), by rw [hu]; simp⟩
  rcases hend with hnil | ⟨t, ht⟩
  · rw [hnil]
    rfl
  · rw [ht, List.rdropWhile_concat_neg _ _ _ (by decide)]

/-- An answer comes back with the texts behind it: it has no line break inside, nor behind where
there are such texts, and these texts are found again. -/
def AnswerKept (answer found own : Text) : Prop :=
  if own = [] then Unbroken (stripChars answer)
  else Unbroken (answer.dropWhile isSpace) ∧ found.rdropWhile isSpace = own.rdropWhile isSpace

instance (answer found own : Text) : Decidable (AnswerKept answer found own) :=
  inferInstanceAs (Decidable (if own = [] then Unbroken (stripChars answer)
    else Unbroken (answer.dropWhile isSpace) ∧ found.rdropWhile isSpace = own.rdropWhile isSpace))

theorem stripChars_fieldBack_iff (hfield : nonspace field ≠ []) :
    stripChars (fieldBack field) = stripChars field ↔ Unbroken (stripChars field) := by
  refine ⟨fun heq => ?_, stripChars_fieldBack hfield⟩
  rw [← heq]
  intro c hc
  obtain ⟨left, right, -, -, hsplit⟩ := PyText.exists_append_stripChars (fieldBack field)
  refine fieldBack_unbroken field c ?_
  rw [hsplit]
  exact List.mem_append_right _ (List.mem_append_left _ hc)

theorem othersBefore_ownTexts (items : List (List Text × Text)) :
    othersBefore (ownTexts (items.map Prod.fst)) = othersBefore items := by
  induction items with
  | nil => rfl
  | cons item items ih =>
    by_cases htwo : item.1.length = 2
    · simp [othersBefore, ownTexts, htwo]
    · simpa [othersBefore, ownTexts, htwo] using ih

theorem answer_iff {answer : Text} (hanswer : nonspace answer ≠ [])
    (hrows : ∀ item ∈ items, item.1 ≠ [])
    (hlines : ∀ item ∈ items, Unbroken item.2 ∧ nonspace item.2 ≠ []) :
    stripChars (fieldBack answer ++ textBehind items) =
        stripChars (answer ++ textBehind (ownTexts (items.map Prod.fst))) ↔
      AnswerKept answer (textBehind items) (textBehind (ownTexts (items.map Prod.fst))) := by
  have hothers := othersBefore_ownTexts items
  have hrows' : ∀ row ∈ items.map Prod.fst, row ≠ [] := by simpa using hrows
  by_cases hown : textBehind (ownTexts (items.map Prod.fst)) = []
  · have hfound : textBehind items = [] := by
      rw [textBehind_eq_nil, ← hothers, ← textBehind_eq_nil]
      exact hown
    rw [AnswerKept, if_pos hown, hown, hfound, List.append_nil, List.append_nil]
    exact stripChars_fieldBack_iff hanswer
  have hfound : textBehind items ≠ [] := fun h =>
    hown (by rw [textBehind_eq_nil, hothers, ← textBehind_eq_nil]; exact h)
  have hfull := nonspace_textBehind (fun i hi => (hlines i hi).2) hfound
  have hfullOwn : nonspace (textBehind (ownTexts (items.map Prod.fst))) ≠ [] := by
    refine nonspace_textBehind ?_ hown
    intro i hi
    obtain ⟨row, hrow, rfl⟩ := List.mem_map.mp hi
    obtain ⟨t, ht⟩ := Csv.exists_rowText_eq ',' (hrows' row hrow)
    rw [ht, nonspace_append]
    exact List.append_ne_nil_of_right_ne_nil _ (by decide)
  have hback : nonspace (fieldBack answer) ≠ [] := by rwa [fieldBack_nonspace]
  rw [AnswerKept, if_neg hown, stripChars_append hback hfull, stripChars_append hanswer hfullOwn]
  constructor
  · intro heq
    -- both sides have as many line breaks, and the rows bring all of those on the left
    have hcount := congrArg breaks heq
    have hzero : breaks ((fieldBack answer).dropWhile isSpace) = 0 := breaks_eq_zero.mpr fun c hc =>
      fieldBack_unbroken answer c ((List.dropWhile_suffix isSpace).subset hc)
    have hle := le_breaks_textBehind (ownTexts (items.map Prod.fst))
    rw [breaks_append, breaks_append, hzero, breaks_textBehind hlines,
      rdropWhile_ownTexts hrows'] at hcount
    have hanswerZero : breaks (answer.dropWhile isSpace) = 0 := by omega
    have hunbroken := breaks_eq_zero.mp hanswerZero
    rw [dropWhile_fieldBack hunbroken] at heq
    exact ⟨hunbroken, List.append_cancel_left heq⟩
  · rintro ⟨hunbroken, htexts⟩
    rw [dropWhile_fieldBack hunbroken, htexts]

/-! ## The rows that come back -/

/-- Every pair of the rows comes back, with the texts behind it. -/
def Kept : List (List Text × Text) → Prop
  | [] => True
  | ([question, answer], _) :: rest =>
    (Unbroken (stripChars question) ∧
      AnswerKept answer (textBehind rest) (textBehind (ownTexts (rest.map Prod.fst)))) ∧ Kept rest
  | _ :: rest => Kept rest

/-- The rows as the reader finds them. -/
def back (items : List (List Text × Text)) : List (List Text × Text) :=
  items.map fun item => (item.1.map fieldBack, item.2)

theorem textBehind_back (items : List (List Text × Text)) :
    textBehind (back items) = textBehind items := by
  induction items with
  | nil => rfl
  | cons item items ih =>
    have hback : back (item :: items) = (item.1.map fieldBack, item.2) :: back items := rfl
    rw [hback, textBehind, textBehind, List.length_map, ih]

theorem kept_other {row : List Text} {text : Text} {rest : List (List Text × Text)}
    (h : row.length ≠ 2) : Kept ((row, text) :: rest) ↔ Kept rest := by
  rw [Kept.eq_def]
  split
  · simp_all
  · simp_all
  · simp_all

theorem pairsOf_back_iff {items : List (List Text × Text)}
    (hrows : ∀ item ∈ items, item.1 ≠ []) (hfull : FullPairs (items.map Prod.fst))
    (hlines : ∀ item ∈ items, Unbroken item.2 ∧ nonspace item.2 ≠ []) :
    pairsOf (back items) = pairsOf (ownTexts (items.map Prod.fst)) ↔ Kept items := by
  induction items with
  | nil => simp [back, ownTexts, pairsOf, Kept]
  | cons item items ih =>
    obtain ⟨row, line⟩ := item
    have hrows' := fun i hi => hrows i (List.mem_cons_of_mem _ hi)
    have hlines' := fun i hi => hlines i (List.mem_cons_of_mem _ hi)
    have hfull' : FullPairs (items.map Prod.fst) := fun r hr => hfull r (List.mem_cons_of_mem row hr)
    have hrest := ih hrows' hfull' hlines'
    have hback : back ((row, line) :: items) = (row.map fieldBack, line) :: back items := rfl
    have hown : ownTexts (((row, line) :: items).map Prod.fst) =
        (row, Csv.rowText ',' row) :: ownTexts (items.map Prod.fst) := rfl
    rw [hback, hown]
    by_cases htwo : row.length = 2
    · have hfields := hfull row (List.mem_cons_self ..) htwo
      obtain ⟨q, a, rfl⟩ := List.length_eq_two.mp htwo
      have hq : nonspace q ≠ [] := fun h => hfields q (by simp) (nonspace_eq_nil_iff.mp h)
      have ha : nonspace a ≠ [] := fun h => hfields a (by simp) (nonspace_eq_nil_iff.mp h)
      have hanswer := answer_iff ha hrows' hlines'
      simp only [List.map_cons, List.map_nil, pairsOf, Kept, List.cons.injEq, Prod.mk.injEq]
      rw [textBehind_back, hrest, hanswer, stripChars_fieldBack_iff hq]
    · rw [pairsOf_other (by simpa using htwo), pairsOf_other htwo, hrest, kept_other htwo]

end Yuanlei.Chunking.Qa
