import Yuanlei.Chunking.CsvFields

/-!
# Rows that come back from CSV

The pairs of a written CSV text.  A tab anywhere makes the parser take tabs for the delimiter, and
then the first question runs into the field behind it.

Main results:

- `csvPairs_write_iff`: which rows without tabs come back.
- `csvPairs_comes_back`: when the pairs of a written text are the rows.
- `multiline_answer_differs`: a text whose pairs are not.
-/

namespace Yuanlei.Chunking.Qa

open PosixPath (Text)
open PyText (isSpace stripChars splitLines isLineBreak)

/-! ## Written texts -/

variable {line l : Text}

theorem keptLine_spec (h : l ∈ keptLine line) :
    l = line.reverse ∧ nonspace l ≠ [] := by
  rw [keptLine] at h
  split at h
  · cases h
  · next hblank =>
      rw [List.mem_singleton] at h
      subst h
      exact ⟨rfl, fun hspace => hblank (nonspace_eq_nil_iff.mp hspace)⟩

theorem contentFrom_spec {t : Text} (hline : Unbroken line) (h : l ∈ contentFrom line t) :
    Unbroken l ∧ nonspace l ≠ [] ∧ ∀ c ∈ l, c ∈ line ∨ c ∈ t := by
  have hkept : ∀ {line' l' : Text}, Unbroken line' → l' ∈ keptLine line' →
      Unbroken l' ∧ nonspace l' ≠ [] ∧ ∀ c ∈ l', c ∈ line' := by
    intro line' l' hline' hl'
    obtain ⟨rfl, hfull⟩ := keptLine_spec hl'
    exact ⟨fun c hc => hline' c (List.mem_reverse.mp hc), hfull, fun c hc => List.mem_reverse.mp hc⟩
  induction t generalizing line with
  | nil =>
    obtain ⟨hone, hfull, hmem⟩ := hkept hline h
    exact ⟨hone, hfull, fun c hc => .inl (hmem c hc)⟩
  | cons c t ih =>
    rw [contentFrom] at h
    by_cases hbreak : isLineBreak c = true
    · rw [if_pos hbreak] at h
      rcases List.mem_append.mp h with h | h
      · obtain ⟨hone, hfull, hmem⟩ := hkept hline h
        exact ⟨hone, hfull, fun d hd => .inl (hmem d hd)⟩
      · obtain ⟨hone, hfull, hmem⟩ := @ih [] (by simp [Unbroken]) h
        refine ⟨hone, hfull, fun d hd => .inr ?_⟩
        exact List.mem_cons_of_mem c ((hmem d hd).resolve_left (by simp))
    · rw [if_neg hbreak] at h
      have hnext : Unbroken (c :: line) := by
        intro d hd
        rcases List.mem_cons.mp hd with rfl | hd
        · simpa using hbreak
        · exact hline d hd
      obtain ⟨hone, hfull, hmem⟩ := ih hnext h
      refine ⟨hone, hfull, fun d hd => ?_⟩
      rcases hmem d hd with hd | hd
      · rcases List.mem_cons.mp hd with rfl | hd
        · exact .inr (List.mem_cons_self ..)
        · exact .inl hd
      · exact .inr (List.mem_cons_of_mem c hd)

/-- No field has a tab in it. -/
def TabFree (rows : List (List Text)) : Prop :=
  ∀ row ∈ rows, ∀ field ∈ row, '\t' ∉ field

instance (rows : List (List Text)) : Decidable (TabFree rows) :=
  inferInstanceAs (Decidable (∀ row ∈ rows, ∀ field ∈ row, '\t' ∉ field))

theorem mem_rowText {c : Char} {row : List Text} (h : c ∈ Csv.rowText ',' row) :
    c = '"' ∨ c = ',' ∨ ∃ field ∈ row, c ∈ field := by
  cases row with
  | nil => exact absurd h (by simp [Csv.rowText])
  | cons field fields =>
    have hquoted : ∀ f, c ∈ Csv.quoted f → c = '"' ∨ c ∈ f := by
      intro f hf
      simp only [Csv.quoted, List.mem_cons, List.mem_append, Csv.mem_double, List.not_mem_nil,
        or_false] at hf
      tauto
    rw [Csv.rowText_cons, List.mem_append, List.mem_flatMap] at h
    rcases h with h | ⟨f, hf, h⟩
    · exact (hquoted field h).imp_right fun hc => .inr ⟨field, List.mem_cons_self .., hc⟩
    · rcases List.mem_cons.mp h with rfl | h
      · exact .inr (.inl rfl)
      · exact (hquoted f h).imp_right fun hc => .inr ⟨f, List.mem_cons_of_mem field hf, hc⟩

theorem tab_mem_rowText {row : List Text} :
    '\t' ∈ Csv.rowText ',' row ↔ ∃ field ∈ row, '\t' ∈ field := by
  cases row with
  | nil => simp [Csv.rowText]
  | cons field fields => simp [Csv.rowText_cons, Csv.quoted, Csv.mem_double]

variable {rows : List (List Text)}

theorem tab_mem_write : '\t' ∈ Csv.write ',' rows ↔ ∃ row ∈ rows, ∃ field ∈ row, '\t' ∈ field := by
  simp [Csv.write, tab_mem_rowText]

/-- Every field is short enough for the reader. -/
def Readable (rows : List (List Text)) : Prop :=
  ∀ row ∈ rows, ∀ field ∈ row, (fieldBack field).length ≤ Csv.fieldSizeLimit

instance (rows : List (List Text)) : Decidable (Readable rows) :=
  inferInstanceAs (Decidable (∀ row ∈ rows, ∀ field ∈ row,
    (fieldBack field).length ≤ Csv.fieldSizeLimit))

/-- Rows with their places among the lines of their text. -/
def placed (rows : List (List Text)) : List (List Text × Text) :=
  rows.zip (contentLines (Csv.write ',' rows))

theorem length_le_contentLines (h : ∀ row ∈ rows, row ≠ []) :
    rows.length ≤ (contentLines (Csv.write ',' rows)).length := by
  have hle := Csv.readRows_length_le ',' (contentLines (Csv.write ',' rows)) .reset
  rwa [readRows_write h, List.length_map, if_pos rfl, Nat.add_zero] at hle

theorem map_fst_placed (h : ∀ row ∈ rows, row ≠ []) : (placed rows).map Prod.fst = rows :=
  List.map_fst_zip (length_le_contentLines h)

theorem csvPairs_write (hrows : ∀ row ∈ rows, row ≠ [])
    (htab : TabFree rows) (hfull : FullPairs rows) :
    csvPairs (Csv.write ',' rows) =
      if Readable rows then some (pairsOf (back (placed rows))) else none := by
  have hcomma : (contentLines (Csv.write ',' rows)).any (·.contains '\t') = false := by
    rw [List.any_eq_false]
    intro line hline htabLine
    rw [contentLines_eq] at hline
    have hmem := (contentFrom_spec (by simp [Unbroken]) hline).2.2 '\t' (by simpa using htabLine)
    obtain ⟨row, hrow, field, hfield, htabField⟩ := tab_mem_write.mp (hmem.resolve_left (by simp))
    exact htab row hrow field hfield htabField
  have hback : (rows.map (List.map fieldBack)).zip (contentLines (Csv.write ',' rows)) =
      back (placed rows) := by
    rw [List.zip_map_left]
    rfl
  have hfst : (back (placed rows)).map Prod.fst = rows.map (List.map fieldBack) := by
    rw [back, List.map_map]
    conv_rhs => rw [← map_fst_placed hrows, List.map_map]
    rfl
  have hfullBack : FullPairs ((back (placed rows)).map Prod.fst) := by
    rw [hfst]
    intro row hrow htwo field hfield
    obtain ⟨row', hrow', rfl⟩ := List.mem_map.mp hrow
    obtain ⟨field', hfield', rfl⟩ := List.mem_map.mp hfield
    intro hblank
    refine hfull row' hrow' (by simpa using htwo) field' hfield' ?_
    rw [← nonspace_eq_nil_iff, ← fieldBack_nonspace, nonspace_eq_nil_iff]
    exact hblank
  have hsize : (∀ row ∈ rows.map (List.map fieldBack), ∀ field ∈ row,
      field.length ≤ Csv.fieldSizeLimit) ↔ Readable rows := by
    simp [Readable]
  rw [csvPairs, extractPairsFromCsv, hcomma]
  simp only [Bool.false_eq_true, if_false, Csv.reader, readRows_write hrows, hsize]
  by_cases hread : Readable rows
  · rw [if_pos hread, if_pos hread, Option.map_some, hback, finish_rows hfullBack]
  · rw [if_neg hread, if_neg hread, Option.map_none]

theorem csvPairs_write_iff (hrows : ∀ row ∈ rows, row ≠ [])
    (htab : TabFree rows) (hfull : FullPairs rows) :
    csvPairs (Csv.write ',' rows) = some (pairsOf (ownTexts rows)) ↔
      Readable rows ∧ Kept (placed rows) := by
  have hitems : ∀ item ∈ placed rows, item.1 ≠ [] := fun item hitem =>
    hrows item.1 (List.of_mem_zip hitem).1
  have hlines : ∀ item ∈ placed rows, Unbroken item.2 ∧ nonspace item.2 ≠ [] := by
    intro item hitem
    have hline := (List.of_mem_zip hitem).2
    rw [contentLines_eq] at hline
    obtain ⟨hone, hfullLine, -⟩ := contentFrom_spec (by simp [Unbroken]) hline
    exact ⟨hone, hfullLine⟩
  have hiff := @pairsOf_back_iff (placed rows) hitems (by rwa [map_fst_placed hrows]) hlines
  rw [map_fst_placed hrows] at hiff
  rw [csvPairs_write hrows htab hfull, ← hiff]
  by_cases hread : Readable rows
  · simp [hread]
  · simp [hread]

/-! ## Tabs -/

/-- The first field of a record that is read starts with a text. -/
def Headed (g : Text) (p : Csv.Parse) : Prop :=
  p.state ≠ .startRecord ∧ ∃ h t, p.fields ++ [p.field] = h :: t ∧ g <+: h

variable {g : Text} {p : Csv.Parse}

section

variable (h : Headed g p)
include h

variable {state : Csv.State}

theorem Headed.add (c : Char) (hstate : state ≠ .startRecord) : Headed g (p.add c state) := by
  obtain ⟨-, first, rest, heq, hfirst⟩ := h
  refine ⟨hstate, ?_⟩
  cases hfields : p.fields with
  | nil =>
    rw [hfields, List.nil_append, List.cons.injEq] at heq
    refine ⟨p.field ++ [c], [], by simp [Csv.Parse.add, hfields], ?_⟩
    rw [heq.1]
    exact hfirst.trans (List.prefix_append first [c])
  | cons f fs =>
    rw [hfields, List.cons_append, List.cons.injEq] at heq
    refine ⟨f, fs ++ [p.field ++ [c]], by simp [Csv.Parse.add, hfields], ?_⟩
    rwa [heq.1]

theorem Headed.save (hstate : state ≠ .startRecord) : Headed g (p.save state) := by
  obtain ⟨-, first, rest, heq, hfirst⟩ := h
  exact ⟨hstate, first, rest ++ [[]], by simp [Csv.Parse.save, heq], hfirst⟩

theorem Headed.setState (hstate : state ≠ .startRecord) : Headed g { p with state := state } :=
  ⟨hstate, h.2⟩

theorem Headed.step (d c : Char) : Headed g (p.step d c) := by
  rw [Csv.Parse.step]
  split
  · split
    · exact h.setState (by decide)
    split
    · exact h.save (by decide)
    · exact h.add c (by decide)
  · split
    · exact h.setState (by decide)
    split
    · exact h.save (by decide)
    · exact h.add c (by decide)
  · split
    · exact h.save (by decide)
    · exact h.add c (by decide)
  · split
    · exact h.setState (by decide)
    · exact h.add c (by decide)
  · split
    · exact h.add c (by decide)
    split
    · exact h.save (by decide)
    · exact h.add c (by decide)

theorem Headed.foldl (d : Char) (t : Text) :
    Headed g (t.foldl (Csv.Parse.step d) p) := by
  induction t generalizing p with
  | nil => exact h
  | cons c t ih => exact ih (h.step d c)

end

variable {q : Csv.Parse}

theorem Headed.endLine (h : Headed g q) :
    (q.endLine.state = .startRecord ∧ ∃ first rest, q.endLine.fields = first :: rest ∧ g <+: first) ∨
      q.state = .inQuotedField ∧ q.endLine = q := by
  obtain ⟨hstate, first, rest, heq, hfirst⟩ := h
  rw [Csv.Parse.endLine]
  split
  · next hs => exact absurd hs hstate
  · next hs => exact .inr ⟨hs, rfl⟩
  · exact .inl ⟨rfl, first, rest, heq, hfirst⟩
  · exact .inl ⟨rfl, first, rest, heq, hfirst⟩
  · exact .inl ⟨rfl, first, rest, heq, hfirst⟩

/-- The first record starts with the text, at the end of this line or of a later one. -/
theorem Headed.readRows {d : Char} (ls : List Text)
    (h : Headed g q) (hl : l.foldl (Csv.Parse.step d) p = q) :
    ∃ first rest rows, Csv.readRows d (l :: ls) p = (first :: rest) :: rows ∧ g <+: first := by
  induction ls generalizing l p q with
  | nil =>
    rw [Csv.readRows, Csv.Parse.line, hl]
    rcases h.endLine with ⟨hstate, first, rest, hfields, hfirst⟩ | ⟨hquoted, hopen⟩
    · exact ⟨first, rest, Csv.readRows d [] .reset, by rw [if_pos hstate, hfields], hfirst⟩
    · obtain ⟨hstate, first, rest, heq, hfirst⟩ := h
      refine ⟨first, rest, [], ?_, hfirst⟩
      rw [hopen, if_neg hstate, Csv.readRows, if_pos (.inr hquoted), heq]
  | cons l' ls ih =>
    rw [Csv.readRows, Csv.Parse.line, hl]
    rcases h.endLine with ⟨hstate, first, rest, hfields, hfirst⟩ | ⟨hquoted, hopen⟩
    · exact ⟨first, rest, Csv.readRows d (l' :: ls) .reset, by rw [if_pos hstate, hfields], hfirst⟩
    · rw [hopen, if_neg h.1]
      exact ih (h.foldl d l') rfl

theorem readRows_tab (question answer : Text) (ls : List Text) :
    ∃ first rest rows, Csv.readRows '\t' (Csv.rowText ',' [question, answer] :: ls) .reset =
      (first :: rest) :: rows ∧ question ++ [','] <+: first := by
  have hsplit : Csv.rowText ',' [question, answer] =
      (['"'] ++ Csv.double question) ++ (['"', ','] ++ Csv.quoted answer) := by
    simp [Csv.rowText_cons, Csv.quoted]
  have hopen : (['"'] ++ Csv.double question).foldl (Csv.Parse.step '\t') .reset =
      { fields := [], field := question, state := .inQuotedField } := by
    have hquote : Csv.Parse.step '\t' .reset '"' =
        { fields := [], field := [], state := .inQuotedField } := rfl
    rw [List.singleton_append, List.foldl_cons, hquote, Csv.foldl_step_double '\t' question rfl]
    rfl
  have hcomma : ['"', ','].foldl (Csv.Parse.step '\t')
      { fields := [], field := question, state := .inQuotedField } =
        { fields := [], field := question ++ [','], state := .inField } := rfl
  have hstart : Headed (question ++ [','])
      { fields := [], field := question ++ [','], state := .inField } :=
    ⟨(by intro h; cases h), question ++ [','], [], rfl, List.prefix_refl _⟩
  refine Headed.readRows ls (hstart.foldl '\t' (Csv.quoted answer)) ?_
  rw [hsplit, List.foldl_append, hopen, List.foldl_append, hcomma]

/-- The pairs, with the one that is read. -/
def PairLoop.all (st : PairLoop) : List (Text × Text) :=
  if st.question ≠ [] then st.pairs ++ [(st.question, st.answer)] else st.pairs

variable (st : PairLoop)

theorem PairLoop.pairs_prefix_all : st.pairs <+: st.all := by
  rw [PairLoop.all]
  split
  · exact List.prefix_append _ _
  · exact List.prefix_refl _

theorem PairLoop.length_row_le (item : List Text × Text) :
    (st.row item).all.length ≤ st.all.length + 1 := by
  have hpairs := st.pairs_prefix_all.length_le
  have hle : ∀ st' : PairLoop, st'.all.length ≤ st'.pairs.length + 1 := by
    intro st'
    rw [PairLoop.all]
    split <;> simp
  rw [PairLoop.row]
  split
  · refine le_trans (hle _) ?_
    dsimp only
    split
    · next hboth => simp [PairLoop.all, hboth.1]
    · omega
  · by_cases hq : st.question = [] <;> simp [PairLoop.all, hq]

/-- The first question is the first of the pairs. -/
def PairLoop.StartsWith (h : Text) (st : PairLoop) : Prop :=
  ∃ a ps, st.all = (h, a) :: ps

variable {h : Text} {st : PairLoop}

theorem PairLoop.StartsWith.row (hst : st.StartsWith h)
    (item : List Text × Text) : (st.row item).StartsWith h ∨ (st.row item).all.length ≤ 1 := by
  obtain ⟨a, ps, heq⟩ := hst
  have hkeeps : ∀ st' : PairLoop, (h, a) :: ps <+: st'.pairs → st'.StartsWith h := by
    intro st' hpre
    obtain ⟨behind, hbehind⟩ := hpre.trans st'.pairs_prefix_all
    exact ⟨a, ps ++ behind, hbehind.symm⟩
  rw [PairLoop.row]
  split
  · next q' a' _ =>
      by_cases hboth : st.question ≠ [] ∧ st.answer ≠ []
      · refine .inl (hkeeps _ ?_)
        rw [PairLoop.all, if_pos hboth.1] at heq
        rw [if_pos hboth, heq]
      · rw [if_neg hboth]
        cases hpairs : st.pairs with
        | nil =>
          refine .inr ?_
          rw [PairLoop.all]
          split <;> simp
        | cons p qs =>
          -- a pair in front of the one that is lost
          have hfirst : p = (h, a) := by
            have hpre := st.pairs_prefix_all
            rw [heq, hpairs] at hpre
            exact (List.cons_prefix_cons.mp hpre).1
          refine .inl ?_
          have hpre := PairLoop.pairs_prefix_all { pairs := p :: qs, question := q', answer := a' }
          obtain ⟨behind, hbehind⟩ := hpre
          exact ⟨a, qs ++ behind, by rw [← hbehind, hfirst]; rfl⟩
  · by_cases hq : st.question = []
    · rw [if_neg (by simpa using hq)]
      exact .inl ⟨a, ps, heq⟩
    · rw [if_pos hq]
      refine .inl ?_
      have hall : ({ st with answer := st.answer ++ '\n' :: item.2 } : PairLoop).all =
          st.pairs ++ [(st.question, st.answer ++ '\n' :: item.2)] := by
        rw [PairLoop.all, if_pos hq]
      rw [PairLoop.all, if_pos hq] at heq
      rw [PairLoop.StartsWith, hall]
      cases hpairs : st.pairs with
      | nil =>
        rw [hpairs, List.nil_append, List.cons.injEq, Prod.mk.injEq] at heq
        exact ⟨st.answer ++ '\n' :: item.2, [], by rw [heq.1.1]; rfl⟩
      | cons p qs =>
        rw [hpairs, List.cons_append, List.cons.injEq] at heq
        exact ⟨a, qs ++ [(st.question, st.answer ++ '\n' :: item.2)], by rw [heq.1]; rfl⟩

theorem foldl_row_startsWith (items : List (List Text × Text)) {seen : Nat}
    (hseen : 0 < seen) (hst : st.StartsWith h ∨ st.all.length < seen) :
    (items.foldl PairLoop.row st).StartsWith h ∨
      (items.foldl PairLoop.row st).all.length < seen + items.length := by
  induction items generalizing st seen with
  | nil => simpa using hst
  | cons item items ih =>
    have hnext : (st.row item).StartsWith h ∨ (st.row item).all.length < seen + 1 := by
      rcases hst with hfirst | hlost
      · exact (hfirst.row item).imp_right fun hle => by omega
      · have hle := st.length_row_le item
        exact .inr (by omega)
    have hrest := ih (Nat.succ_pos seen) hnext
    rw [List.foldl_cons, List.length_cons]
    exact hrest.imp_right fun hlt => by omega

theorem PairLoop.finish_eq :
    st.finish = (st.all.filter fun p => stripChars p.1 ≠ []).map fun p =>
      (stripChars p.1, stripChars p.2) :=
  rfl

theorem finish_first {first line : Text} {others : List Text} (items : List (List Text × Text))
    (hfirst : nonspace first ≠ [])
    (hlen : items.length < (((first :: others, line) :: items).foldl PairLoop.row
      { pairs := [], question := [], answer := [] }).finish.length) :
    ∃ a ps, (((first :: others, line) :: items).foldl PairLoop.row
      { pairs := [], question := [], answer := [] }).finish = (stripChars first, a) :: ps := by
  have hne : first ≠ [] := by
    rintro rfl
    exact hfirst rfl
  have hstart : (PairLoop.row { pairs := [], question := [], answer := [] }
      (first :: others, line)).StartsWith first ∨
        (PairLoop.row { pairs := [], question := [], answer := [] }
          (first :: others, line)).all.length < 1 := by
    by_cases hone : ∃ a, others = [a]
    · obtain ⟨a, rfl⟩ := hone
      exact .inl ⟨a, [], by simp [PairLoop.row, PairLoop.all, hne]⟩
    · have hother : (first :: others).length ≠ 2 := fun htwo =>
        hone (List.length_eq_one_iff.mp (by simpa using htwo))
      exact .inr (by simp [PairLoop.row_other _ hother, PairLoop.all])
  rw [List.foldl_cons] at hlen ⊢
  rw [PairLoop.finish_eq] at hlen ⊢
  rcases foldl_row_startsWith items (Nat.zero_lt_one) hstart with ⟨a, ps, hall⟩ | hlost
  · have hblank : stripChars first ≠ [] := fun h => hfirst (nonspace_eq_nil_iff.mpr h)
    rw [hall, List.filter_cons_of_pos (by simpa using hblank)]
    exact ⟨stripChars a, _, rfl⟩
  · have hle := List.length_filter_le (fun p : Text × Text => decide (stripChars p.1 ≠ []))
      (items.foldl PairLoop.row (PairLoop.row { pairs := [], question := [], answer := [] }
        (first :: others, line))).all
    rw [List.length_map] at hlen
    omega

theorem length_pairsOf {items : List (List Text × Text)} (h : ∀ item ∈ items, item.1.length = 2) :
    (pairsOf items).length = items.length := by
  induction items with
  | nil => rfl
  | cons item items ih =>
    obtain ⟨row, text⟩ := item
    obtain ⟨q, a, rfl⟩ := List.length_eq_two.mp (h _ (List.mem_cons_self ..))
    rw [pairsOf, List.length_cons, List.length_cons, ih fun i hi => h i (List.mem_cons_of_mem _ hi)]

theorem contentLines_write (hrows : ∀ row ∈ rows, row ≠ [])
    (hlines : ∀ row ∈ rows, ∀ field ∈ row, Unbroken field) :
    contentLines (Csv.write ',' rows) = rows.map (Csv.rowText ',') := by
  rw [contentLines_eq]
  induction rows with
  | nil => rfl
  | cons row rows ih =>
    have hrest := ih (fun r hr => hrows r (List.mem_cons_of_mem row hr))
      (fun r hr => hlines r (List.mem_cons_of_mem row hr))
    have hrow := hrows row (List.mem_cons_self ..)
    have hline : Unbroken (Csv.rowText ',' row) := by
      intro c hc
      rcases mem_rowText hc with rfl | rfl | ⟨field, hfield, hc⟩
      · rfl
      · rfl
      · exact hlines row (List.mem_cons_self ..) field hfield c hc
    have hfull : nonspace (Csv.rowText ',' row) ≠ [] := by
      obtain ⟨t, ht⟩ := Csv.exists_rowText_eq ',' hrow
      rw [ht, nonspace_append]
      exact List.append_ne_nil_of_right_ne_nil _ (by decide)
    have htext : Csv.write ',' (row :: rows) =
        Csv.rowText ',' row ++ '\r' :: '\n' :: Csv.write ',' rows := by
      simp [Csv.write]
    rw [htext, contentFrom_append hline, List.append_nil, contentFrom_end hfull, hrest]
    rfl

theorem csvPairs_tab (htwo : ∀ row ∈ rows, row.length = 2)
    (hlines : ∀ row ∈ rows, ∀ field ∈ row, Unbroken field) (htab : ¬TabFree rows) :
    csvPairs (Csv.write ',' rows) ≠ some (pairsOf (ownTexts rows)) := by
  have hrows : ∀ row ∈ rows, row ≠ [] := fun row hrow hnil => by
    have hlen := htwo row hrow
    rw [hnil] at hlen
    cases hlen
  have htabs : (rows.map (Csv.rowText ',')).any (·.contains '\t') = true := by
    simp only [TabFree, not_forall] at htab
    obtain ⟨row, hrow, field, hfield, hmem⟩ := htab
    rw [List.any_map, List.any_eq_true]
    refine ⟨row, hrow, ?_⟩
    have hin := tab_mem_rowText.mpr ⟨field, hfield, by simpa using hmem⟩
    simpa using hin
  rw [csvPairs, contentLines_write hrows hlines]
  simp only [htabs, if_true, extractPairsFromCsv, Csv.reader]
  cases rows with
  | nil => exact absurd (by simp [TabFree]) htab
  | cons row rest =>
    obtain ⟨q, a, rfl⟩ := List.length_eq_two.mp (htwo row (List.mem_cons_self ..))
    obtain ⟨first, others, records, hrecords, hfirst⟩ :=
      readRows_tab q a (rest.map (Csv.rowText ','))
    have hnonspace : nonspace (q ++ [',']) <+: nonspace first := by
      obtain ⟨behind, rfl⟩ := hfirst
      exact ⟨nonspace behind, (nonspace_append _ _).symm⟩
    have hcomma : nonspace (q ++ [',']) = nonspace q ++ [','] := nonspace_append q [',']
    have hlonger := hnonspace.length_le
    rw [hcomma, List.length_append, List.length_singleton] at hlonger
    rw [List.map_cons, hrecords]
    intro heq
    obtain ⟨rows', hrows', hpairs⟩ := Option.map_eq_some_iff.mp heq
    split at hrows'
    · obtain rfl := (Option.some.inj hrows').symm
      rw [List.zip_cons_cons] at hpairs
      have hlen := congrArg List.length hpairs
      have hown : ∀ item ∈ ownTexts ([q, a] :: rest), item.1.length = 2 := by
        intro item hitem
        obtain ⟨row, hrow, rfl⟩ := List.mem_map.mp hitem
        exact htwo row hrow
      have hrest : (records.zip (rest.map (Csv.rowText ','))).length ≤ rest.length := by
        rw [List.length_zip, List.length_map]
        exact min_le_right _ _
      rw [length_pairsOf hown, ownTexts, List.length_map, List.length_cons] at hlen
      -- the first question of the text is longer than the one that is meant
      obtain ⟨answer, pairs, hfinish⟩ := @finish_first first (Csv.rowText ',' [q, a]) others
        (records.zip (rest.map (Csv.rowText ',')))
        (fun hnil => by rw [hnil] at hlonger; simp at hlonger) (by omega)
      rw [hfinish] at hpairs
      have hquestion : stripChars first = stripChars q := by
        have hhead := congrArg List.head? hpairs
        simpa [ownTexts, pairsOf] using congrArg (Option.map Prod.fst) hhead
      have hsame : nonspace first = nonspace q := by
        rw [← nonspace_strip first, hquestion, nonspace_strip]
      rw [hsame] at hlonger
      omega
    · cases hrows'

/-! ## The pairs of a written text -/

/-- Rows come back when no field has a tab in it, every field is short enough for the reader and every
pair is kept; without tabs only then, and pairs on one line each only without tabs. -/
theorem csvPairs_comes_back {rows : List (List Text)} (hrows : ∀ row ∈ rows, row ≠ [])
    (hfull : FullPairs rows) :
    (TabFree rows → (csvPairs (Csv.write ',' rows) = some (pairsOf (ownTexts rows)) ↔
      Readable rows ∧ Kept (placed rows))) ∧
    ((∀ row ∈ rows, row.length = 2) → (∀ row ∈ rows, ∀ field ∈ row, Unbroken field) →
      ¬TabFree rows → csvPairs (Csv.write ',' rows) ≠ some (pairsOf (ownTexts rows))) :=
  ⟨fun htab => csvPairs_write_iff hrows htab hfull, csvPairs_tab⟩

/-- A pair with a comma, quotes and a line break in front, and a row behind it. -/
def quotedRows : List (List Text) :=
  [["q, \"one\"".toList, "a, b".toList], ["note".toList]]

theorem quotedRows_come_back : TabFree quotedRows ∧ Readable quotedRows ∧ Kept (placed quotedRows) ∧
    csvPairs (Csv.write ',' quotedRows) = some (pairsOf (ownTexts quotedRows)) := by
  have hrows : ∀ row ∈ quotedRows, row ≠ [] := by decide
  have hfull : FullPairs quotedRows := by
    unfold FullPairs
    decide +kernel
  have htab : TabFree quotedRows := by decide +kernel
  have hread : Readable quotedRows := by decide +kernel
  have hkept : Kept (placed quotedRows) := by
    refine ⟨⟨?_, ?_⟩, trivial⟩
    · decide +kernel
    · decide +kernel
  exact ⟨htab, hread, hkept, ((csvPairs_comes_back hrows hfull).1 htab).mpr ⟨hread, hkept⟩⟩

/-- A pair whose answer has two lines, and a row with one column. -/
def multilineRows : List (List Text) :=
  [["q".toList, "one\ntwo".toList], ["note".toList]]

/-- The line break is lost, and the row brings a line of the answer instead of its own text. -/
theorem multiline_answer_differs :
    csvPairs (Csv.write ',' multilineRows) = some [("q".toList, "onetwo\ntwo\"".toList)] ∧
      pairsOf (ownTexts multilineRows) = [("q".toList, "one\ntwo\n\"note\"".toList)] := by
  decide +kernel

end Yuanlei.Chunking.Qa
