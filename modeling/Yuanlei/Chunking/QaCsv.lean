import Yuanlei.Chunking.QaChunks
import Yuanlei.Lib.Csv

/-!
# Questions and answers of CSV files

The `.csv` branch of `parsers/qa.py`: the text is cut into lines, blank lines are left out,
and a CSV reader gets what is left.  A row with two columns is a pair, and the line at the place of
another row is added to the answer in front of it.

Main results:

- `csvPairs`: the pairs of a CSV text.
- `finish_rows`: the loop makes the pairs of its rows.
-/

namespace Yuanlei.Chunking.Qa

open PosixPath (Text)
open PyText (isSpace stripChars splitLines isLineBreak)

/-! ## The pairs of rows -/

/-- The pairs that are complete and the one that is read. -/
structure PairLoop where
  pairs : List (Text × Text)
  question : Text
  answer : Text

/-- The round of `_extract_pairs_from_csv` for a row and a line. -/
def PairLoop.row (st : PairLoop) (item : List Text × Text) : PairLoop :=
  match item.1 with
  | [question, answer] =>
    { pairs := if st.question ≠ [] ∧ st.answer ≠ [] then st.pairs ++ [(st.question, st.answer)]
        else st.pairs
      question := question
      answer := answer }
  | _ => if st.question ≠ [] then { st with answer := st.answer ++ '\n' :: item.2 } else st

/-- The pairs at the end. -/
def PairLoop.finish (st : PairLoop) : List (Text × Text) :=
  let pairs := if st.question ≠ [] then st.pairs ++ [(st.question, st.answer)] else st.pairs
  (pairs.filter fun p => stripChars p.1 ≠ []).map fun p => (stripChars p.1, stripChars p.2)

/-- `_extract_pairs_from_csv`; `none` is the error of the reader. -/
def extractPairsFromCsv (lines : List Text) (delimiter : Char) : Option (List (Text × Text)) :=
  (Csv.reader delimiter lines).map fun rows =>
    ((rows.zip lines).foldl PairLoop.row { pairs := [], question := [], answer := [] }).finish

/-- The lines of `chunk_markdown`. -/
def contentLines (text : Text) : List Text :=
  (splitLines text).filter (stripChars · ≠ [])

/-- The pairs of the `.csv` branch of `chunk_markdown`. -/
def csvPairs (text : Text) : Option (List (Text × Text)) :=
  let lines := contentLines text
  extractPairsFromCsv lines (if lines.any (·.contains '\t') then '\t' else ',')

/-! ## The pairs that are meant -/

/-- The texts of the rows in front of the next pair. -/
def textBehind : List (List Text × Text) → Text
  | [] => []
  | (row, text) :: rest => if row.length = 2 then [] else '\n' :: (text ++ textBehind rest)

/-- The pairs of rows, each with the texts of the rows behind it. -/
def pairsOf : List (List Text × Text) → List (Text × Text)
  | [] => []
  | ([question, answer], _) :: rest =>
    (stripChars question, stripChars (answer ++ textBehind rest)) :: pairsOf rest
  | _ :: rest => pairsOf rest

/-- Rows with their own texts. -/
def ownTexts (rows : List (List Text)) : List (List Text × Text) :=
  rows.map fun row => (row, Csv.rowText ',' row)

/-- Pairs with nothing blank in them. -/
def FullPairs (rows : List (List Text)) : Prop :=
  ∀ row ∈ rows, row.length = 2 → ∀ field ∈ row, stripChars field ≠ []

variable {row : List Text} {text : Text}

theorem PairLoop.row_other (st : PairLoop) (h : row.length ≠ 2) :
    st.row (row, text) =
      if st.question ≠ [] then { st with answer := st.answer ++ '\n' :: text } else st := by
  rw [PairLoop.row]
  split
  · simp_all
  · rfl

theorem pairsOf_other {rest : List (List Text × Text)}
    (h : row.length ≠ 2) : pairsOf ((row, text) :: rest) = pairsOf rest := by
  rw [pairsOf.eq_def]
  split
  · simp_all
  · simp_all
  · simp_all

variable {items : List (List Text × Text)}

theorem finish_foldl_row (hitems : FullPairs (items.map Prod.fst)) {st : PairLoop}
    (hpairs : ∀ p ∈ st.pairs, stripChars p.1 ≠ [])
    (hcurrent : st.question ≠ [] → stripChars st.question ≠ [] ∧ st.answer ≠ []) :
    (items.foldl PairLoop.row st).finish =
      st.pairs.map (fun p => (stripChars p.1, stripChars p.2)) ++
        ((if st.question ≠ [] then
            [(stripChars st.question, stripChars (st.answer ++ textBehind items))] else []) ++
          pairsOf items) := by
  induction items generalizing st with
  | nil =>
    have hfilter : st.pairs.filter (fun p => !decide (stripChars p.1 = [])) = st.pairs :=
      List.filter_eq_self.mpr fun p hp => by simpa using hpairs p hp
    by_cases hq : st.question = []
    · simp [PairLoop.finish, hq, pairsOf, hfilter]
    · simp [PairLoop.finish, hq, pairsOf, hfilter, (hcurrent hq).1, textBehind]
  | cons item items ih =>
    obtain ⟨row, text⟩ := item
    have hrest : FullPairs (items.map Prod.fst) := fun r hr =>
      hitems r (List.mem_cons_of_mem row hr)
    have hrow := hitems row (List.mem_cons_self ..)
    rw [List.foldl_cons]
    by_cases htwo : row.length = 2
    · obtain ⟨q, a, rfl⟩ := List.length_eq_two.mp htwo
      have hqa := hrow htwo
      have hq : stripChars q ≠ [] := hqa q (by simp)
      have ha : stripChars a ≠ [] := hqa a (by simp)
      have hqne : q ≠ [] := fun h => hq (by rw [h]; rfl)
      have hane : a ≠ [] := fun h => ha (by rw [h]; rfl)
      by_cases hcur : st.question = []
      · have hstep : st.row ([q, a], text) = { pairs := st.pairs, question := q, answer := a } := by
          simp [PairLoop.row, hcur]
        rw [hstep, @ih hrest { pairs := st.pairs, question := q, answer := a } hpairs
          fun _ => ⟨hq, hane⟩]
        simp [hqne, hcur, pairsOf]
      · have hstep : st.row ([q, a], text) =
            { pairs := st.pairs ++ [(st.question, st.answer)], question := q, answer := a } := by
          simp [PairLoop.row, hcur, (hcurrent hcur).2]
        have hpairs' : ∀ p ∈ st.pairs ++ [(st.question, st.answer)], stripChars p.1 ≠ [] := by
          intro p hp
          rcases List.mem_append.mp hp with hp | hp
          · exact hpairs p hp
          · rw [List.mem_singleton.mp hp]
            exact (hcurrent hcur).1
        rw [hstep, @ih hrest { pairs := _, question := q, answer := a } hpairs' fun _ => ⟨hq, hane⟩]
        simp [hqne, hcur, pairsOf, textBehind]
    · rw [PairLoop.row_other st htwo, pairsOf_other htwo]
      by_cases hcur : st.question = []
      · rw [if_neg (by simpa using hcur), ih hrest hpairs hcurrent]
        simp [hcur]
      · rw [if_pos hcur, @ih hrest { st with answer := st.answer ++ '\n' :: text } hpairs
          fun _ => ⟨(hcurrent hcur).1, by simp⟩]
        simp [hcur, textBehind, htwo]

theorem finish_rows (h : FullPairs (items.map Prod.fst)) :
    (items.foldl PairLoop.row { pairs := [], question := [], answer := [] }).finish =
      pairsOf items := by
  rw [finish_foldl_row h (by simp) (by simp)]
  simp

/-! ## The lines of a text -/

/-- A line that is not blank, given with its last character first. -/
def keptLine (line : Text) : List Text :=
  if stripChars line.reverse = [] then [] else [line.reverse]

/-- The lines that are not blank, with the characters of the current line. -/
def contentFrom : Text → Text → List Text
  | line, [] => keptLine line
  | line, c :: t =>
    if isLineBreak c then keptLine line ++ contentFrom [] t else contentFrom (c :: line) t

theorem contentFrom_eq (line t : Text) :
    (PyText.splitLinesFrom line t).filter (stripChars · ≠ []) = contentFrom line t := by
  have hkept : ∀ l : Text, [l.reverse].filter (stripChars · ≠ []) = keptLine l := by
    intro l
    by_cases h : stripChars l.reverse = [] <;> simp [keptLine, h]
  fun_induction PyText.splitLinesFrom line t with
  | case1 => rfl
  | case2 line hline => rw [hkept, contentFrom]
  | case3 line t ih =>
    -- both characters of the pair end a line, and the second of these lines is blank
    have hpair : contentFrom line ('\r' :: '\n' :: t) = keptLine line ++ contentFrom [] t := by
      simp [contentFrom, isLineBreak, keptLine, stripChars]
    rw [hpair, ← ih, ← hkept, ← List.filter_append, List.singleton_append]
  | case4 line c t _ hbreak ih =>
    rw [contentFrom, if_pos hbreak, ← ih, ← hkept, ← List.filter_append, List.singleton_append]
  | case5 line c t _ hbreak ih => rw [contentFrom, if_neg hbreak, ih]

theorem contentLines_eq (text : Text) : contentLines text = contentFrom [] text :=
  contentFrom_eq [] text

/-! ## The rows of a written text -/

theorem isLineBreak_quote : isLineBreak '"' = false :=
  rfl

/-- Characters that end no line go to the current line. -/
theorem contentFrom_append {s : Text} (hs : ∀ c ∈ s, isLineBreak c = false) (line t : Text) :
    contentFrom line (s ++ t) = contentFrom (s.reverse ++ line) t := by
  induction s generalizing line with
  | nil => rfl
  | cons c s ih =>
    have hc := hs c (List.mem_cons_self ..)
    rw [List.cons_append, contentFrom, if_neg (by simp [hc]),
      ih (fun d hd => hs d (List.mem_cons_of_mem c hd))]
    simp

variable {line : Text}

theorem keptLine_of_nonspace (h : nonspace line ≠ []) :
    keptLine line.reverse = [line] := by
  rw [keptLine, List.reverse_reverse, if_neg fun hblank => h (nonspace_eq_nil_iff.mpr hblank)]

theorem keptLine_of_space (h : nonspace line = []) : keptLine line.reverse = [] := by
  rw [keptLine, List.reverse_reverse, if_pos (nonspace_eq_nil_iff.mp h)]

theorem contentFrom_end (h : nonspace line ≠ []) (t : Text) :
    contentFrom line.reverse ('\r' :: '\n' :: t) = line :: contentFrom [] t := by
  have hbreaks : contentFrom line.reverse ('\r' :: '\n' :: t) =
      keptLine line.reverse ++ (keptLine [] ++ contentFrom [] t) := by
    simp [contentFrom, isLineBreak]
  rw [hbreaks, keptLine_of_nonspace h]
  rfl

theorem nonspace_double (t : Text) : nonspace (Csv.double t) = [] ↔ nonspace t = [] := by
  simp only [nonspace, List.filter_eq_nil_iff, Csv.mem_double]

/-- What the reader gets of a field: the line breaks are left out, and so are the blank lines behind
the first line. -/
def readBack : Bool → Text → Text → Text
  | _, line, [] => line.reverse
  | kept, line, c :: t =>
    if isLineBreak c then
      (if kept then line.reverse else (keptLine line).flatten) ++ readBack false [] t
    else readBack kept (c :: line) t

def fieldBack (field : Text) : Text :=
  readBack true [] field

/-- A reader inside quotes that has read the front of a line. -/
structure Reading (front : Text) (p₀ p : Csv.Parse) : Prop where
  read : front.foldl (Csv.Parse.step ',') p₀ = p
  quoted : p.state = .inQuotedField

variable {front : Text} {p₀ p : Csv.Parse}

theorem Reading.foldl (h : Reading front p₀ p) (t : Text) :
    (front ++ Csv.double t).foldl (Csv.Parse.step ',') p₀ = { p with field := p.field ++ t } := by
  rw [List.foldl_append, h.read, Csv.foldl_step_double ',' t h.quoted]

/-- A line that ends inside quotes. -/
theorem Reading.endLine (h : Reading front p₀ p) (t : Text) (ls : List Text) :
    Csv.readRows ',' ((front ++ Csv.double t) :: ls) p₀ =
      Csv.readRows ',' ls { p with field := p.field ++ t } := by
  have hline : p₀.line ',' (front ++ Csv.double t) = { p with field := p.field ++ t } := by
    rw [Csv.Parse.line, h.foldl]
    simp [Csv.Parse.endLine, h.quoted]
  rw [Csv.readRows, hline, if_neg (by simp [h.quoted])]

/-- The characters of a field inside its quotes; `front` is what its current line holds in front
of it, the opening quote at first and nothing after a line break. -/
theorem readRows_readBack (f rest : Text) {kept : Bool} {line front : Text} {p₀ p : Csv.Parse}
    (h : Reading front p₀ p) (hkept : kept = true → nonspace front ≠ [])
    (hnew : kept = false → front = []) :
    ∃ (front' : Text) (p' : Csv.Parse),
      front'.foldl (Csv.Parse.step ',') p' = { p with field := p.field ++ readBack kept line f } ∧
      Csv.readRows ',' (contentFrom (front ++ Csv.double line.reverse).reverse
          (Csv.double f ++ '"' :: rest)) p₀ =
        Csv.readRows ',' (contentFrom front'.reverse ('"' :: rest)) p' := by
  induction f generalizing kept line front p₀ p with
  | nil => exact ⟨front ++ Csv.double line.reverse, p₀, h.foldl line.reverse, rfl⟩
  | cons c f ih =>
    by_cases hbreak : isLineBreak c = true
    · have hc : c ≠ '"' := by
        rintro rfl
        exact absurd hbreak (by decide)
      have hdouble : Csv.double (c :: f) ++ '"' :: rest = c :: (Csv.double f ++ '"' :: rest) := by
        simp [Csv.double_cons, hc]
      rw [hdouble, contentFrom, if_pos hbreak, readBack, if_pos hbreak]
      by_cases hblank : nonspace (front ++ Csv.double line.reverse) = []
      · -- a blank line is left out, and the reader does not see it
        have hfront : kept = false := by
          by_contra hk
          rw [nonspace_append, List.append_eq_nil_iff] at hblank
          exact hkept (by simpa using hk) hblank.1
        subst hfront
        have hnil := hnew rfl
        subst hnil
        have hline : keptLine line = [] := by
          have hspace : nonspace line.reverse = [] := (nonspace_double _).mp hblank
          simpa using keptLine_of_space hspace
        obtain ⟨front', p', hread, hrows⟩ := @ih false [] [] p₀ p h (by simp) (fun _ => rfl)
        refine ⟨front', p', ?_, ?_⟩
        · simpa [hline] using hread
        · rw [keptLine_of_space hblank, List.nil_append]
          simpa using hrows
      · have hline : (if kept then line.reverse else (keptLine line).flatten) = line.reverse := by
          cases kept with
          | true => rfl
          | false =>
            have hnil := hnew rfl
            subst hnil
            have hspace : nonspace line.reverse ≠ [] := fun hspace =>
              hblank ((nonspace_double _).mpr hspace)
            have hkeep := keptLine_of_nonspace hspace
            rw [List.reverse_reverse] at hkeep
            simp [hkeep]
        have hnext : Reading [] { p with field := p.field ++ line.reverse }
            { p with field := p.field ++ line.reverse } := ⟨rfl, h.quoted⟩
        obtain ⟨front', p', hread, hrows⟩ := @ih false [] [] _ _ hnext (by simp) (fun _ => rfl)
        refine ⟨front', p', ?_, ?_⟩
        · rw [hline, hread, List.append_assoc]
        · rw [keptLine_of_nonspace hblank, List.singleton_append, h.endLine]
          simpa using hrows
    · have hone : ∀ d ∈ Csv.double [c], isLineBreak d = false := by
        intro d hd
        rw [Csv.mem_double, List.mem_singleton] at hd
        simpa [hd] using hbreak
      have hdouble : Csv.double (c :: f) = Csv.double [c] ++ Csv.double f :=
        Csv.double_append [c] f
      have hline : (Csv.double [c]).reverse ++ (front ++ Csv.double line.reverse).reverse =
          (front ++ Csv.double (c :: line).reverse).reverse := by
        rw [List.reverse_cons, Csv.double_append]
        simp
      rw [hdouble, List.append_assoc, contentFrom_append hone, hline, readBack,
        if_neg (by simpa using hbreak)]
      exact ih h hkept hnew

theorem readRows_quoted (field rest : Text) (hread : front.foldl (Csv.Parse.step ',') p₀ = p)
    (hstate : p.state = .startRecord ∨ p.state = .startField) (hfield : p.field = []) :
    ∃ (front' : Text) (p' : Csv.Parse), nonspace front' ≠ [] ∧
      front'.foldl (Csv.Parse.step ',') p' =
        { p with field := fieldBack field, state := .quoteInQuotedField } ∧
      Csv.readRows ',' (contentFrom front.reverse (Csv.quoted field ++ rest)) p₀ =
        Csv.readRows ',' (contentFrom front'.reverse rest) p' := by
  have hopen : Reading (front ++ ['"']) p₀ { p with state := .inQuotedField } := by
    refine ⟨?_, rfl⟩
    rw [List.foldl_append, hread]
    rcases hstate with h | h <;> simp [Csv.Parse.step, h]
  have hquote : nonspace (front ++ ['"']) ≠ [] := by
    rw [nonspace_append]
    exact List.append_ne_nil_of_right_ne_nil _ (by decide)
  obtain ⟨front', p', hfront, hrows⟩ :=
    @readRows_readBack field rest true [] _ _ _ hopen (fun _ => hquote) (by simp)
  refine ⟨front' ++ ['"'], p', ?_, ?_, ?_⟩
  · rw [nonspace_append]
    exact List.append_ne_nil_of_right_ne_nil _ (by decide)
  · rw [List.foldl_append, hfront]
    simp [Csv.Parse.step, hfield, fieldBack]
  · have hstart : contentFrom front.reverse (Csv.quoted field ++ rest) =
        contentFrom ((front ++ ['"']) ++ Csv.double (List.reverse [])).reverse
          (Csv.double field ++ '"' :: rest) := by
      simp [Csv.quoted, contentFrom, isLineBreak_quote]
    rw [hstart, hrows]
    simp [contentFrom, isLineBreak_quote]

theorem readRows_row (field : Text) (fields : List Text) (rest : Text) {front : Text}
    {p₀ p : Csv.Parse} (hread : front.foldl (Csv.Parse.step ',') p₀ = p)
    (hstate : p.state = .startRecord ∨ p.state = .startField) (hfield : p.field = []) :
    Csv.readRows ',' (contentFrom front.reverse
        (Csv.rowText ',' (field :: fields) ++ '\r' :: '\n' :: rest)) p₀ =
      (p.fields ++ (field :: fields).map fieldBack) ::
        Csv.readRows ',' (contentFrom [] rest) .reset := by
  induction fields generalizing field front p₀ p with
  | nil =>
    obtain ⟨front', p', hfull, hfront, hrows⟩ :=
      readRows_quoted field ('\r' :: '\n' :: rest) hread hstate hfield
    have hline : p'.line ',' front' =
        { fields := p.fields ++ [fieldBack field], field := [], state := .startRecord } := by
      rw [Csv.Parse.line, hfront]
      rfl
    have htext : Csv.rowText ',' [field] = Csv.quoted field := by simp [Csv.rowText_cons]
    rw [htext, hrows, contentFrom_end hfull, Csv.readRows, hline, if_pos rfl]
    rfl
  | cons g fields ih =>
    have htext : Csv.rowText ',' (field :: g :: fields) ++ '\r' :: '\n' :: rest =
        Csv.quoted field ++ (',' :: (Csv.rowText ',' (g :: fields) ++ '\r' :: '\n' :: rest)) := by
      rw [Csv.rowText_cons, Csv.rowText_cons]
      simp
    obtain ⟨front', p', -, hfront, hrows⟩ := readRows_quoted field
      (',' :: (Csv.rowText ',' (g :: fields) ++ '\r' :: '\n' :: rest)) hread hstate hfield
    have hcomma : contentFrom front'.reverse
        (',' :: (Csv.rowText ',' (g :: fields) ++ '\r' :: '\n' :: rest)) =
          contentFrom (front' ++ [',']).reverse
            (Csv.rowText ',' (g :: fields) ++ '\r' :: '\n' :: rest) := by
      simp [contentFrom, isLineBreak]
    have hnext : (front' ++ [',']).foldl (Csv.Parse.step ',') p' =
        { fields := p.fields ++ [fieldBack field], field := [], state := .startField } := by
      rw [List.foldl_append, hfront]
      rfl
    rw [htext, hrows, hcomma, ih g hnext (.inr rfl) rfl]
    simp

theorem readRows_write {rows : List (List Text)} (h : ∀ row ∈ rows, row ≠ []) :
    Csv.readRows ',' (contentLines (Csv.write ',' rows)) .reset = rows.map (List.map fieldBack) := by
  rw [contentLines_eq]
  induction rows with
  | nil => rfl
  | cons row rows ih =>
    obtain ⟨field, fields, rfl⟩ := List.exists_cons_of_ne_nil (h row (List.mem_cons_self ..))
    have hrest := ih fun r hr => h r (List.mem_cons_of_mem _ hr)
    have hrow := @readRows_row field fields (Csv.write ',' rows) [] .reset .reset rfl (.inl rfl) rfl
    rw [hrest] at hrow
    simpa [Csv.write, Csv.Parse.reset] using hrow

end Yuanlei.Chunking.Qa
