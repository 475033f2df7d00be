import Mathlib.Data.List.Basic

/-!
# CSV

The records of a CSV text whose fields are all quoted, and the reader of Python's `csv` module:
a machine that gets the characters of one line after another and is told where a line ends.

Main results:

- `readRows`: the records that the lines of a text hold.
- `foldl_step_double`: inside quotes a doubled quote is a quote.
-/

namespace Yuanlei.Csv

/-! ## Writing -/

/-- A field with its quotes doubled. -/
def double (field : List Char) : List Char :=
  field.flatMap fun c => if c = '"' then ['"', '"'] else [c]

def quoted (field : List Char) : List Char :=
  '"' :: (double field ++ ['"'])

/-- The text of a record. -/
def rowText (delimiter : Char) (row : List (List Char)) : List Char :=
  [delimiter].intercalate (row.map quoted)

/-- The text of records, each on a line of its own. -/
def write (delimiter : Char) (rows : List (List (List Char))) : List Char :=
  rows.flatMap fun row => rowText delimiter row ++ ['\r', '\n']

/-! ## Reading -/

inductive State
  | startRecord
  | startField
  | inField
  | inQuotedField
  | quoteInQuotedField
  deriving DecidableEq

/-- The fields that are complete, the field that is read and where the reader is in it. -/
structure Parse where
  fields : List (List Char)
  field : List Char
  state : State
  deriving DecidableEq

namespace Parse

/-- A reader in front of a record. -/
def reset : Parse :=
  { fields := [], field := [], state := .startRecord }

def add (p : Parse) (c : Char) (state : State) : Parse :=
  { p with field := p.field ++ [c], state := state }

def save (p : Parse) (state : State) : Parse :=
  { fields := p.fields ++ [p.field], field := [], state := state }

/-- A character that ends no line. -/
def step (delimiter : Char) (p : Parse) (c : Char) : Parse :=
  match p.state with
  | .startRecord | .startField =>
    if c = '"' then { p with state := .inQuotedField }
    else if c = delimiter then p.save .startField
    else p.add c .inField
  | .inField => if c = delimiter then p.save .startField else p.add c .inField
  | .inQuotedField =>
    if c = '"' then { p with state := .quoteInQuotedField } else p.add c .inQuotedField
  | .quoteInQuotedField =>
    if c = '"' then p.add c .inQuotedField
    else if c = delimiter then p.save .startField
    else p.add c .inField

/-- The end of a line; inside quotes nothing of it is kept. -/
def endLine (p : Parse) : Parse :=
  match p.state with
  | .startRecord | .inQuotedField => p
  | .startField | .inField | .quoteInQuotedField => p.save .startRecord

/-- A line without its end. -/
def line (delimiter : Char) (p : Parse) (l : List Char) : Parse :=
  (l.foldl (step delimiter) p).endLine

end Parse

/-- The records of lines; at the end of the lines an open quote is closed. -/
def readRows (delimiter : Char) : List (List Char) → Parse → List (List (List Char))
  | [], p => if p.field ≠ [] ∨ p.state = .inQuotedField then [p.fields ++ [p.field]] else []
  | l :: ls, p =>
    let p := p.line delimiter l
    if p.state = .startRecord then p.fields :: readRows delimiter ls .reset
    else readRows delimiter ls p

/-- `csv.field_size_limit()` as it is set at the start. -/
def fieldSizeLimit : Nat :=
  131072

/-- `csv.reader`; it raises an error for a field that is too long. -/
def reader (delimiter : Char) (lines : List (List Char)) : Option (List (List (List Char))) :=
  let rows := readRows delimiter lines .reset
  if ∀ row ∈ rows, ∀ field ∈ row, field.length ≤ fieldSizeLimit then some rows else none

/-! ## Quoted fields -/

@[simp]
theorem double_nil : double [] = [] :=
  rfl

theorem double_cons (c : Char) (t : List Char) :
    double (c :: t) = (if c = '"' then ['"', '"'] else [c]) ++ double t :=
  rfl

theorem double_append (s t : List Char) : double (s ++ t) = double s ++ double t :=
  List.flatMap_append

theorem mem_double {c : Char} {t : List Char} : c ∈ double t ↔ c ∈ t := by
  simp only [double, List.mem_flatMap]
  constructor
  · rintro ⟨d, hd, hc⟩
    by_cases hquote : d = '"'
    · simp only [hquote, if_true, List.mem_cons, List.not_mem_nil, or_false, or_self] at hc
      rwa [hc, ← hquote]
    · simp only [hquote, if_false, List.mem_singleton] at hc
      rwa [hc]
  · intro hc
    refine ⟨c, hc, ?_⟩
    by_cases hquote : c = '"' <;> simp [hquote]

variable (delimiter : Char)

theorem rowText_cons (field : List Char) (fields : List (List Char)) :
    rowText delimiter (field :: fields) =
      quoted field ++ fields.flatMap fun f => delimiter :: quoted f := by
  induction fields generalizing field with
  | nil => simp [rowText]
  | cons f fields ih =>
    have htail := ih f
    simp only [rowText, List.map_cons, List.flatMap_cons] at htail ⊢
    rw [List.intercalate_cons_cons, htail]
    simp

theorem exists_rowText_eq {row : List (List Char)} (h : row ≠ []) :
    ∃ t, rowText delimiter row = t ++ ['"'] := by
  obtain ⟨field, fields, rfl⟩ := List.exists_cons_of_ne_nil h
  rw [rowText_cons]
  rcases List.eq_nil_or_concat fields with rfl | ⟨front, last, rfl⟩
  · exact ⟨'"' :: double field, by simp [quoted]⟩
  · refine ⟨quoted field ++ (front.flatMap (fun f => delimiter :: quoted f) ++
      delimiter :: '"' :: double last), ?_⟩
    simp [quoted]

/-- Inside quotes a doubled quote is a quote. -/
theorem foldl_step_double (t : List Char) {p : Parse} (h : p.state = .inQuotedField) :
    (double t).foldl (Parse.step delimiter) p = { p with field := p.field ++ t } := by
  induction t generalizing p with
  | nil => simp
  | cons c t ih =>
    have hhead : (if c = '"' then ['"', '"'] else [c]).foldl (Parse.step delimiter) p =
        { p with field := p.field ++ [c] } := by
      by_cases hquote : c = '"'
      · simp [hquote, Parse.step, h, Parse.add]
      · simp [hquote, Parse.step, h, Parse.add]
    have htail := @ih { p with field := p.field ++ [c] } h
    rw [double_cons, List.foldl_append, hhead, htail]
    simp

/-- There are at most as many records as lines, and one more when a record is open. -/
theorem readRows_length_le (ls : List (List Char)) (p : Parse) :
    (readRows delimiter ls p).length ≤ ls.length + if p = .reset then 0 else 1 := by
  induction ls generalizing p with
  | nil =>
    rw [readRows]
    by_cases hreset : p = .reset
    · simp [hreset, Parse.reset]
    · split <;> simp
  | cons l ls ih =>
    rw [readRows]
    split
    · have hle := ih .reset
      simp only [if_true, Nat.add_zero] at hle
      simp only [List.length_cons]
      omega
    · have hle := ih (p.line delimiter l)
      have hone : (if p.line delimiter l = Parse.reset then 0 else 1) ≤ 1 := by split <;> omega
      simp only [List.length_cons]
      omega

end Yuanlei.Csv
