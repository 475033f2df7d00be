import Mathlib.Data.List.Basic
import Mathlib.Data.List.DropRight

/-!
# Python text primitives

The string methods of Python that the modelled code relies on where Lean's own
behave differently: white space is the Unicode class that `str.isspace`
tests, `str.strip` removes it at both ends, and `str.splitlines` cuts at more
characters than the newline.

Main results:

- `strip_strip`: stripping twice is stripping once.
- `splitLinesFrom_append`: the lines of a text that a newline joins.
-/

namespace PyText

/-- One proof for every search in a list of texts. -/
instance lawfulBEqChars : LawfulBEq (List Char) :=
  List.instLawfulBEq

/-- The code points that `str.isspace` accepts and `str.strip` removes. -/
def isSpace (c : Char) : Bool :=
  let n := c.toNat
  (9 ≤ n && n ≤ 13) || (28 ≤ n && n ≤ 32) || n == 0x85 || n == 0xA0 || n == 0x1680 ||
    (0x2000 ≤ n && n ≤ 0x200A) || n == 0x2028 || n == 0x2029 || n == 0x202F ||
    n == 0x205F || n == 0x3000

/-- `str.strip` on the characters of a string. -/
def stripChars (cs : List Char) : List Char :=
  ((cs.dropWhile isSpace).reverse.dropWhile isSpace).reverse

/-- `str.split` without a separator, on the characters of a string. -/
def words (cs : List Char) : List (List Char) :=
  (cs.splitOnP isSpace).filter fun w => !w.isEmpty

def strip (s : String) : String :=
  String.ofList (stripChars s.toList)

theorem stripChars_stripChars (cs : List Char) : stripChars (stripChars cs) = stripChars cs := by
  unfold stripChars
  generalize hleft : cs.dropWhile isSpace = left
  have hkeep : (left.rdropWhile isSpace).dropWhile isSpace = left.rdropWhile isSpace := by
    rw [List.dropWhile_eq_self_iff]
    intro hpos
    obtain ⟨rest, hrest⟩ := List.rdropWhile_prefix isSpace left
    have hself : left.dropWhile isSpace = left := by
      rw [← hleft, List.dropWhile_idempotent]
    have hlength : 0 < left.length := by
      rw [← hrest, List.length_append]
      omega
    have hhead := List.dropWhile_eq_self_iff.mp hself hlength
    have hsame : left[0] = (left.rdropWhile isSpace)[0] := by
      conv_lhs => rw [List.getElem_of_eq hrest.symm, List.getElem_append_left hpos]
    rw [← hsame]
    exact hhead
  calc
    (((left.rdropWhile isSpace).dropWhile isSpace).rdropWhile isSpace)
      = (left.rdropWhile isSpace).rdropWhile isSpace := by rw [hkeep]
    _ = left.rdropWhile isSpace := List.rdropWhile_idempotent isSpace left

@[simp]
theorem strip_strip (s : String) : strip (strip s) = strip s := by
  simp [strip, stripChars_stripChars]

/-- Stripping takes white space away at the two ends. -/
theorem exists_append_stripChars (t : List Char) :
    ∃ left right, (∀ c ∈ left, isSpace c) ∧ (∀ c ∈ right, isSpace c) ∧
      t = left ++ (stripChars t ++ right) := by
  refine ⟨t.takeWhile isSpace, (t.dropWhile isSpace).rtakeWhile isSpace, ?_, ?_, ?_⟩
  · exact fun c hc => List.mem_takeWhile_imp hc
  · exact fun c hc => List.mem_rtakeWhile_imp hc
  · have hright : stripChars t = (t.dropWhile isSpace).rdropWhile isSpace := rfl
    rw [hright, List.rdropWhile_append_rtakeWhile, List.takeWhile_append_dropWhile]

theorem stripChars_of_ends {first last : Char} (hfirst : isSpace first = false)
    (hlast : isSpace last = false) (t : List Char) :
    stripChars (first :: (t ++ [last])) = first :: (t ++ [last]) := by
  simp [stripChars, hfirst, hlast]

/-! ## Lines -/

/-- The characters at which `str.splitlines` ends a line. -/
def isLineBreak (c : Char) : Bool :=
  let n := c.toNat
  (10 ≤ n && n ≤ 13) || (28 ≤ n && n ≤ 30) || n == 0x85 || n == 0x2028 || n == 0x2029

/-- `str.splitlines` with the characters of the current line, the last one first. -/
def splitLinesFrom : List Char → List Char → List (List Char)
  | line, [] => if line = [] then [] else [line.reverse]
  | line, '\r' :: '\n' :: t => line.reverse :: splitLinesFrom [] t
  | line, c :: t =>
    if isLineBreak c then line.reverse :: splitLinesFrom [] t else splitLinesFrom (c :: line) t

/-- `str.splitlines`: no line after a final line break. -/
def splitLines (t : List Char) : List (List Char) :=
  splitLinesFrom [] t

/-- `str.splitlines` that keeps the line breaks. -/
def splitLinesKeependsFrom : List Char → List Char → List (List Char)
  | line, [] => if line = [] then [] else [line.reverse]
  | line, '\r' :: '\n' :: t =>
    ('\n' :: '\r' :: line).reverse :: splitLinesKeependsFrom [] t
  | line, c :: t =>
    if isLineBreak c then (c :: line).reverse :: splitLinesKeependsFrom [] t
    else splitLinesKeependsFrom (c :: line) t

theorem splitLinesFrom_newline (line t : List Char) :
    splitLinesFrom line ('\n' :: t) = line.reverse :: splitLinesFrom [] t := by
  simp [splitLinesFrom, isLineBreak]

variable {c : Char} {t : List Char} (line : List Char)

theorem splitLinesFrom_cons (h : c = '\r' → ∀ u, t ≠ '\n' :: u) :
    splitLinesFrom line (c :: t) =
      if isLineBreak c then line.reverse :: splitLinesFrom [] t
      else splitLinesFrom (c :: line) t := by
  rw [splitLinesFrom.eq_def]
  split
  · simp_all
  · simp_all
  · simp_all

theorem mem_splitLinesFrom_cons {line p : List Char} (h : p ∈ splitLinesFrom line (c :: t)) :
    isLineBreak c ∧ (p = line.reverse ∨ p ∈ splitLinesFrom [] t) ∨
      isLineBreak c = false ∧ p ∈ splitLinesFrom (c :: line) t := by
  by_cases hpair : c = '\r' ∧ ∃ u, t = '\n' :: u
  · obtain ⟨rfl, u, rfl⟩ := hpair
    simp only [splitLinesFrom, List.mem_cons] at h
    refine .inl ⟨by decide, h.imp_right fun hp => ?_⟩
    rw [splitLinesFrom_newline]
    exact List.mem_cons_of_mem _ hp
  · rw [splitLinesFrom_cons line fun hc u hu => hpair ⟨hc, u, hu⟩] at h
    split_ifs at h with hbreak
    · exact .inl ⟨hbreak, List.mem_cons.mp h⟩
    · exact .inr ⟨by simpa using hbreak, h⟩

theorem splitLinesFrom_append (line s t : List Char) : splitLinesFrom line (s ++ '\n' :: t) =
      splitLinesFrom line (s ++ ['\n']) ++ splitLinesFrom [] t := by
  fun_induction splitLinesFrom line s with
  | case1 => simp [splitLinesFrom_newline, splitLinesFrom]
  | case2 line hline => simp [splitLinesFrom_newline, splitLinesFrom]
  | case3 line s ih => simp [splitLinesFrom, ih]
  | case4 line c s hpair hbreak ih =>
    cases s with
    | nil =>
      by_cases hc : c = '\r'
      · subst hc
        simp [splitLinesFrom]
      · simp [splitLinesFrom_cons _ (fun h => absurd h hc), hbreak, splitLinesFrom_newline,
          splitLinesFrom]
    | cons d s =>
      have hcut : ∀ r, splitLinesFrom line (c :: (d :: s ++ r)) =
          line.reverse :: splitLinesFrom [] (d :: s ++ r) := by
        intro r
        rw [splitLinesFrom_cons, if_pos hbreak]
        rintro rfl u heq
        obtain ⟨rfl, -⟩ := List.cons.inj heq
        exact hpair s rfl rfl
      rw [List.cons_append (a := c), List.cons_append (a := c), hcut, hcut, ih]
      rfl
  | case5 line c s hpair hbreak ih =>
    have hne : c ≠ '\r' := by
      rintro rfl
      exact hbreak (by decide)
    rw [List.cons_append, List.cons_append, splitLinesFrom_cons _ (fun h => absurd h hne),
      splitLinesFrom_cons _ (fun h => absurd h hne), if_neg hbreak, if_neg hbreak, ih]

theorem splitLinesFrom_of_forall {s : List Char} (h : ∀ c ∈ s, isLineBreak c = false) :
    splitLinesFrom line (s ++ ['\n']) = [line.reverse ++ s] := by
  induction s generalizing line with
  | nil => simp [splitLinesFrom_newline, splitLinesFrom]
  | cons c s ih =>
    obtain ⟨hc, hs⟩ := List.forall_mem_cons.mp h
    have hne : c ≠ '\r' := by
      rintro rfl
      exact absurd hc (by decide)
    rw [List.cons_append, splitLinesFrom_cons _ (fun h => absurd h hne), hc]
    simp [ih (c :: line) hs]

end PyText
