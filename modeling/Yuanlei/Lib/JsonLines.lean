import Yuanlei.Lib.JsonReader
import Yuanlei.Lib.PyText

/-!
# JSON values on lines

A written value has line breaks only inside its strings, and of these only the three
separators that the writer leaves as they are.  Where `str.splitlines` cuts a written
value at one of them, the first piece ends inside a string and is no JSON text; a later
piece starts inside a string, so that what it can read as strings is the punctuation
between the strings of the value.

Main results:

- `Json.cut_of_mem_lines`: the lines of a value that has one are such pieces.
- `Json.loads_strip_cut`: no piece is read as a value with a separator.
-/

universe u

open PyText (isLineBreak isSpace stripChars splitLinesFrom)

namespace Json

variable {F : Type u}

/-! ## Separators -/

/-- The line breaks that the writer does not escape. -/
def isSeparator (c : Char) : Bool :=
  c.toNat == 0x85 || c.toNat == 0x2028 || c.toNat == 0x2029

variable {c : Char}

theorem isSeparator_of_not_lineBreak (h : isLineBreak c = false) :
    isSeparator c = false := by
  simp only [isLineBreak, Bool.or_eq_false_iff] at h
  simp only [isSeparator, h, Bool.or_self]

/-- A string without separators. -/
def Unbroken (s : String) : Prop :=
  ∀ c ∈ s.toList, isSeparator c = false

/-- A character that can stand between the strings of a written value. -/
def Bare (c : Char) : Prop :=
  Plain c ∧ isLineBreak c = false

instance : DecidablePred Bare := fun c =>
  inferInstanceAs (Decidable (Plain c ∧ isLineBreak c = false))

theorem bare_of_isDigit (h : c.isDigit) : Bare c := by
  refine ⟨⟨ne_of_isDigit h (by decide), ne_of_isDigit h (by decide)⟩, ?_⟩
  simp only [Char.isDigit, Bool.and_eq_true, decide_eq_true_eq, ge_iff_le, UInt32.le_iff_toNat_le]
    at h
  have hle : 48 ≤ c.toNat ∧ c.toNat ≤ 57 := h
  simp only [isLineBreak, Bool.or_eq_false_iff, Bool.and_eq_false_iff, decide_eq_false_iff_not,
    beq_eq_false_iff_ne]
  omega

theorem Digits.bare {ds : List Char} (h : Digits ds) : ∀ c ∈ ds, Bare c :=
  fun c hc => bare_of_isDigit (h.2 c hc)

theorem sign_bare {sign : List Char} (h : sign = [] ∨ sign = ['-'] ∨ sign = ['+']) :
    ∀ c ∈ sign, Bare c := by
  rcases h with rfl | rfl | rfl <;> decide

variable {t : List Char}

theorem FloatShape.bare (h : FloatShape t) : ∀ c ∈ t, Bare c := by
  cases h with
  | nan => decide
  | infinity => decide
  | negInfinity => decide
  | @finite sign whole frac exp hsign hwhole hfrac hexp hfloat =>
    have hfracBare : ∀ c ∈ frac, Bare c := by
      rcases hfrac with rfl | ⟨ds, hds, rfl⟩
      · exact List.forall_mem_nil _
      · exact List.forall_mem_cons.mpr ⟨by decide, hds.bare⟩
    have hexpBare : ∀ c ∈ exp, Bare c := by
      rcases hexp with rfl | ⟨e, s, ds, he, hs, hds, rfl⟩
      · exact List.forall_mem_nil _
      · refine List.forall_mem_cons.mpr ⟨?_, ?_⟩
        · rcases he with rfl | rfl <;> decide
        · exact List.forall_mem_append.mpr ⟨sign_bare hs, hds.bare⟩
    have hsignBare := sign_bare (hsign.imp_right .inl)
    simp only [List.forall_mem_append]
    exact ⟨⟨⟨hsignBare, hwhole.digits.bare⟩, hfracBare⟩, hexpBare⟩

theorem intText_bare (i : Int) : ∀ c ∈ intText i, Bare c := by
  obtain ⟨sign, hsign, htext, -⟩ := intText_eq i
  rw [htext]
  exact List.forall_mem_append.mpr
    ⟨sign_bare (hsign.imp_right .inl), (intPart_toDigits i.natAbs).digits.bare⟩

theorem hexDigit_bare : ∀ n < 16, Bare (hexDigit n) := by
  decide

theorem escapeChar_unbroken_iff (c : Char) :
    (∀ d ∈ escapeChar c, isLineBreak d = false) ↔ isSeparator c = false := by
  unfold escapeChar
  split_ifs with h₁ h₂ h₃ h₄ h₅ h₆ h₇ h₈
  all_goals try (subst_vars; decide)
  · have hhigh := (hexDigit_bare (c.toNat / 16) (by omega)).2
    have hlow := (hexDigit_bare (c.toNat % 16) (by omega)).2
    have hnot : isSeparator c = false := by
      simp only [isSeparator, Bool.or_eq_false_iff, beq_eq_false_iff_ne]
      omega
    simp only [hnot, List.forall_mem_cons, hhigh, hlow]
    decide
  · have hctrl : ¬ (10 ≤ c.toNat ∧ c.toNat ≤ 13) ∧ ¬ (28 ≤ c.toNat ∧ c.toNat ≤ 30) := by omega
    simp only [List.forall_mem_singleton, isLineBreak, isSeparator, Bool.or_eq_false_iff,
      Bool.and_eq_false_iff, decide_eq_false_iff_not, beq_eq_false_iff_ne]
    omega

theorem dumpStr_unbroken_iff (s : String) :
    (∀ c ∈ dumpStr s, isLineBreak c = false) ↔ Unbroken s := by
  have hquote : isLineBreak '"' = false := by decide
  rw [dumpStr, List.forall_mem_cons, List.forall_mem_append, List.forall_mem_singleton]
  simp only [hquote, true_and, and_true, List.mem_flatMap, forall_exists_index, and_imp]
  constructor
  · intro h c hc
    exact (escapeChar_unbroken_iff c).mp fun d hd => h d c hc hd
  · intro h d c hc hd
    exact (escapeChar_unbroken_iff c).mpr (h c hc) d hd

/-! ## Pieces of a written value -/

/-- A text of string literals, listed, with characters between them that need no escape. -/
inductive Written : List Char → List String → Prop where
  | nil : Written [] []
  | bare {c : Char} {t : List Char} {ss : List String} (hc : Bare c) (h : Written t ss) :
      Written (c :: t) ss
  | str {t : List Char} {ss : List String} (s : String) (h : Written t ss) :
      Written (dumpStr s ++ t) (s :: ss)

theorem Written.append {t' : List Char} {ss ss' : List String} (h : Written t ss)
    (h' : Written t' ss') : Written (t ++ t') (ss ++ ss') := by
  induction h with
  | nil => exact h'
  | bare hc h ih => exact .bare hc ih
  | str s h ih =>
    rw [List.append_assoc]
    exact .str s ih

theorem Written.of_bare (ht : ∀ c ∈ t, Bare c) : Written t [] := by
  induction t with
  | nil => exact .nil
  | cons c t ih => exact .bare (ht c List.mem_cons_self) (ih fun d hd => ht d (.tail _ hd))

mutual

/-- A written value lists its strings. -/
theorem dump_written (text : FloatText F) : ∀ v : Json F, ∃ ss, Written (dump text v) ss ∧
    ∀ P, v.AllStrings P ↔ ∀ s ∈ ss, P s
  | null => ⟨[], by rw [dump]; exact .of_bare (by decide), by simp [AllStrings]⟩
  | bool true => ⟨[], by rw [dump]; exact .of_bare (by decide), by simp [AllStrings]⟩
  | bool false => ⟨[], by rw [dump]; exact .of_bare (by decide), by simp [AllStrings]⟩
  | int i => ⟨[], by rw [dump]; exact .of_bare (intText_bare i), by simp [AllStrings]⟩
  | float x => ⟨[], by rw [dump]; exact .of_bare (text.shape x).bare, by simp [AllStrings]⟩
  | str s => by
    refine ⟨[s], ?_, by simp [AllStrings]⟩
    rw [dump, ← List.append_nil (dumpStr s)]
    exact .str s .nil
  | arr [] => ⟨[], by rw [dump]; exact .of_bare (by decide), by simp [AllStrings, AllStringsItems]⟩
  | arr (v :: vs) => by
    obtain ⟨ss, hv, hss⟩ := dump_written text v
    obtain ⟨ss', hvs, hss'⟩ := dumpItems_written text vs
    refine ⟨ss ++ ss', ?_, fun P => ?_⟩
    · rw [dump]
      exact .bare (by decide) (hv.append hvs)
    · rw [AllStrings, AllStringsItems, hss, hss', List.forall_mem_append]
  | obj [] => ⟨[], by rw [dump]; exact .of_bare (by decide), by simp [AllStrings, AllStringsFields]⟩
  | obj ((k, v) :: fs) => by
    obtain ⟨ss, hv, hss⟩ := dump_written text v
    obtain ⟨ss', hfs, hss'⟩ := dumpFields_written text fs
    refine ⟨k :: (ss ++ ss'), ?_, fun P => ?_⟩
    · rw [dump]
      exact .bare (by decide) (.str k (.bare (by decide) (.bare (by decide) (hv.append hfs))))
    · rw [AllStrings, AllStringsFields, hss, hss', List.forall_mem_cons, List.forall_mem_append]

theorem dumpItems_written (text : FloatText F) : ∀ vs : List (Json F),
    ∃ ss, Written (dumpItems text vs) ss ∧ ∀ P, AllStringsItems P vs ↔ ∀ s ∈ ss, P s
  | [] => ⟨[], by rw [dumpItems]; exact .of_bare (by decide), by simp [AllStringsItems]⟩
  | v :: vs => by
    obtain ⟨ss, hv, hss⟩ := dump_written text v
    obtain ⟨ss', hvs, hss'⟩ := dumpItems_written text vs
    refine ⟨ss ++ ss', ?_, fun P => ?_⟩
    · rw [dumpItems]
      exact .bare (by decide) (.bare (by decide) (hv.append hvs))
    · rw [AllStringsItems, hss, hss', List.forall_mem_append]

theorem dumpFields_written (text : FloatText F) : ∀ fs : List (String × Json F),
    ∃ ss, Written (dumpFields text fs) ss ∧ ∀ P, AllStringsFields P fs ↔ ∀ s ∈ ss, P s
  | [] => ⟨[], by rw [dumpFields]; exact .of_bare (by decide), by simp [AllStringsFields]⟩
  | (k, v) :: fs => by
    obtain ⟨ss, hv, hss⟩ := dump_written text v
    obtain ⟨ss', hfs, hss'⟩ := dumpFields_written text fs
    refine ⟨k :: (ss ++ ss'), ?_, fun P => ?_⟩
    · rw [dumpFields]
      exact .bare (by decide) (.bare (by decide)
        (.str k (.bare (by decide) (.bare (by decide) (hv.append hfs)))))
    · rw [AllStringsFields, hss, hss', List.forall_mem_cons, List.forall_mem_append]

end

theorem dump_unbroken_iff (text : FloatText F) (v : Json F) :
    (∀ c ∈ dump text v, isLineBreak c = false) ↔ v.AllStrings Unbroken := by
  obtain ⟨ss, hwritten, hss⟩ := dump_written text v
  rw [hss]
  clear hss
  generalize dump text v = u at hwritten ⊢
  induction hwritten with
  | nil => simp
  | bare hc h ih => rw [List.forall_mem_cons, ih, and_iff_right hc.2]
  | str s h ih => rw [List.forall_mem_append, List.forall_mem_cons, ih, dumpStr_unbroken_iff]

/-- The writer escapes newlines. -/
theorem newline_not_mem_dump (text : FloatText F) (v : Json F) : '\n' ∉ dump text v := by
  have hescape : ∀ c, '\n' ∉ escapeChar c := by
    intro c hd
    unfold escapeChar at hd
    split_ifs at hd with h₁ h₂ h₃
    all_goals try exact absurd hd (by decide)
    · have hhigh := (hexDigit_bare (c.toNat / 16) (by omega)).2
      have hlow := (hexDigit_bare (c.toNat % 16) (by omega)).2
      simp only [List.mem_cons, List.not_mem_nil, or_false] at hd
      rcases hd with hd | hd | hd | hd | hd | hd
      · cases hd
      · cases hd
      · cases hd
      · cases hd
      · rw [← hd] at hhigh
        cases hhigh
      · rw [← hd] at hlow
        cases hlow
    · exact h₃ (List.mem_singleton.mp hd).symm
  obtain ⟨ss, hwritten, -⟩ := dump_written text v
  generalize dump text v = u at hwritten ⊢
  induction hwritten with
  | nil => exact List.not_mem_nil
  | bare hc h ih =>
    refine List.not_mem_cons_of_ne_of_not_mem ?_ ih
    rintro rfl
    exact absurd hc (by decide)
  | str s h ih => simpa [dumpStr, ih] using fun c _ => hescape c

/-! ## Quotes -/

/-- Where a text stands with respect to its string literals. -/
inductive Scan where
  | outside
  | inside
  | escaped
deriving DecidableEq

namespace Scan

/-- One character: outside its strings a written value has no backslash and no line break. -/
def step : Scan → Char → Option Scan
  | outside, c =>
    if c = '"' then some inside
    else if c = '\\' ∨ isLineBreak c then none
    else some outside
  | inside, c =>
    if c = '"' then some outside else if c = '\\' then some escaped else some inside
  | escaped, _ => some inside

def run (s : Scan) : List Char → Option Scan
  | [] => some s
  | c :: t => (s.step c).bind fun s' => s'.run t

variable {c : Char} {s : Scan}

theorem step_of_run {t : List Char} (h : (s.run (c :: t)).isSome) :
    ∃ s', s.step c = some s' ∧ (s'.run t).isSome := by
  rw [run] at h
  cases hstep : s.step c with
  | none => simp [hstep] at h
  | some s' => exact ⟨s', rfl, by simpa [hstep] using h⟩

theorem run_append (s : Scan) (t r : List Char) :
    s.run (t ++ r) = (s.run t).bind fun s' => s'.run r := by
  induction t generalizing s with
  | nil => rfl
  | cons c t ih =>
    simp only [List.cons_append, run]
    cases s.step c with
    | none => rfl
    | some s' => simp only [Option.bind_some, ih]

theorem run_outside_cons (h : Bare c) (t : List Char) : outside.run (c :: t) = outside.run t := by
  obtain ⟨⟨hquote, hslash⟩, hbreak⟩ := h
  simp [run, step, hquote, hslash, hbreak]

theorem run_inside_cons (h : Plain c) (t : List Char) : inside.run (c :: t) = inside.run t := by
  simp [run, step, h.1, h.2]

theorem run_inside_plain {pre : List Char} (h : ∀ c ∈ pre, Plain c) (t : List Char) :
    inside.run (pre ++ t) = inside.run t := by
  induction pre with
  | nil => rfl
  | cons c pre ih =>
    obtain ⟨hc, hpre⟩ := List.forall_mem_cons.mp h
    rw [List.cons_append, run_inside_cons hc, ih hpre]

theorem run_inside_escape (x : Char) (t : List Char) :
    inside.run ('\\' :: x :: t) = inside.run t := by
  simp [run, step]

theorem run_escapeChar (c : Char) (t : List Char) :
    inside.run (escapeChar c ++ t) = inside.run t := by
  unfold escapeChar
  split_ifs with h₁ h₂ h₃ h₄ h₅ h₆ h₇ h₈
  all_goals try exact run_inside_escape _ t
  · have hhigh := (hexDigit_bare (c.toNat / 16) (by omega)).1
    have hlow := (hexDigit_bare (c.toNat % 16) (by omega)).1
    have hzero : Plain '0' := by decide
    refine (run_inside_escape 'u' _).trans ?_
    exact @run_inside_plain ['0', '0', _, _] (by simp [hhigh, hlow, hzero]) t
  · exact run_inside_cons ⟨h₁, h₂⟩ t

theorem run_dumpStr (s : String) (t : List Char) :
    outside.run (dumpStr s ++ t) = outside.run t := by
  have hgo : ∀ cs : List Char, inside.run (cs.flatMap escapeChar ++ '"' :: t) = outside.run t := by
    intro cs
    induction cs with
    | nil => simp [run, step]
    | cons c cs ih => rw [List.flatMap_cons, List.append_assoc, run_escapeChar, ih]
  have hopen : outside.run ('"' :: (s.toList.flatMap escapeChar ++ '"' :: t)) =
      inside.run (s.toList.flatMap escapeChar ++ '"' :: t) := by
    simp [run, step]
  simp only [dumpStr, List.cons_append, List.append_assoc, List.nil_append]
  rw [hopen, hgo]

/-- A written value leaves the text outside its strings. -/
theorem run_dump (text : FloatText F) (v : Json F) (t : List Char) :
    outside.run (dump text v ++ t) = outside.run t := by
  obtain ⟨ss, hwritten, -⟩ := dump_written text v
  generalize dump text v = u at hwritten ⊢
  induction hwritten with
  | nil => rfl
  | bare hc h ih => rw [List.cons_append, run_outside_cons hc, ih]
  | str s h ih => rw [List.append_assoc, run_dumpStr, ih]

theorem step_lineBreak {s' : Scan} (hbreak : isLineBreak c)
    (h : s.step c = some s') : s ≠ outside ∧ s' = inside := by
  have hquote : c ≠ '"' := by
    rintro rfl
    exact absurd hbreak (by decide)
  have hslash : c ≠ '\\' := by
    rintro rfl
    exact absurd hbreak (by decide)
  cases s with
  | outside => simp [step, hquote, hbreak] at h
  | inside =>
    simp only [step, if_neg hquote, if_neg hslash, Option.some.injEq] at h
    exact ⟨by decide, h.symm⟩
  | escaped => exact ⟨by decide, (Option.some.inj h).symm⟩

end Scan

/-! ## Reading -/

open Scan (outside inside escaped)

variable {s r : List Char}

theorem ReadsString.run_inside (h : ReadsString t s r) :
    inside.run t = outside.run r := by
  induction h with
  | quote r => simp [Scan.run, Scan.step]
  | plain hc h ih => rw [Scan.run_inside_cons hc, ih]
  | escape hdigits h ih => rw [Scan.run_inside_escape, Scan.run_inside_plain hdigits, ih]
  | surrogates hdigits hdigits' h ih =>
    rw [Scan.run_inside_escape, Scan.run_inside_plain hdigits, Scan.run_inside_escape,
      Scan.run_inside_plain hdigits', ih]

theorem ReadsString.run_outside (h : ReadsString t s r) (hrun : (outside.run t).isSome) :
    outside.run t = inside.run r ∧ ∀ c ∈ s, isLineBreak c = false := by
  induction h with
  | quote r => exact ⟨by simp [Scan.run, Scan.step], List.forall_mem_nil _⟩
  | @plain c t s r hc h ih =>
    by_cases hbreak : isLineBreak c
    · simp [Scan.run, Scan.step, hc.1, hbreak] at hrun
    · have hbare : Bare c := ⟨hc, by simpa using hbreak⟩
      rw [Scan.run_outside_cons hbare] at hrun ⊢
      exact ⟨(ih hrun).1, List.forall_mem_cons.mpr ⟨hbare.2, (ih hrun).2⟩⟩
  | escape hdigits h ih => simp [Scan.run, Scan.step] at hrun
  | surrogates hdigits hdigits' h ih => simp [Scan.run, Scan.step] at hrun

variable {s : Scan}

theorem run_outside_of_plain (c : Char) (t : List Char) (hc : Plain c)
    (h : outside.run (c :: t) = some s) : outside.run t = some s := by
  by_cases hbreak : isLineBreak c
  · simp [Scan.run, Scan.step, hc.1, hbreak] at h
  · rwa [Scan.run_outside_cons ⟨hc, by simpa using hbreak⟩] at h

theorem run_inside_of_plain (c : Char) (t : List Char) (hc : Plain c)
    (h : (inside.run (c :: t)).isSome) : (inside.run t).isSome := by
  rwa [Scan.run_inside_cons hc] at h

variable {text : FloatText F} {v : Json F}

theorem loads_outside (h : loads text t = some v) (hrun : outside.run t = some s) : s = outside := by
  unfold loads at h
  split_ifs at h
  split at h
  · cases h
  · rename_i v' r hvalue
    split_ifs at h with hend
    have hskip := inv_skipWs (I := fun t => outside.run t = some s) run_outside_of_plain hrun
    have hrest := (inv_parse (I := fun t => outside.run t = some s) (P := fun _ => True)
      run_outside_of_plain (fun t' s' r' h' hs' => by
        refine ⟨?_, trivial⟩
        rw [← (parseString_reads hs').run_inside, ← h']
        simp [Scan.run, Scan.step]) text _).1 hskip hvalue
    have hnil := inv_skipWs (I := fun t => outside.run t = some s) run_outside_of_plain hrest.1
    rw [hend] at hnil
    exact (Option.some.inj hnil).symm

theorem loads_inside (h : loads text t = some v) (hrun : (inside.run t).isSome) : v.AllStrings Unbroken := by
  unfold loads at h
  split_ifs at h
  split at h
  · cases h
  · rename_i v' r hvalue
    split_ifs at h
    cases h
    have hskip := inv_skipWs (I := fun t => (inside.run t).isSome) run_inside_of_plain hrun
    refine ((inv_parse (I := fun t => (inside.run t).isSome) run_inside_of_plain ?_ text _).1
      hskip hvalue).2
    intro t' s' r' h' hs'
    have hopen : inside.run ('"' :: t') = outside.run t' := by simp [Scan.run, Scan.step]
    rw [hopen] at h'
    obtain ⟨hrest, hchars⟩ := (parseString_reads hs').run_outside h'
    refine ⟨by rwa [← hrest], ?_⟩
    intro c hc
    exact isSeparator_of_not_lineBreak (hchars c (by simpa using hc))

/-! ## Lines -/

/-- A piece of a written value that was cut inside a string. -/
def Cut (p : List Char) : Prop :=
  (∃ s, outside.run p = some s ∧ s ≠ outside) ∨ (inside.run p).isSome

variable {p : List Char} (line : List Char)

theorem run_inside_of_mem_lines (hline : inside.run line.reverse = some s) (ht : (s.run t).isSome)
    (hp : p ∈ splitLinesFrom line (t ++ ['\n'])) : (inside.run p).isSome := by
  induction t generalizing line s with
  | nil =>
    rw [List.nil_append, PyText.splitLinesFrom_newline] at hp
    simp only [splitLinesFrom, if_true, List.mem_singleton] at hp
    rw [hp, hline]
    rfl
  | cons c t ih =>
    obtain ⟨s', hstep, hrest⟩ := Scan.step_of_run ht
    rcases PyText.mem_splitLinesFrom_cons hp with ⟨hbreak, rfl | hmem⟩ | ⟨hbreak, hmem⟩
    · rw [hline]
      rfl
    · obtain ⟨-, rfl⟩ := Scan.step_lineBreak hbreak hstep
      exact ih [] rfl hrest hmem
    · refine ih (c :: line) ?_ hrest hmem
      rw [List.reverse_cons, Scan.run_append, hline]
      simp [Scan.run, hstep]

theorem cut_of_mem_lines (hline : outside.run line.reverse = some s) (ht : (s.run t).isSome)
    (hbroken : ∃ c ∈ t, isLineBreak c) (hp : p ∈ splitLinesFrom line (t ++ ['\n'])) : Cut p := by
  induction t generalizing line s with
  | nil => simp at hbroken
  | cons c t ih =>
    obtain ⟨s', hstep, hrest⟩ := Scan.step_of_run ht
    rcases PyText.mem_splitLinesFrom_cons hp with ⟨hbreak, rfl | hmem⟩ | ⟨hbreak, hmem⟩
    · exact .inl ⟨s, hline, (Scan.step_lineBreak hbreak hstep).1⟩
    · obtain ⟨-, rfl⟩ := Scan.step_lineBreak hbreak hstep
      exact .inr (run_inside_of_mem_lines [] rfl hrest hmem)
    · refine ih (c :: line) ?_ hrest ?_ hmem
      · rw [List.reverse_cons, Scan.run_append, hline]
        simp [Scan.run, hstep]
      · obtain ⟨d, hd, hdbreak⟩ := hbroken
        rcases List.mem_cons.mp hd with rfl | hd
        · rw [hbreak] at hdbreak
          cases hdbreak
        · exact ⟨d, hd, hdbreak⟩

theorem plain_of_isSpace (h : isSpace c) : Plain c := by
  refine ⟨?_, ?_⟩
  · rintro rfl
    exact absurd h (by decide)
  · rintro rfl
    exact absurd h (by decide)

/-- No piece is read as a value with a separator. -/
theorem loads_strip_cut (hcut : Cut p)
    (h : loads text (stripChars p) = some v) : v.AllStrings Unbroken := by
  obtain ⟨left, right, hleft, hright, heq⟩ := PyText.exists_append_stripChars p
  have hleftPlain : ∀ c ∈ left, Plain c := fun c hc => plain_of_isSpace (hleft c hc)
  have hrightPlain : ∀ c ∈ right, Plain c := fun c hc => plain_of_isSpace (hright c hc)
  rcases hcut with ⟨s, hrun, hs⟩ | hrun
  · rw [heq] at hrun
    have hstrip := inv_append (I := fun t => outside.run t = some s) run_outside_of_plain _
      hleftPlain hrun
    simp only [Scan.run_append] at hstrip
    obtain ⟨s', hs', hend⟩ := Option.bind_eq_some_iff.mp hstrip
    -- What was stripped at the end does not leave a string.
    cases loads_outside h hs'
    have hnil := inv_append (I := fun t => outside.run t = some s) run_outside_of_plain _
      hrightPlain (t := []) (by simpa using hend)
    exact absurd (Option.some.inj hnil).symm hs
  · rw [heq, Scan.run_inside_plain hleftPlain, Scan.run_append] at hrun
    refine loads_inside h ?_
    cases hstrip : inside.run (stripChars p) with
    | none => simp [hstrip] at hrun
    | some s => rfl

end Json
