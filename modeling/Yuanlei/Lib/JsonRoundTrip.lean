import Yuanlei.Lib.Json
import Mathlib.Data.List.TakeWhile

/-!
# The round trip of JSON text

The reader undoes the writer on every value whose objects have distinct keys.  The
proof goes along the grammar: the string reader undoes the escapes, the number
reader stops where a written number stops, and the value reader follows the
recursion of the writer with enough of its bound left.

Main results:

- `Json.parseString_flatMap`: the string reader undoes the escapes.
- `Json.loads_dump`: reading what was written gives the value back.
-/

universe u

namespace Json

variable {F : Type u}

/-! ## Strings -/

theorem hexVal_hexDigit : ∀ n < 16, hexVal (hexDigit n) = some n := by
  decide

variable {c : Char}

theorem parseString_control (h : c.toNat < 32) (t : List Char) :
    parseString ('\\' :: 'u' :: '0' :: '0' :: hexDigit (c.toNat / 16) :: hexDigit (c.toNat % 16) ::
      t) = (parseString t).map fun e => (c :: e.1, e.2) := by
  have hhigh := hexVal_hexDigit (c.toNat / 16) (by omega)
  have hlow := hexVal_hexDigit (c.toNat % 16) (by omega)
  have hcode : hex4 '0' '0' (hexDigit (c.toNat / 16)) (hexDigit (c.toNat % 16)) = some c.toNat := by
    have hzero : hexVal '0' = some 0 := by decide
    simp only [hex4, hzero, hhigh, hlow, Option.some.injEq]
    omega
  rw [parseString]
  simp only [hcode]
  rw [if_neg (by omega), if_neg (by omega), Char.ofNat_toNat]

theorem parseString_raw (hquote : c ≠ '"') (hslash : c ≠ '\\') (h : ¬ c.toNat < 32)
    (t : List Char) : parseString (c :: t) = (parseString t).map fun e => (c :: e.1, e.2) := by
  rw [parseString.eq_def]
  split
  · simp_all
  · simp_all
  · simp_all
  · simp_all
  · rename_i heq
    obtain ⟨rfl, rfl⟩ := List.cons.inj heq
    rw [if_neg (by simp [hslash]; omega)]

/-- Reading an escaped character gives the character back. -/
theorem parseString_escapeChar (c : Char) (t : List Char) :
    parseString (escapeChar c ++ t) = (parseString t).map fun e => (c :: e.1, e.2) := by
  unfold escapeChar
  split_ifs with h₁ h₂ h₃ h₄ h₅ h₆ h₇ h₈
  · subst h₁
    simp [parseString, simpleEscape]
  · subst h₂
    simp [parseString, simpleEscape]
  · subst h₃
    simp [parseString, simpleEscape]
  · subst h₄
    simp [parseString, simpleEscape]
  · subst h₅
    simp [parseString, simpleEscape]
  · subst h₆
    simp [parseString, simpleEscape]
  · subst h₇
    simp [parseString, simpleEscape]
  · exact parseString_control h₈ t
  · exact parseString_raw h₁ h₂ h₈ t

theorem parseString_flatMap {escape : Char → List Char} (h : ∀ c t,
    parseString (escape c ++ t) = (parseString t).map fun e => (c :: e.1, e.2))
    (cs r : List Char) : parseString (cs.flatMap escape ++ '"' :: r) = some (cs, r) := by
  induction cs with
  | nil => simp [parseString]
  | cons c cs ih =>
    rw [List.flatMap_cons, List.append_assoc, h, ih]
    rfl

/-! ## Numbers -/

/-- What follows is not part of a number. -/
def NumberEnd (r : List Char) : Prop :=
  ∀ c t, r = c :: t → c.isDigit = false ∧ c ≠ '.' ∧ c ≠ 'e' ∧ c ≠ 'E'

theorem numberEnd_nil : NumberEnd [] := by
  intro c t h
  cases h

theorem numberEnd_cons (h : c.isDigit = false ∧ c ≠ '.' ∧ c ≠ 'e' ∧ c ≠ 'E')
    (t : List Char) : NumberEnd (c :: t) := by
  rintro c' t' ⟨⟩
  exact h

variable {ds r : List Char}

theorem takeDigits_append (hds : Digits ds)
    (hr : ∀ c t, r = c :: t → c.isDigit = false) : takeDigits (ds ++ r) = some (ds, r) := by
  have hstop : r.takeWhile Char.isDigit = [] ∧ r.dropWhile Char.isDigit = r := by
    cases r with
    | nil => simp
    | cons c t => simp [hr c t rfl]
  unfold takeDigits
  rw [List.takeWhile_append_of_pos hds.2, List.dropWhile_append_of_pos hds.2, hstop.1, hstop.2,
    List.append_nil, if_neg hds.1]

theorem takeInt_append (hds : IntPart ds)
    (hr : ∀ c t, r = c :: t → c.isDigit = false) : takeInt (ds ++ r) = some (ds, r) := by
  rcases hds with rfl | ⟨hdigits, hhead⟩
  · rfl
  · rw [← takeDigits_append hdigits hr]
    obtain ⟨c, cs, rfl⟩ := List.exists_cons_of_ne_nil hdigits.1
    rw [List.cons_append, takeInt.eq_def]
    split
    · simp_all
    · rfl

theorem takeFrac_of_end (hr : ∀ c t, r = c :: t → c ≠ '.') : takeFrac r = ([], r) := by
  unfold takeFrac
  split
  · exact absurd rfl (hr _ _ rfl)
  · rfl

variable {frac : List Char}

theorem takeFrac_append (hfrac : frac = [] ∨ ∃ ds, Digits ds ∧ frac = '.' :: ds)
    (hr : ∀ c t, r = c :: t → c.isDigit = false ∧ c ≠ '.') :
    takeFrac (frac ++ r) = (frac, r) := by
  rcases hfrac with rfl | ⟨ds, hds, rfl⟩
  · exact takeFrac_of_end fun c t h => (hr c t h).2
  · simp [takeFrac, takeDigits_append hds fun c t h => (hr c t h).1]

theorem takeExp_of_end (hr : ∀ c t, r = c :: t → c ≠ 'e' ∧ c ≠ 'E') : takeExp r = ([], r) := by
  cases r with
  | nil => rfl
  | cons c t => simp [takeExp, hr c t rfl]

variable {exp : List Char}

theorem takeExp_append
    (hexp : exp = [] ∨ ∃ e s ds, (e = 'e' ∨ e = 'E') ∧ (s = [] ∨ s = ['-'] ∨ s = ['+']) ∧
      Digits ds ∧ exp = e :: (s ++ ds))
    (hr : NumberEnd r) : takeExp (exp ++ r) = (exp, r) := by
  rcases hexp with rfl | ⟨e, s, ds, he, hs, hds, rfl⟩
  · exact takeExp_of_end fun c t h => (hr c t h).2.2
  · have hsign : takeSign (s ++ ds ++ r) = (s, ds ++ r) := by
      rcases hs with rfl | rfl | rfl
      · obtain ⟨c, cs, rfl⟩ := List.exists_cons_of_ne_nil hds.1
        have hdigit := hds.2 c List.mem_cons_self
        rw [List.nil_append, List.cons_append, takeSign.eq_def]
        split
        · simp_all
        · simp_all
        · rfl
      · rfl
      · rfl
    simp only [List.cons_append, takeExp, if_pos he, hsign,
      takeDigits_append hds fun c t h => (hr c t h).1]


variable {sign : List Char}

theorem takeMinus_append {t : List Char} (hsign : sign = [] ∨ sign = ['-'])
    (ht : ∀ c u, t = c :: u → c ≠ '-') : takeMinus (sign ++ t) = (sign, t) := by
  rcases hsign with rfl | rfl
  · unfold takeMinus
    split
    · rename_i u heq
      exact absurd rfl (ht _ u heq)
    · rfl
  · rfl

theorem Digits.head (h : Digits ds) (r : List Char) {u : List Char}
    (heq : ds ++ r = c :: u) : c.isDigit := by
  obtain ⟨d, ds', rfl⟩ := List.exists_cons_of_ne_nil h.1
  obtain ⟨rfl, -⟩ := List.cons.inj heq
  exact h.2 _ List.mem_cons_self

theorem IntPart.digits (h : IntPart ds) : Digits ds := by
  rcases h with rfl | ⟨h, -⟩
  · exact ⟨by simp, by simp⟩
  · exact h

theorem ne_of_isDigit {d : Char} (h : c.isDigit) (hd : d.isDigit = false) : c ≠ d := by
  rintro rfl
  rw [h] at hd
  cases hd

/-- What comes after the integer part is no digit. -/
theorem frac_exp_end (hfrac : frac = [] ∨ ∃ ds, Digits ds ∧ frac = '.' :: ds)
    (hexp : exp = [] ∨ ∃ e s ds, (e = 'e' ∨ e = 'E') ∧ (s = [] ∨ s = ['-'] ∨ s = ['+']) ∧
      Digits ds ∧ exp = e :: (s ++ ds)) (hr : NumberEnd r) :
    (∀ c t, exp ++ r = c :: t → c.isDigit = false ∧ c ≠ '.') ∧
      ∀ c t, frac ++ (exp ++ r) = c :: t → c.isDigit = false := by
  have hexpEnd : ∀ c t, exp ++ r = c :: t → c.isDigit = false ∧ c ≠ '.' := by
    intro c t heq
    rcases hexp with rfl | ⟨e, s, ds, he, -, -, rfl⟩
    · exact ⟨(hr c t heq).1, (hr c t heq).2.1⟩
    · obtain ⟨rfl, -⟩ := List.cons.inj heq
      rcases he with rfl | rfl <;> decide
  refine ⟨hexpEnd, ?_⟩
  intro c t heq
  rcases hfrac with rfl | ⟨ds, -, rfl⟩
  · exact (hexpEnd c t heq).1
  · obtain ⟨rfl, -⟩ := List.cons.inj heq
    decide

variable {whole : List Char} (text : FloatText F)

theorem parseNumber_append (hsign : sign = [] ∨ sign = ['-']) (hwhole : IntPart whole)
    (hfrac : frac = [] ∨ ∃ ds, Digits ds ∧ frac = '.' :: ds)
    (hexp : exp = [] ∨ ∃ e s ds, (e = 'e' ∨ e = 'E') ∧ (s = [] ∨ s = ['-'] ∨ s = ['+']) ∧
      Digits ds ∧ exp = e :: (s ++ ds)) (hr : NumberEnd r) :
    parseNumber text (sign ++ whole ++ frac ++ exp ++ r) =
      if frac = [] ∧ exp = [] then some (int (intVal sign whole), r)
      else some (float (text.parse (sign ++ whole ++ frac ++ exp)), r) := by
  obtain ⟨hexpEnd, hfracEnd⟩ := frac_exp_end hfrac hexp hr
  have hminus : takeMinus (sign ++ (whole ++ (frac ++ (exp ++ r)))) =
      (sign, whole ++ (frac ++ (exp ++ r))) :=
    takeMinus_append hsign fun c u heq =>
      ne_of_isDigit (hwhole.digits.head _ heq) (by decide)
  simp only [List.append_assoc, parseNumber, hminus, takeInt_append hwhole hfracEnd,
    takeFrac_append hfrac hexpEnd, takeExp_append hexp hr]

theorem head_toDigits_ne_zero {n : Nat} (hn : n ≠ 0) : (Nat.toDigits 10 n).head? ≠ some '0' := by
  induction n using Nat.strongRecOn with
  | ind n ih =>
    by_cases hlt : n < 10
    · rw [Nat.toDigits_of_lt_base hlt]
      have hall : ∀ m < 10, m ≠ 0 → m.digitChar ≠ '0' := by decide
      simpa using hall n hlt hn
    · rw [Nat.toDigits_of_base_le (by decide) (by omega)]
      have hprev := ih (n / 10) (by omega) (by omega)
      obtain ⟨c, cs, hcs⟩ :=
        List.exists_cons_of_ne_nil (Nat.toDigits_ne_nil (n := n / 10) (b := 10))
      rw [hcs] at hprev ⊢
      simpa using hprev

theorem intPart_toDigits (n : Nat) : IntPart (Nat.toDigits 10 n) := by
  by_cases hn : n = 0
  · subst hn
    exact .inl (Nat.toDigits_zero 10)
  · refine .inr ⟨⟨Nat.toDigits_ne_nil, ?_⟩, head_toDigits_ne_zero hn⟩
    intro c hc
    exact Nat.isDigit_of_mem_toDigits (by decide) (by decide) hc

theorem intText_eq (i : Int) :
    ∃ sign, (sign = [] ∨ sign = ['-']) ∧ intText i = sign ++ Nat.toDigits 10 i.natAbs ∧
      intVal sign (Nat.toDigits 10 i.natAbs) = i := by
  unfold intText
  split_ifs with hneg
  · refine ⟨['-'], .inr rfl, rfl, ?_⟩
    simp only [intVal, Nat.ofDigitChars_ten_toDigits]
    rw [if_neg (by simp)]
    omega
  · refine ⟨[], .inl rfl, rfl, ?_⟩
    simp only [intVal, Nat.ofDigitChars_ten_toDigits, if_true]
    omega

theorem parseNumber_intText (i : Int) (hr : NumberEnd r) :
    parseNumber text (intText i ++ r) = some (int i, r) := by
  obtain ⟨sign, hsign, htext, hval⟩ := intText_eq i
  have hparse := parseNumber_append text hsign (intPart_toDigits i.natAbs) (.inl rfl) (.inl rfl) hr
  simpa [htext, hval] using hparse

/-! ## Values -/

mutual

/-- Every object in the value has distinct keys, as a dictionary does. -/
def WellFormed : Json F → Prop
  | arr vs => WellFormedItems vs
  | obj fs => (fs.map Prod.fst).Nodup ∧ WellFormedFields fs
  | _ => True

def WellFormedItems : List (Json F) → Prop
  | [] => True
  | v :: vs => v.WellFormed ∧ WellFormedItems vs

def WellFormedFields : List (String × Json F) → Prop
  | [] => True
  | (_, v) :: fs => v.WellFormed ∧ WellFormedFields fs

end

/-- The characters with which a written value can start. -/
def StartsValue (c : Char) : Prop :=
  isWs c = false ∧ c ≠ ']' ∧ c ≠ Char.ofNat 0xFEFF

theorem startsValue_of_isDigit (h : c.isDigit) : StartsValue c := by
  refine ⟨?_, ne_of_isDigit h (by decide), ne_of_isDigit h (by decide)⟩
  cases hws : isWs c with
  | false => rfl
  | true =>
    simp only [isWs, Bool.or_eq_true, beq_iff_eq] at hws
    rcases hws with ((rfl | rfl) | rfl) | rfl <;> exact absurd h (by decide)

theorem startsValue_number (hsign : sign = [] ∨ sign = ['-'])
    (hwhole : IntPart whole) (r : List Char) :
    ∃ c t, sign ++ whole ++ r = c :: t ∧ StartsValue c := by
  rcases hsign with rfl | rfl
  · obtain ⟨d, ds, rfl⟩ := List.exists_cons_of_ne_nil hwhole.digits.1
    exact ⟨d, ds ++ r, rfl, startsValue_of_isDigit (hwhole.digits.2 d List.mem_cons_self)⟩
  · exact ⟨'-', whole ++ r, rfl, by unfold StartsValue; decide⟩

theorem skipWs_cons (h : isWs c = false) (t : List Char) : skipWs (c :: t) = c :: t := by
  simp [skipWs, h]

variable {pairs : List (String × Json F)}

/-- Distinct keys are kept as they were read. -/
theorem dictOf_of_nodup (h : (pairs.map Prod.fst).Nodup) :
    dictOf pairs = pairs := by
  have hgo : ∀ (done rest : List (String × Json F)), ((done ++ rest).map Prod.fst).Nodup →
      rest.foldl setField done = done ++ rest := by
    intro done rest
    induction rest generalizing done with
    | nil => simp
    | cons e rest ih =>
      intro hnodup
      have hfresh : (done.any fun f => f.1 == e.1) = false := by
        rw [List.any_eq_false]
        intro f hf
        simp only [beq_iff_eq]
        intro heq
        rw [List.map_append, List.nodup_append] at hnodup
        exact hnodup.2.2 f.1 (List.mem_map_of_mem hf) e.1 (by simp) heq
      rw [List.foldl_cons, setField, hfresh]
      simp only [Bool.false_eq_true, if_false]
      rw [ih (done ++ [e]) (by simpa using hnodup)]
      simp
  exact hgo [] pairs (by simpa using h)

variable {fs : List (String × Json F)}

theorem wellFormedFields_iff :
    WellFormedFields fs ↔ ∀ e ∈ fs, e.2.WellFormed := by
  induction fs with
  | nil => simp [WellFormedFields]
  | cons e fs ih =>
    obtain ⟨k, v⟩ := e
    simp only [WellFormedFields, ih, List.forall_mem_cons]

theorem wellFormed_setField {e : String × Json F}
    (hfs : (obj fs).WellFormed) (he : e.2.WellFormed) : (obj (setField fs e)).WellFormed := by
  obtain ⟨hnodup, hvalues⟩ := hfs
  rw [wellFormedFields_iff] at hvalues
  simp only [WellFormed, wellFormedFields_iff]
  unfold setField
  split_ifs with hany
  · refine ⟨?_, ?_⟩
    · have hkeys : (fs.map fun f => if f.1 == e.1 then e else f).map Prod.fst =
          fs.map Prod.fst := by
        rw [List.map_map]
        refine List.map_congr_left fun f _ => ?_
        simp only [Function.comp_apply]
        split_ifs with hkey
        · exact (beq_iff_eq.mp hkey).symm
        · rfl
      rwa [hkeys]
    · intro f hf
      obtain ⟨g, hg, rfl⟩ := List.mem_map.mp hf
      split
      · exact he
      · exact hvalues g hg
  · refine ⟨?_, ?_⟩
    · have hfresh : ∀ f ∈ fs, f.1 ≠ e.1 := by
        intro f hf heq
        exact hany (List.any_eq_true.mpr ⟨f, hf, beq_iff_eq.mpr heq⟩)
      rw [List.map_append, List.nodup_append]
      refine ⟨hnodup, by simp, ?_⟩
      intro k hk k' hk'
      obtain ⟨f, hf, rfl⟩ := List.mem_map.mp hk
      simp only [List.map_cons, List.map_nil, List.mem_singleton] at hk'
      rw [hk']
      exact hfresh f hf
    · intro f hf
      rcases List.mem_append.mp hf with hold | hnew
      · exact hvalues f hold
      · rw [List.mem_singleton.mp hnew]
        exact he

theorem wellFormed_dictOf (h : ∀ e ∈ pairs, e.2.WellFormed) :
    (obj (dictOf pairs)).WellFormed := by
  have hgo : ∀ (rest done : List (String × Json F)), (obj done).WellFormed →
      (∀ e ∈ rest, e.2.WellFormed) → (obj (rest.foldl setField done)).WellFormed := by
    intro rest
    induction rest with
    | nil => exact fun done hdone _ => hdone
    | cons e rest ih =>
      intro done hdone hrest
      obtain ⟨he, hrest⟩ := List.forall_mem_cons.mp hrest
      exact ih _ (wellFormed_setField hdone he) hrest
  exact hgo pairs [] ⟨List.nodup_nil, trivial⟩ h

theorem parseValue_digit (n : Nat) (h : c.isDigit)
    (t : List Char) : parseValue text (n + 1) (c :: t) = parseNumber text (c :: t) := by
  rw [parseValue.eq_def]
  simp only
  split
  all_goals first
    | rfl
    | simp_all

theorem parseValue_minus (n : Nat) (h : c.isDigit) (t : List Char) :
    parseValue text (n + 1) ('-' :: c :: t) = parseNumber text ('-' :: c :: t) := by
  rw [parseValue.eq_def]
  simp only
  split
  all_goals first
    | rfl
    | simp_all

theorem parseValue_number (n : Nat) (hsign : sign = [] ∨ sign = ['-']) (hwhole : IntPart whole)
    (r : List Char) :
    parseValue text (n + 1) (sign ++ whole ++ r) = parseNumber text (sign ++ whole ++ r) := by
  obtain ⟨d, ds, rfl⟩ := List.exists_cons_of_ne_nil hwhole.digits.1
  have hdigit := hwhole.digits.2 d List.mem_cons_self
  rcases hsign with rfl | rfl
  · exact parseValue_digit text n hdigit (ds ++ r)
  · exact parseValue_minus text n hdigit (ds ++ r)

theorem parseValue_float (n : Nat) (x : F) (hr : NumberEnd r) : parseValue text (n + 1)
    (text.repr x ++ r) = some (float x, r) := by
  have hshape := text.shape x
  have hparse := text.parse_repr x
  generalize text.repr x = t at hshape hparse
  cases hshape with
  | nan => simp [parseValue, hparse]
  | infinity => simp [parseValue, hparse]
  | negInfinity => simp [parseValue, hparse]
  | @finite sign whole frac exp hsign hwhole hfrac hexp hfloat =>
    have hnumber := parseNumber_append text hsign hwhole hfrac hexp hr
    have hdispatch := parseValue_number text n hsign hwhole (frac ++ exp ++ r)
    simp only [List.append_assoc] at hnumber hdispatch hparse ⊢
    rw [hdispatch, hnumber, if_neg, hparse]
    rintro ⟨rfl, rfl⟩
    simp at hfloat

/-- The equations of a writer with escaped characters and a blank behind the separators. -/
structure Writes (text : FloatText F) (escape : Char → List Char) (gap : List Char)
    (value : Json F → List Char) (items : List (Json F) → List Char)
    (fields : List (String × Json F) → List Char) : Prop where
  escaped : ∀ c t, parseString (escape c ++ t) = (parseString t).map fun e => (c :: e.1, e.2)
  blank : ∀ t, skipWs (gap ++ t) = skipWs t
  null : value null = ['n', 'u', 'l', 'l']
  isTrue : value (bool true) = ['t', 'r', 'u', 'e']
  isFalse : value (bool false) = ['f', 'a', 'l', 's', 'e']
  int : ∀ i, value (int i) = intText i
  float : ∀ x, value (float x) = text.repr x
  str : ∀ s, value (str s) = '"' :: (s.toList.flatMap escape ++ ['"'])
  arrNil : value (arr []) = ['[', ']']
  arr : ∀ v vs, value (arr (v :: vs)) = '[' :: (value v ++ items vs)
  objNil : value (obj []) = ['{', '}']
  obj : ∀ k v fs, value (obj ((k, v) :: fs)) =
    '{' :: (value (.str k) ++ ':' :: (gap ++ (value v ++ fields fs)))
  itemsNil : items [] = [']']
  items : ∀ v vs, items (v :: vs) = ',' :: (gap ++ (value v ++ items vs))
  fieldsNil : fields [] = ['}']
  fields : ∀ k v fs, fields ((k, v) :: fs) =
    ',' :: (gap ++ (value (.str k) ++ ':' :: (gap ++ (value v ++ fields fs))))

section

variable {text : FloatText F} {escape : Char → List Char} {gap : List Char}
  {value : Json F → List Char} {items : List (Json F) → List Char}
  {fields : List (String × Json F) → List Char}

/-- A written value starts with a character that is no white space. -/
theorem Writes.start (h : Writes text escape gap value items fields) (v : Json F) :
    ∃ c t, value v = c :: t ∧ StartsValue c := by
  cases v with
  | null => exact ⟨_, _, h.null, by unfold StartsValue; decide⟩
  | bool b =>
    cases b
    · exact ⟨_, _, h.isFalse, by unfold StartsValue; decide⟩
    · exact ⟨_, _, h.isTrue, by unfold StartsValue; decide⟩
  | int i =>
    obtain ⟨sign, hsign, htext, -⟩ := intText_eq i
    obtain ⟨c, t, ht, hc⟩ := startsValue_number hsign (intPart_toDigits i.natAbs) []
    rw [h.int, htext]
    exact ⟨c, t, by simpa using ht, hc⟩
  | float x =>
    have hshape := text.shape x
    rw [h.float]
    generalize text.repr x = t at hshape
    cases hshape with
    | nan => exact ⟨_, _, rfl, by unfold StartsValue; decide⟩
    | infinity => exact ⟨_, _, rfl, by unfold StartsValue; decide⟩
    | negInfinity => exact ⟨_, _, rfl, by unfold StartsValue; decide⟩
    | finite hsign hwhole hfrac hexp hfloat =>
      obtain ⟨c, t, ht, hc⟩ := startsValue_number hsign hwhole _
      exact ⟨c, t, by rw [List.append_assoc]; exact ht, hc⟩
  | str s => exact ⟨_, _, h.str s, by unfold StartsValue; decide⟩
  | arr vs =>
    cases vs
    · exact ⟨_, _, h.arrNil, by unfold StartsValue; decide⟩
    · exact ⟨_, _, h.arr _ _, by unfold StartsValue; decide⟩
  | obj fs =>
    rcases fs with _ | ⟨⟨k, v⟩, fs⟩
    · exact ⟨_, _, h.objNil, by unfold StartsValue; decide⟩
    · exact ⟨_, _, h.obj _ _ _, by unfold StartsValue; decide⟩

theorem Writes.skipWs (h : Writes text escape gap value items fields) (v : Json F)
    (r : List Char) : skipWs (value v ++ r) = value v ++ r := by
  obtain ⟨c, t, ht, hstart⟩ := h.start v
  rw [ht, List.cons_append, skipWs_cons hstart.1]

mutual

theorem Writes.parseValue (h : Writes text escape gap value items fields) :
    ∀ (v : Json F) (n : Nat) (r : List Char), v.WellFormed → 2 * (value v).length + 1 ≤ n →
    NumberEnd r → parseValue text n (value v ++ r) = some (v, r)
  | _, 0, _, _, hn, _ => absurd hn (by omega)
  | .null, n + 1, r, _, _, _ => by simp [h.null, Json.parseValue]
  | .bool true, n + 1, r, _, _, _ => by simp [h.isTrue, Json.parseValue]
  | .bool false, n + 1, r, _, _, _ => by simp [h.isFalse, Json.parseValue]
  | .int i, n + 1, r, _, _, hr => by
    obtain ⟨sign, hsign, htext, -⟩ := intText_eq i
    rw [h.int, ← parseNumber_intText text i hr, htext]
    exact parseValue_number text n hsign (intPart_toDigits i.natAbs) r
  | .float x, n + 1, r, _, _, hr => by
    rw [h.float]
    exact parseValue_float text n x hr
  | .str s, n + 1, r, _, _, _ => by
    simp [h.str, Json.parseValue, parseString_flatMap h.escaped]
  | .arr [], n + 1, r, _, _, _ => by simp [h.arrNil, Json.parseValue, Json.skipWs, isWs]
  | .arr (v :: vs), n + 1, r, hwf, hn, hr => by
    have hitems := h.parseItems v vs n r hwf (by
      simp only [h.arr, List.length_cons] at hn
      omega)
    obtain ⟨c, t, ht, hstart⟩ := h.start v
    rw [ht] at hitems
    simp only [h.arr, ht, List.cons_append, List.append_assoc, Json.parseValue,
      skipWs_cons hstart.1]
    simp only [List.cons_append, List.append_assoc] at hitems
    split
    · rename_i heq
      exact absurd (List.cons.inj heq).1 hstart.2.1
    · rw [hitems]
      rfl
  | .obj [], n + 1, r, _, _, _ => by simp [h.objNil, Json.parseValue, Json.skipWs, isWs]
  | .obj ((k, v) :: fs), n + 1, r, hwf, hn, hr => by
    have hfields := h.parseFields k v fs n r hwf.2 (by
      simp only [h.obj, List.length_cons, List.length_append] at hn ⊢
      omega)
    simp only [h.obj, h.str, List.cons_append, List.append_assoc, Json.parseValue] at hfields ⊢
    rw [skipWs_cons (by decide)]
    split
    · rename_i heq
      exact absurd (List.cons.inj heq).1 (by decide)
    · rw [hfields]
      simp [dictOf_of_nodup hwf.1]

theorem Writes.parseItems (h : Writes text escape gap value items fields) :
    ∀ (v : Json F) (vs : List (Json F)) (n : Nat) (r : List Char), WellFormedItems (v :: vs) →
    2 * (value v ++ items vs).length + 2 ≤ n →
    parseItems text n (value v ++ items vs ++ r) = some (v :: vs, r)
  | _, _, 0, _, _, hn => absurd hn (by omega)
  | v, [], n + 1, r, hwf, hn => by
    have hv := h.parseValue v n (']' :: r) hwf.1 (by
      simp only [List.length_append] at hn
      omega) (numberEnd_cons (by decide) r)
    simp [h.itemsNil, Json.parseItems, hv, skipWs_cons (c := ']') (by decide)]
  | v, w :: ws, n + 1, r, hwf, hn => by
    have hv := h.parseValue v n (',' :: (gap ++ (value w ++ (items ws ++ r)))) hwf.1 (by
        simp only [List.length_append] at hn
        omega) (numberEnd_cons (by decide) _)
    have hrest := h.parseItems w ws n r hwf.2 (by
      simp only [h.items, List.length_append, List.length_cons] at hn ⊢
      omega)
    simp only [List.append_assoc] at hrest
    simp [h.items, Json.parseItems, hv, skipWs_cons (c := ',') (by decide), h.blank, h.skipWs,
      hrest]

theorem Writes.parseFields (h : Writes text escape gap value items fields) :
    ∀ (k : String) (v : Json F) (fs : List (String × Json F)) (n : Nat) (r : List Char),
    WellFormedFields ((k, v) :: fs) →
    2 * (value (.str k) ++ ':' :: (gap ++ (value v ++ fields fs))).length + 2 ≤ n →
    parseFields text n (value (.str k) ++ ':' :: (gap ++ (value v ++ fields fs)) ++ r) =
      some ((k, v) :: fs, r)
  | _, _, _, 0, _, _, hn => absurd hn (by omega)
  | k, v, [], n + 1, r, hwf, hn => by
    have hv := h.parseValue v n ('}' :: r) hwf.1 (by
      simp only [List.length_append, List.length_cons] at hn
      omega) (numberEnd_cons (by decide) r)
    simp [h.fieldsNil, h.str, Json.parseFields, parseString_flatMap h.escaped, hv,
      skipWs_cons (c := ':') (by decide), h.blank, h.skipWs, skipWs_cons (c := '}') (by decide)]
  | k, v, (k', w) :: fs, n + 1, r, hwf, hn => by
    have hv := h.parseValue v n
      (',' :: (gap ++ (value (.str k') ++ ':' :: (gap ++ (value w ++ (fields fs ++ r))))))
      hwf.1 (by
        simp only [List.length_append, List.length_cons] at hn
        omega) (numberEnd_cons (by decide) _)
    have hrest := h.parseFields k' w fs n r hwf.2 (by
      simp only [h.fields, List.length_append, List.length_cons] at hn ⊢
      omega)
    simp only [h.str, List.append_assoc, List.cons_append, List.nil_append] at hrest hv
    simp [h.fields, h.str, Json.parseFields, parseString_flatMap h.escaped, hv,
      skipWs_cons (c := ':') (by decide), h.blank, h.skipWs,
      skipWs_cons (c := ',') (by decide), skipWs_cons (c := '"') (by decide), hrest]

end

end

theorem dump_writes :
    Writes text escapeChar [' '] (dump text) (dumpItems text) (dumpFields text) := by
  constructor
  case escaped => exact parseString_escapeChar
  all_goals intros
  all_goals simp [dump, dumpItems, dumpFields, dumpStr, skipWs, isWs]

/-- Reading what was written gives the value back. -/
theorem loads_dump {v : Json F} (hwf : v.WellFormed) :
    loads text (dump text v) = some v := by
  have hwrites := dump_writes text
  obtain ⟨c, t, ht, hstart⟩ := hwrites.start v
  have hparse := hwrites.parseValue v (2 * (dump text v).length + 1) [] hwf (Nat.le_refl _) numberEnd_nil
  have hskip := hwrites.skipWs v []
  rw [List.append_nil] at hparse hskip
  have hbom : (dump text v).head? ≠ some (Char.ofNat 0xFEFF) := by
    rw [ht]
    simpa using hstart.2.2
  have hnil : skipWs [] = [] := rfl
  simp [loads, hbom, hskip, hparse, hnil]

theorem dump_object (fields : List (String × Json F)) :
    ∃ t, dump text (.obj fields) = '{' :: (t ++ ['}']) := by
  have hrest : ∀ fs : List (String × Json F), ∃ t, dumpFields text fs = t ++ ['}'] := by
    intro fs
    induction fs with
    | nil => exact ⟨[], by rw [dumpFields, List.nil_append]⟩
    | cons e fs ih =>
      obtain ⟨k, v⟩ := e
      obtain ⟨t, ht⟩ := ih
      refine ⟨',' :: ' ' :: (dumpStr k ++ ':' :: ' ' :: (dump text v ++ t)), ?_⟩
      simp [dumpFields, ht]
  cases fields with
  | nil => exact ⟨[], by rw [dump]; rfl⟩
  | cons e fs =>
    obtain ⟨k, v⟩ := e
    obtain ⟨t, ht⟩ := hrest fs
    refine ⟨dumpStr k ++ ':' :: ' ' :: (dump text v ++ t), ?_⟩
    simp [dump, ht]

/-- Floating-point numbers of which there is only zero. -/
def FloatText.zero : FloatText Unit where
  repr _ := ['0', '.', '0']
  parse _ := ()
  shape _ := @FloatShape.finite [] ['0'] ['.', '0'] [] (.inl rfl)
    (.inl rfl) (.inr ⟨['0'], ⟨by decide, by decide⟩, rfl⟩) (.inl rfl) (.inl (by decide))
  parse_repr _ := rfl

/-! ## Dictionaries -/

/-- A JSON value of Python: the keys of every dictionary in it are distinct. -/
abbrev Value (F : Type u) :=
  {value : Json F // value.WellFormed}

/-- A dictionary of JSON values. -/
structure Dict (F : Type u) where
  fields : List (String × Json F)
  wellFormed : (Json.obj fields).WellFormed

namespace Dict

def empty : Dict F :=
  ⟨[], List.nodup_nil, trivial⟩

def toJson (dict : Dict F) : Json F :=
  .obj dict.fields

/-- A dictionary as a value. -/
def value (dict : Dict F) : Value F :=
  ⟨dict.toJson, dict.wellFormed⟩

/-- `{**pairs, **rest}`: a later pair replaces the value of an earlier one. -/
def ofPairs (pairs : List (String × Value F)) (rest : Dict F) : Dict F where
  fields := dictOf (pairs.map (fun e => (e.1, e.2.val)) ++ rest.fields)
  wellFormed := by
    refine wellFormed_dictOf (List.forall_mem_append.mpr ⟨?_, ?_⟩)
    · intro e he
      obtain ⟨pair, -, rfl⟩ := List.mem_map.mp he
      exact pair.2.2
    · exact wellFormedFields_iff.mp rest.wellFormed.2

end Dict

end Json
