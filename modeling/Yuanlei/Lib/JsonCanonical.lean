import Mathlib.Data.List.Perm.Basic
import Yuanlei.Lib.JsonRoundTrip

/-!
# Canonical JSON text

The writer of Python's `json` module for the options `ensure_ascii=True`,
`sort_keys=True` and `separators=(",", ":")`.  The reader of the other modules reads this
text back, so that two values with the same text differ at most in the order of their keys.

Main results:

- `Json.parseString_escapeAscii`: an escaped character is read back.
- `Json.compact_writes`: a written value is read back.
-/

universe u

namespace Json

variable {F : Type u}

/-! ## Writing -/

/-- The four hexadecimal digits of an escape. -/
def hexText (n : Nat) : List Char :=
  [hexDigit (n / 4096), hexDigit (n / 256 % 16), hexDigit (n / 16 % 16), hexDigit (n % 16)]

/-- The replacement of one character under `ensure_ascii`. -/
def escapeAscii (c : Char) : List Char :=
  if c.toNat < 127 then escapeChar c
  else if c.toNat < 0x10000 then '\\' :: 'u' :: hexText c.toNat
  else
    '\\' :: 'u' :: (hexText (0xD800 + (c.toNat - 0x10000) / 1024) ++
      '\\' :: 'u' :: hexText (0xDC00 + (c.toNat - 0x10000) % 1024))

/-- A string literal. -/
def compactStr (s : String) : List Char :=
  '"' :: (s.toList.flatMap escapeAscii ++ ['"'])

mutual

/-- The text without blanks. -/
def compact (text : FloatText F) : Json F → List Char
  | null => ['n', 'u', 'l', 'l']
  | bool true => ['t', 'r', 'u', 'e']
  | bool false => ['f', 'a', 'l', 's', 'e']
  | int i => intText i
  | float x => text.repr x
  | str s => compactStr s
  | arr [] => ['[', ']']
  | arr (v :: vs) => '[' :: (compact text v ++ compactItems text vs)
  | obj [] => ['{', '}']
  | obj ((k, v) :: fs) => '{' :: (compactStr k ++ ':' :: (compact text v ++ compactFields text fs))

/-- The items after the first one, with the closing bracket. -/
def compactItems (text : FloatText F) : List (Json F) → List Char
  | [] => [']']
  | v :: vs => ',' :: (compact text v ++ compactItems text vs)

/-- The fields after the first one, with the closing brace. -/
def compactFields (text : FloatText F) : List (String × Json F) → List Char
  | [] => ['}']
  | (k, v) :: fs => ',' :: (compactStr k ++ ':' :: (compact text v ++ compactFields text fs))

end

/-- `json.dumps` with sorted keys. -/
def canonical (text : FloatText F) (v : Json F) : List Char :=
  compact text v.sortKeys

/-! ## Strings -/

theorem hex4_hexText {n : Nat} (h : n < 65536) :
    hex4 (hexDigit (n / 4096)) (hexDigit (n / 256 % 16)) (hexDigit (n / 16 % 16))
      (hexDigit (n % 16)) = some n := by
  have h₁ := hexVal_hexDigit (n / 4096) (by omega)
  have h₂ := hexVal_hexDigit (n / 256 % 16) (by omega)
  have h₃ := hexVal_hexDigit (n / 16 % 16) (by omega)
  have h₄ := hexVal_hexDigit (n % 16) (by omega)
  simp only [hex4, h₁, h₂, h₃, h₄, Option.some.injEq]
  omega

theorem toNat_scalar (c : Char) : c.toNat < 0xD800 ∨ 0xDFFF < c.toNat ∧ c.toNat < 0x110000 := by
  have hvalid := c.valid
  simp only [UInt32.isValidChar, Nat.isValidChar] at hvalid
  exact hvalid

/-- Reading an escaped character gives the character back. -/
theorem parseString_escapeAscii (c : Char) (t : List Char) :
    parseString (escapeAscii c ++ t) = (parseString t).map fun e => (c :: e.1, e.2) := by
  have hscalar := toNat_scalar c
  unfold escapeAscii
  split_ifs with hascii hbasic
  · exact parseString_escapeChar c t
  · have hcode := hex4_hexText hbasic
    simp only [hexText, List.cons_append, List.nil_append]
    rw [parseString]
    simp only [hcode]
    rw [if_neg (by omega), if_neg (by omega), Char.ofNat_toNat]
  · generalize hhigh : 0xD800 + (c.toNat - 0x10000) / 1024 = high
    generalize hlow : 0xDC00 + (c.toNat - 0x10000) % 1024 = low
    have hcodeHigh := hex4_hexText (show high < 65536 by omega)
    have hcodeLow := hex4_hexText (show low < 65536 by omega)
    have hcode : 0x10000 + (high - 0xD800) * 1024 + (low - 0xDC00) = c.toNat := by omega
    simp only [hexText, List.cons_append, List.nil_append]
    rw [parseString]
    simp only [hcodeHigh]
    rw [if_pos (by omega)]
    simp only [hcodeLow]
    rw [if_pos (by omega), hcode, Char.ofNat_toNat]

/-! ## Values -/

variable (text : FloatText F)

theorem compact_writes :
    Writes text escapeAscii [] (compact text) (compactItems text) (compactFields text) := by
  constructor
  case escaped => exact parseString_escapeAscii
  all_goals intros
  all_goals simp [compact, compactItems, compactFields, compactStr]

variable {v v' : Json F}

/-- Values with distinct keys are determined by their text. -/
theorem compact_inj (hv : v.WellFormed)
    (hv' : v'.WellFormed) (h : compact text v = compact text v') : v = v' := by
  have hread := (compact_writes text).parseValue v (2 * (compact text v).length + 1) [] hv (Nat.le_refl _)
    numberEnd_nil
  have hread' := (compact_writes text).parseValue v' (2 * (compact text v').length + 1) [] hv'
    (Nat.le_refl _) numberEnd_nil
  rw [h, hread'] at hread
  exact congrArg Prod.fst (Option.some.inj hread).symm

/-! ## Sorted keys -/

theorem map_fst_sortFields (fs : List (String × Json F)) :
    (sortFields fs).map Prod.fst = fs.map Prod.fst := by
  induction fs with
  | nil => rfl
  | cons e fs ih => simp [sortFields, ih]

mutual

theorem wellFormed_sortKeys : ∀ v : Json F, v.WellFormed → v.sortKeys.WellFormed
  | null, _ => trivial
  | bool _, _ => trivial
  | int _, _ => trivial
  | float _, _ => trivial
  | str _, _ => trivial
  | arr vs, h => wellFormed_sortItems vs h
  | obj fs, h => by
    have hperm : List.Perm ((sortFields fs).insertionSort fun e e' => e.1 ≤ e'.1)
        (sortFields fs) := List.perm_insertionSort _ _
    have hfields := wellFormed_sortFields fs h.2
    refine ⟨?_, ?_⟩
    · rw [(hperm.map Prod.fst).nodup_iff, map_fst_sortFields]
      exact h.1
    · rw [wellFormedFields_iff] at hfields ⊢
      intro e he
      exact hfields e (hperm.mem_iff.mp he)

theorem wellFormed_sortItems : ∀ vs : List (Json F), WellFormedItems vs →
    WellFormedItems (sortItems vs)
  | [], _ => trivial
  | v :: vs, h => ⟨wellFormed_sortKeys v h.1, wellFormed_sortItems vs h.2⟩

theorem wellFormed_sortFields : ∀ fs : List (String × Json F), WellFormedFields fs →
    WellFormedFields (sortFields fs)
  | [], _ => trivial
  | (_, v) :: fs, h => ⟨wellFormed_sortKeys v h.1, wellFormed_sortFields fs h.2⟩

end

theorem canonical_inj (hv : v.WellFormed)
    (hv' : v'.WellFormed) (h : canonical text v = canonical text v') : v.sortKeys = v'.sortKeys :=
  compact_inj text (wellFormed_sortKeys v hv) (wellFormed_sortKeys v' hv') h

variable {fs : List (String × Json F)} {k : String}

theorem mem_sortFields {w : Json F} :
    (k, w) ∈ sortFields fs ↔ ∃ v, (k, v) ∈ fs ∧ v.sortKeys = w := by
  induction fs with
  | nil => simp [sortFields]
  | cons e fs ih =>
    obtain ⟨k', v'⟩ := e
    simp only [sortFields, List.mem_cons, Prod.mk.injEq, ih]
    constructor
    · rintro (⟨rfl, rfl⟩ | ⟨v, hv, rfl⟩)
      · exact ⟨v', .inl ⟨rfl, rfl⟩, rfl⟩
      · exact ⟨v, .inr hv, rfl⟩
    · rintro ⟨v, ⟨rfl, rfl⟩ | hv, rfl⟩
      · exact .inl ⟨rfl, rfl⟩
      · exact .inr ⟨v, hv, rfl⟩

variable {fs' : List (String × Json F)}

theorem exists_field_of_sortKeys_eq (h : (obj fs).sortKeys = (obj fs').sortKeys) (hv : (k, v) ∈ fs) :
    ∃ v', (k, v') ∈ fs' ∧ v'.sortKeys = v.sortKeys := by
  simp only [sortKeys, obj.injEq] at h
  have hmem : (k, v.sortKeys) ∈ (sortFields fs).insertionSort fun e e' => e.1 ≤ e'.1 := by
    rw [(List.perm_insertionSort _ _).mem_iff, mem_sortFields]
    exact ⟨v, hv, rfl⟩
  rw [h, (List.perm_insertionSort _ _).mem_iff, mem_sortFields] at hmem
  exact hmem

theorem sortKeys_field_eq (h : (obj fs).sortKeys = (obj fs').sortKeys)
    (hnodup : (fs'.map Prod.fst).Nodup) (hv : (k, v) ∈ fs) (hv' : (k, v') ∈ fs') : v.sortKeys = v'.sortKeys := by
  obtain ⟨w, hw, hsorted⟩ := exists_field_of_sortKeys_eq h hv
  have hsame : (k, w) = (k, v') :=
    List.inj_on_of_nodup_map hnodup hw hv' rfl
  cases hsame
  exact hsorted.symm

theorem sortItems_eq_map (vs : List (Json F)) : sortItems vs = vs.map sortKeys := by
  induction vs with
  | nil => rfl
  | cons v vs ih => simp [sortItems, ih]

theorem map_eq_of_sortKeys_eq {α : Type*} {encode : α → Json F}
    (hencode : ∀ a b, (encode a).sortKeys = (encode b).sortKeys → a = b) {as bs : List α}
    (h : (arr (as.map encode)).sortKeys = (arr (bs.map encode)).sortKeys) : as = bs := by
  simp only [sortKeys, arr.injEq, sortItems_eq_map, List.map_map] at h
  exact List.map_injective_iff.mpr (fun a b => hencode a b) h

end Json
