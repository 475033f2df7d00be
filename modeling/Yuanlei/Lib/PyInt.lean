import Yuanlei.Lib.PyText

/-!
# Integers from texts

`int` of a text in base ten: whitespace around it, a sign, and digits with single
underscores between them.  Digits are the decimal digits of every script.

Main results:

- `DecimalDigits.parseInt`: `int` of a text, `none` where it raises.
- `DecimalDigits.parseInt_toDigits`: a number is read back from its decimal digits.
-/

namespace Yuanlei

open PyText (isSpace stripChars)

/-- The decimal digits with their values; the ASCII digits have the values they show. -/
structure DecimalDigits where
  value : Char → Option Nat
  value_digitChar : ∀ d, d < 10 → value (Nat.digitChar d) = some d

namespace DecimalDigits

/-- The ASCII digits alone. -/
def ascii : DecimalDigits where
  value c := if c.isDigit then some (c.toNat - '0'.toNat) else none
  value_digitChar := by decide

variable (digits : DecimalDigits)

/-- A number goes on with these digits. -/
def read : List Char → Nat → Option Nat
  | [], n => some n
  | c :: cs, n => (digits.value c).bind fun d => read cs (10 * n + d)

/-- Digits with single underscores between them. -/
def magnitude (text : List Char) : Option Nat :=
  if (text.splitOn '_').any List.isEmpty then none
  else digits.read (text.splitOn '_').flatten 0

/-- `int`. -/
def parseInt (text : List Char) : Option Int :=
  match stripChars text with
  | '-' :: rest => (digits.magnitude rest).map fun n => -(n : Int)
  | '+' :: rest => (digits.magnitude rest).map Int.ofNat
  | rest => (digits.magnitude rest).map Int.ofNat

theorem read_append (s t : List Char) (n : Nat) :
    digits.read (s ++ t) n = (digits.read s n).bind fun m => digits.read t m := by
  induction s generalizing n with
  | nil => rfl
  | cons c s ih =>
    simp only [List.cons_append, read]
    cases digits.value c with
    | none => rfl
    | some d => exact ih (10 * n + d)

theorem read_toDigits (n : Nat) : digits.read (Nat.toDigits 10 n) 0 = some n := by
  induction n using Nat.strongRecOn with
  | ind n ih =>
    by_cases hlt : n < 10
    · rw [Nat.toDigits_of_lt_base hlt]
      simp [read, digits.value_digitChar n hlt]
    · have hle : 10 ≤ n := Nat.le_of_not_lt hlt
      have hdigit : digits.value (Nat.digitChar (n % 10)) = some (n % 10) :=
        digits.value_digitChar (n % 10) (Nat.mod_lt n (by decide))
      rw [Nat.toDigits_of_base_le (by decide) hle, read_append, ih (n / 10) (by omega)]
      simp only [Option.bind_some, read, hdigit, Option.some.injEq]
      omega

theorem isSpace_eq_false_of_isDigit {c : Char} (h : c.isDigit = true) : isSpace c = false := by
  have hrange : 48 ≤ c.toNat ∧ c.toNat ≤ 57 := by
    simp only [Char.isDigit, Bool.and_eq_true, decide_eq_true_eq, UInt32.le_iff_toNat_le,
      ge_iff_le] at h
    exact h
  simp only [isSpace, Bool.or_eq_false_iff, Bool.and_eq_false_iff, decide_eq_false_iff_not,
    beq_eq_false_iff_ne, ne_eq]
  omega

theorem stripChars_of_forall {t : List Char} (h : ∀ c ∈ t, isSpace c = false) :
    stripChars t = t := by
  have hdrop : ∀ s : List Char, (∀ c ∈ s, isSpace c = false) → s.dropWhile isSpace = s := by
    intro s hs
    cases s with
    | nil => rfl
    | cons c s => simp [hs c List.mem_cons_self]
  rw [stripChars, hdrop t h, hdrop _ (fun c hc => h c (List.mem_reverse.mp hc)),
    List.reverse_reverse]

theorem parseInt_toDigits (n : Nat) : digits.parseInt (Nat.toDigits 10 n) = some (n : Int) := by
  have hdigit : ∀ c ∈ Nat.toDigits 10 n, c.isDigit = true := fun c hc =>
    Nat.isDigit_of_mem_toDigits (by decide) (by decide) hc
  have hstrip : stripChars (Nat.toDigits 10 n) = Nat.toDigits 10 n :=
    stripChars_of_forall fun c hc => isSpace_eq_false_of_isDigit (hdigit c hc)
  have hmagnitude : digits.magnitude (Nat.toDigits 10 n) = some n := by
    rw [magnitude, List.splitOn_eq_singleton Nat.underscore_not_in_toDigits]
    simp [Nat.toDigits_ne_nil, read_toDigits]
  unfold parseInt
  rw [hstrip]
  split
  · rename_i rest hminus
    have hsign := hdigit '-' (hminus ▸ List.mem_cons_self)
    simp at hsign
  · rename_i rest hplus
    have hsign := hdigit '+' (hplus ▸ List.mem_cons_self)
    simp at hsign
  · rw [hmagnitude]
    rfl

end DecimalDigits

end Yuanlei
