import Mathlib

/-!
# Whole numbers as floats

Sums of whole numbers below 2 ^ 53 are exact in binary64, so such a sum does not depend on the order
of its terms.

Main results:

- `round_exact`: a whole number is rounded to its own canonical form.
- `ofWhole_add`: the sum of two floats of whole numbers is the float of their sum.
- `ofWhole_foldl`: a fold of additions is the float of the sum.
-/

namespace Yuanlei.WholeFloat

open Float.Model (Format UnpackedFloat totalExponent)
open Float.Model.UnpackedFloat

/-! ## Rounding -/

variable {n : Nat}

theorem mantissa_pos (h : n ≠ 0) : 0 < n * 2 ^ (52 - n.log2) :=
  Nat.mul_pos (Nat.pos_of_ne_zero h) (Nat.two_pow_pos _)

/-- The canonical form of a whole number below 2 ^ 53. -/
def unpacked (n : Nat) : UnpackedFloat :=
  if h : n = 0 then .zero .positive
  else .finite .positive (n * 2 ^ (52 - n.log2)) (n.log2 - 52) (mantissa_pos h)

theorem log2_mul_two_pow (h : n ≠ 0) (k : Nat) : (n * 2 ^ k).log2 = n.log2 + k := by
  rw [Nat.log2_eq_iff (by positivity)]
  have hlow : 2 ^ n.log2 ≤ n := Nat.log2_self_le h
  have hhigh : n < 2 ^ (n.log2 + 1) := Nat.lt_log2_self
  constructor
  · rw [pow_add]
    exact Nat.mul_le_mul_right _ hlow
  · calc n * 2 ^ k < 2 ^ (n.log2 + 1) * 2 ^ k := Nat.mul_lt_mul_of_pos_right hhigh (Nat.two_pow_pos k)
      _ = 2 ^ (n.log2 + k + 1) := by rw [← pow_add]; congr 1; omega

theorem log2_lt (h : n ≠ 0) (hn : n < 2 ^ 53) : n.log2 < 53 :=
  (Nat.log2_lt h).mpr hn

theorem shiftRight_exact (n k : Nat) :
    (ExtendedMantissa.ofMantissaAndAccuracy (n * 2 ^ k) .exact) >>> k =
      ExtendedMantissa.ofMantissaAndAccuracy n .exact := by
  induction k generalizing n with
  | zero => simp [HShiftRight.hShiftRight, Nat.repeat]
  | succ k ih =>
    have hstep : ∀ m : ExtendedMantissa, m >>> (k + 1) = (m >>> k).shiftRightOne := fun _ => rfl
    have heq : n * 2 ^ (k + 1) = (n * 2) * 2 ^ k := by ring
    rw [hstep, heq, ih]
    simp [ExtendedMantissa.shiftRightOne, ExtendedMantissa.ofMantissaAndAccuracy]

theorem totalExponent_mul (h : n ≠ 0) (k : Nat) (e : Int) :
    totalExponent (n * 2 ^ k) e = n.log2 + k + 1 + e := by
  rw [totalExponent, log2_mul_two_pow h]
  push_cast
  ring

theorem targetExponent_of {t : Int} (ht : -1021 ≤ t) :
    Format.binary64.targetExponent t = t - 53 := by
  have hmin : Format.binary64.minExponent = -1074 := by decide
  have hbits : (Format.binary64.mantissaBits : Int) = 53 := by decide
  rw [Format.targetExponent, hmin, hbits]
  omega

/-- A mantissa with the right exponent up to trailing zeros is rounded to the canonical form. -/
theorem roundWithAccuracy_exact (h : n ≠ 0) (hn : n < 2 ^ 53) (k : Nat) (hk : 52 - n.log2 ≤ k) :
    roundWithAccuracy Format.binary64 .positive (n * 2 ^ k) (-(k : Int)) .exact = unpacked n := by
  have hlog := log2_lt h hn
  obtain ⟨j, rfl⟩ : ∃ j, k = (52 - n.log2) + j := ⟨k - (52 - n.log2), by omega⟩
  have hsplit : n * 2 ^ ((52 - n.log2) + j) = n * 2 ^ (52 - n.log2) * 2 ^ j := by
    rw [pow_add, mul_assoc]
  have hfirst : shiftToTargetExponent Format.binary64 (n * 2 ^ ((52 - n.log2) + j))
      (-(((52 - n.log2) + j : Nat) : Int)) .exact =
        (ExtendedMantissa.ofMantissaAndAccuracy (n * 2 ^ (52 - n.log2)) .exact,
          (n.log2 : Int) - 52) := by
    rw [shiftToTargetExponent, totalExponent_mul h, targetExponent_of (by omega), shiftToExponent]
    have hshift : ((n.log2 : Int) + ((52 - n.log2) + j : Nat) + 1 + -(((52 - n.log2) + j : Nat) : Int)
        - 53 - -(((52 - n.log2) + j : Nat) : Int)).toNat = j := by omega
    rw [hshift, hsplit, shiftRight_exact]
    congr 1
    omega
  have hsecond : shiftToTargetExponent Format.binary64 (n * 2 ^ (52 - n.log2))
      ((n.log2 : Int) - 52) .exact =
        (ExtendedMantissa.ofMantissaAndAccuracy (n * 2 ^ (52 - n.log2)) .exact,
          (n.log2 : Int) - 52) := by
    rw [shiftToTargetExponent, totalExponent_mul h, targetExponent_of (by omega), shiftToExponent]
    have hshift : ((n.log2 : Int) + ((52 - n.log2 : Nat) : Int) + 1 + ((n.log2 : Int) - 52)
        - 53 - ((n.log2 : Int) - 52)).toNat = 0 := by omega
    rw [hshift]
    simp [HShiftRight.hShiftRight, Nat.repeat]
  have hround : (ExtendedMantissa.ofMantissaAndAccuracy (n * 2 ^ (52 - n.log2))
      .exact).roundedMantissa = n * 2 ^ (52 - n.log2) := rfl
  rw [roundWithAccuracy, hfirst]
  simp only [hround, hsecond]
  rw [unpacked, dif_neg h]
  exact dif_neg (mantissa_pos h).ne'

theorem round_exact (h : n ≠ 0) (hn : n < 2 ^ 53) (k : Nat) :
    round Format.binary64 .positive (n * 2 ^ k) (-(k : Int)) = unpacked n := by
  rw [Float.Model.UnpackedFloat.round, totalExponent_mul h, targetExponent_of (by omega),
    decreaseExponent]
  by_cases hk : 52 - n.log2 ≤ k
  · have hshift : (-(k : Int) - ((n.log2 : Int) + k + 1 + -(k : Int) - 53)).toNat = 0 := by omega
    simp only [hshift, Nat.shiftLeft_zero, Nat.cast_zero, sub_zero]
    exact roundWithAccuracy_exact h hn k hk
  · have hshift : (-(k : Int) - ((n.log2 : Int) + k + 1 + -(k : Int) - 53)).toNat =
        52 - n.log2 - k := by omega
    have hmant : (n * 2 ^ k) <<< (52 - n.log2 - k) = n * 2 ^ (52 - n.log2) := by
      rw [Nat.shiftLeft_eq, mul_assoc, ← pow_add]
      congr 2
      omega
    have hexp : -(k : Int) - ((52 - n.log2 - k : Nat) : Int) = -((52 - n.log2 : Nat) : Int) := by
      omega
    simp only [hshift, hmant, hexp]
    exact roundWithAccuracy_exact h hn _ (le_refl _)

variable {m : Nat}

/-- The sum of two canonical forms. -/
theorem add_unpacked (h : n + m < 2 ^ 53) :
    add Format.binary64 (unpacked n) (unpacked m) = unpacked (n + m) := by
  by_cases hn : n = 0
  · subst hn
    by_cases hm : m = 0
    · subst hm
      rfl
    · simp [unpacked, hm, add]
  by_cases hm : m = 0
  · subst hm
    simp [unpacked, hn, add]
  have hsum : n + m ≠ 0 := by omega
  have hlogn := log2_lt hn (by omega)
  have hlogm := log2_lt hm (by omega)
  have hn' : unpacked n = .finite .positive (n * 2 ^ (52 - n.log2)) (n.log2 - 52)
      (mantissa_pos hn) := by simp [unpacked, hn]
  have hm' : unpacked m = .finite .positive (m * 2 ^ (52 - m.log2)) (m.log2 - 52)
      (mantissa_pos hm) := by simp [unpacked, hm]
  rw [hn', hm', add]
  obtain ⟨k, hk⟩ : ∃ k : Nat, min ((n.log2 : Int) - 52) ((m.log2 : Int) - 52) = -(k : Int) :=
    ⟨52 - min n.log2 m.log2, by omega⟩
  have haligned : ∀ l : Nat, l ≠ 0 → l.log2 < 53 → -(k : Int) ≤ (l.log2 : Int) - 52 →
      (l * 2 ^ (52 - l.log2)) <<< ((l.log2 : Int) - 52 - -(k : Int)).toNat = l * 2 ^ k := by
    intro l hl hlog hle
    rw [Nat.shiftLeft_eq, mul_assoc, ← pow_add]
    congr 2
    omega
  have hvalue : (Sign.positive.apply ((n * 2 ^ k : Nat) : Int)) +
      Sign.positive.apply ((m * 2 ^ k : Nat) : Int) = (((n + m) * 2 ^ k : Nat) : Int) := by
    simp only [Sign.apply]
    push_cast
    ring
  simp only [hk, decreaseExponent, haligned n hn hlogn (by omega), haligned m hm hlogm (by omega),
    hvalue, Float.Model.UnpackedFloat.normalize]
  have hpos : (0 : Int) < (((n + m) * 2 ^ k : Nat) : Int) := by positivity
  have hcmp : compare (((n + m) * 2 ^ k : Nat) : Int) 0 = .gt := by
    rw [compare_gt_iff_gt]
    exact hpos
  rw [hcmp]
  exact round_exact hsum h k

/-! ## Packing -/

theorem unpackSign_packComponents (spec : Format) (s : Sign) (e : BitVec spec.exponentBits)
    (m : BitVec spec.mantissaBitsWithoutImplicit) :
    unpackSign (packComponents spec s e m) = s.toBitVec := by
  ext i hi
  have hzero : i = 0 := by omega
  subst hzero
  simp [unpackSign, packComponents, BitVec.getLsbD_append, BitVec.getElem_append]

/-- A biased exponent of a whole number is neither the one of infinity nor the one of zero. -/
theorem ofNat_exponent {e : Nat} (h : e < 53) :
    (BitVec.ofNat 11 (e + 1023)).toNat = e + 1023 ∧ BitVec.ofNat 11 (e + 1023) ≠ -1#_ ∧
      BitVec.ofNat 11 (e + 1023) ≠ 0#_ := by
  have hexponent : (BitVec.ofNat 11 (e + 1023)).toNat = e + 1023 := by
    rw [BitVec.toNat_ofNat, Nat.mod_eq_of_lt (by omega)]
  refine ⟨hexponent, ?_, ?_⟩
  · intro heq
    have hval := congrArg BitVec.toNat heq
    have hones : (-1#11).toNat = 2047 := rfl
    omega
  · intro heq
    have hval := congrArg BitVec.toNat heq
    have hzeros : (0#11).toNat = 0 := rfl
    omega

theorem toNat_implicit (hlow : 2 ^ 52 ≤ m) (hhigh : m < 2 ^ 53) :
    (1#1 ++ BitVec.ofNat 52 m).toNat = m := by
  have hone : (1#1).toNat <<< 52 = 2 ^ 52 := rfl
  rw [BitVec.toNat_append, ← Nat.shiftLeft_add_eq_or_of_lt (BitVec.isLt _), hone,
    BitVec.toNat_ofNat]
  omega

theorem pack_unpacked (hn : n ≠ 0) (h : n < 2 ^ 53) :
    UnpackedFloat.pack Format.binary64 (unpacked n) =
      packComponents Format.binary64 .positive (BitVec.ofNat 11 (n.log2 + 1023))
        (BitVec.ofNat 52 (n * 2 ^ (52 - n.log2))) := by
  have hlog := log2_lt hn h
  have hmant : (n * 2 ^ (52 - n.log2)).log2 = 52 := by
    rw [log2_mul_two_pow hn]
    omega
  have hexp : Format.binary64.exponentBias = 1023 := by decide
  have hbits : Format.binary64.mantissaBitsWithoutImplicit = 52 := rfl
  have hbias : ((n.log2 : Int) - 52 + (Format.binary64.exponentBias : Nat) +
      (Format.binary64.mantissaBitsWithoutImplicit : Nat)).toNat = n.log2 + 1023 := by
    omega
  rw [unpacked, dif_neg hn]
  simp only [UnpackedFloat.pack, hbias, hmant]
  rw [if_neg (by omega), if_pos (by decide)]

theorem unpack_pack_unpacked (h : n < 2 ^ 53) :
    UnpackedFloat.unpack Format.binary64 (UnpackedFloat.pack Format.binary64 (unpacked n)) =
      unpacked n := by
  by_cases hn : n = 0
  · subst hn
    rfl
  have hlog := log2_lt hn h
  have hmant := log2_mul_two_pow hn (52 - n.log2)
  obtain ⟨hexponent, hfinite, hnormal⟩ := ofNat_exponent hlog
  have hmantissa := toNat_implicit ((Nat.le_log2 (mantissa_pos hn).ne').mp (by omega))
    ((Nat.log2_lt (mantissa_pos hn).ne').mp (by omega))
  have hexp : Format.binary64.exponentBias = 1023 := by decide
  have hbits : Format.binary64.mantissaBitsWithoutImplicit = 52 := rfl
  have hunbias : ((n.log2 + 1023 : Nat) : Int) -
      ((Format.binary64.exponentBias : Int) + Format.binary64.mantissaBitsWithoutImplicit) =
        n.log2 - 52 := by
    omega
  rw [pack_unpacked hn h, UnpackedFloat.unpack]
  simp only [unpackMantissa_packComponents, unpackExponent_packComponents,
    unpackSign_packComponents]
  rw [if_neg hfinite, if_neg hnormal, unpacked, dif_neg hn]
  simp only [hexponent, hunbias, hmantissa]
  rfl

/-! ## Floats -/

/-- The float of a whole number, exact below 2 ^ 53. -/
def ofWhole (n : Nat) : Float :=
  .ofModel (.pack (unpacked n))

theorem unpack_ofWhole (h : n < 2 ^ 53) : (ofWhole n).toModel.unpack = unpacked n :=
  unpack_pack_unpacked h

theorem ofWhole_add (h : n + m < 2 ^ 53) : ofWhole n + ofWhole m = ofWhole (n + m) := by
  have hadd : ofWhole n + ofWhole m = .ofModel (.pack (add Format.binary64
      (ofWhole n).toModel.unpack (ofWhole m).toModel.unpack)) := rfl
  rw [hadd, unpack_ofWhole (by omega), unpack_ofWhole (by omega), add_unpacked h]
  rfl

theorem ofWhole_foldl (l : List Nat) (n : Nat) (h : n + l.sum < 2 ^ 53) :
    (l.map ofWhole).foldl (· + ·) (ofWhole n) = ofWhole (n + l.sum) := by
  induction l generalizing n with
  | nil => simp
  | cons m l ih =>
    simp only [List.sum_cons] at h
    rw [List.map_cons, List.foldl_cons, ofWhole_add (by omega), ih (n + m) (by omega),
      List.sum_cons, add_assoc]


end Yuanlei.WholeFloat
