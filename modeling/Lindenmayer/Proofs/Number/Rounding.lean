import Lindenmayer.Proofs.Number.Binary64
import Lindenmayer.Proofs.Number.Nearest

/-!
# Rounding in the model of binary64 arithmetic

The model of `Float` rounds a mantissa with two residual bits, which say how it relates to the exact
result. Here the result is a quotient of natural numbers: the mantissa is its integral part, and the
residual bits follow from the remainder. What is packed in the end is the magnitude nearest to the
quotient.
-/

namespace Lindenmayer.Binary64

open Float.Model
open UnpackedFloat (Sign Accuracy ExtendedMantissa accuracyOfFraction roundWithAccuracy)

/-! ## Residual bits -/

/-- An extended mantissa that stands for the quotient `n / d`. -/
structure Represents (em : ExtendedMantissa) (n d : Nat) : Prop where
  mantissa_eq : em.mantissa = n / d
  roundBit_eq : em.roundBit = decide (d ≤ 2 * (n % d))
  stickyBit_eq : em.stickyBit = decide (n % d ≠ 0 ∧ 2 * (n % d) ≠ d)

namespace Represents

variable {em : ExtendedMantissa} {n d : Nat}

theorem of_fraction (hd : 0 < d) :
    Represents (.ofMantissaAndAccuracy (n / d) (accuracyOfFraction (n % d) d)) n d := by
  unfold accuracyOfFraction
  by_cases hexact : n % d = 0
  · have hround : ¬d ≤ 2 * (n % d) := by omega
    rw [if_pos hexact]
    exact ⟨rfl, (decide_eq_false hround).symm, (decide_eq_false fun h => h.1 hexact).symm⟩
  · rw [if_neg hexact]
    rcases Nat.lt_trichotomy (2 * (n % d)) d with hlt | heq | hgt
    · rw [Nat.compare_eq_lt.2 hlt]
      exact ⟨rfl, (decide_eq_false (Nat.not_le.2 hlt)).symm,
        (decide_eq_true ⟨hexact, Nat.ne_of_lt hlt⟩).symm⟩
    · rw [Nat.compare_eq_eq.2 heq]
      exact ⟨rfl, (decide_eq_true (Nat.le_of_eq heq.symm)).symm,
        (decide_eq_false fun h => h.2 heq).symm⟩
    · rw [Nat.compare_eq_gt.2 hgt]
      exact ⟨rfl, (decide_eq_true (Nat.le_of_lt hgt)).symm,
        (decide_eq_true ⟨hexact, Nat.ne_of_gt hgt⟩).symm⟩

theorem roundedMantissa_eq (h : Represents em n d) (hd : 0 < d) :
    em.roundedMantissa = nearestInteger n d := by
  obtain ⟨mantissa, roundBit, stickyBit⟩ := em
  obtain ⟨rfl, rfl, rfl⟩ := h
  unfold ExtendedMantissa.roundedMantissa nearestInteger
  simp only
  by_cases hexact : n % d = 0
  · have hround : ¬d ≤ 2 * (n % d) := by omega
    rw [decide_eq_false hround, decide_eq_false fun h => h.1 hexact, if_pos (by omega)]
    rfl
  · rcases Nat.lt_trichotomy (2 * (n % d)) d with hlt | heq | hgt
    · rw [decide_eq_false (Nat.not_le.2 hlt), decide_eq_true ⟨hexact, Nat.ne_of_lt hlt⟩, if_pos hlt]
      rfl
    · rw [decide_eq_true (Nat.le_of_eq heq.symm), decide_eq_false fun h => h.2 heq,
        if_neg (Nat.not_lt.2 (Nat.le_of_eq heq.symm)), if_neg (Nat.not_lt.2 (Nat.le_of_eq heq))]
      rfl
    · rw [decide_eq_true (Nat.le_of_lt hgt), decide_eq_true ⟨hexact, Nat.ne_of_gt hgt⟩,
        if_neg (Nat.not_lt.2 (Nat.le_of_lt hgt)), if_pos hgt]
      rfl

/-- Shifting by one place halves the quotient. -/
theorem shiftRightOne (h : Represents em n d) (hd : 0 < d) :
    Represents em.shiftRightOne n (d * 2) := by
  have hquotient : n / (d * 2) = n / d / 2 := (Nat.div_div_eq_div_mul n d 2).symm
  have hremainder : n % (d * 2) = n % d + d * (n / d % 2) := Nat.mod_mul
  have hlt := Nat.mod_lt n hd
  obtain ⟨hmantissa, hroundBit, hstickyBit⟩ := h
  refine ⟨?_, ?_, ?_⟩
  · rw [ExtendedMantissa.shiftRightOne, hmantissa, hquotient]
  · rw [ExtendedMantissa.shiftRightOne, hmantissa, hremainder]
    rcases Nat.mod_two_eq_zero_or_one (n / d) with hparity | hparity
    · rw [hparity]
      simp
      omega
    · rw [hparity]
      simp
      omega
  · rw [ExtendedMantissa.shiftRightOne, hroundBit, hstickyBit, hremainder]
    rw [← Bool.decide_or]
    refine decide_eq_decide.2 ?_
    rcases Nat.mod_two_eq_zero_or_one (n / d) with hparity | hparity
    · rw [hparity]
      omega
    · rw [hparity]
      omega

theorem shiftRight (h : Represents em n d) (hd : 0 < d) (count : Nat) :
    Represents (em >>> count) n (d <<< count) := by
  induction count with
  | zero => exact h
  | succ count ih =>
    have hstep := ih.shiftRightOne (shiftLeft_pos hd count)
    rw [Nat.shiftLeft_succ, Nat.mul_comm]
    exact hstep

end Represents

/-! ## Packing -/

/-- The sign of the model for the sign of a value. -/
def signOf (negative : Bool) : Sign :=
  if negative then .negative else .positive

theorem toNat_packComponents (negative : Bool) (exponent : BitVec 11) (mantissa : BitVec 52) :
    (UnpackedFloat.packComponents .binary64 (signOf negative) exponent mantissa).toNat =
      bits negative (exponent.toNat * block + mantissa.toNat) := by
  have hexponent := exponent.isLt
  have hmantissa := mantissa.isLt
  unfold UnpackedFloat.packComponents
  rw [BitVec.toNat_append, BitVec.toNat_append, ← Nat.shiftLeft_add_eq_or_of_lt hmantissa,
    ← Nat.shiftLeft_add_eq_or_of_lt hexponent]
  cases negative with
  | false =>
    rw [show (signOf false).toBitVec.toNat = 0 from rfl, bits, if_neg Bool.false_ne_true,
      Nat.shiftLeft_eq, Nat.shiftLeft_eq]
    simp [block]
  | true =>
    rw [show (signOf true).toBitVec.toNat = 1 from rfl, bits, if_pos rfl, Nat.shiftLeft_eq,
      Nat.shiftLeft_eq]
    unfold block signWeight
    omega

/-- The value with given fields. -/
theorem ofModel_pack {u : UnpackedFloat} {negative : Bool} {code : Nat}
    (h : (UnpackedFloat.pack .binary64 u).toNat = bits negative (min code infinity)) :
    Float.ofModel (.pack u) = ofCode negative code := by
  apply eq_of_toBits
  rw [toBits_ofCode]
  apply UInt64.toNat_inj.1
  rw [UInt64.toNat_ofNat', Nat.mod_eq_of_lt (bits_lt negative (Nat.min_le_right _ _)), ← h]
  rfl

theorem ofModel_pack_zero (negative : Bool) :
    Float.ofModel (.pack (.zero (signOf negative))) = ofCode negative 0 :=
  ofModel_pack (toNat_packComponents negative 0 0)

/-- Packing puts mantissa and place together. -/
theorem ofModel_pack_finite (negative : Bool) {m place : Nat} (hm : 0 < m)
    (hlow : place = 0 ∨ block ≤ m) (hhigh : m < 2 * block) :
    Float.ofModel (.pack (.finite (signOf negative) m ((place : Int) - 1074) hm)) =
      ofCode negative (place * block + m) := by
  apply ofModel_pack
  have hbiased : ((place : Int) - 1074 + Format.binary64.exponentBias +
      Format.binary64.mantissaBitsWithoutImplicit).toNat = place + 1 := by
    rw [show Format.binary64.exponentBias = 1023 from rfl,
      show Format.binary64.mantissaBitsWithoutImplicit = 52 from rfl]
    omega
  unfold UnpackedFloat.pack
  simp only [hbiased]
  split
  · -- the exponent field is too narrow: the result is an infinity
    rename_i hlarge
    have hcode : min (place * block + m) infinity = infinity := by
      apply Nat.min_eq_right
      have hplace : 2046 ≤ place := by
        have : (2 : Nat) ^ Format.binary64.exponentBits = 2048 := rfl
        omega
      unfold infinity block at *
      omega
    rw [hcode]
    exact toNat_packComponents negative (-1#11) 0
  · rename_i hsmall
    have hplace : place < 2046 := by
      have : (2 : Nat) ^ Format.binary64.exponentBits = 2048 := rfl
      omega
    have hfinite : min (place * block + m) infinity = place * block + m := by
      apply Nat.min_eq_left
      unfold infinity block at *
      omega
    rw [hfinite]
    by_cases hnormal : block ≤ m
    · -- the leading bit of the mantissa is not stored but counted by the exponent field
      have hlog : m.log2 = 52 := (Nat.log2_eq_iff (by omega)).2 ⟨hnormal, hhigh⟩
      have hfraction : m % 2 ^ 52 = m - block := by
        rw [show (2 : Nat) ^ 52 = block from rfl, Nat.mod_eq_sub_mod hnormal,
          Nat.mod_eq_of_lt (by omega)]
      rw [if_pos (by rw [hlog]; rfl), toNat_packComponents, BitVec.toNat_ofNat, BitVec.toNat_ofNat,
        hfraction, Nat.mod_eq_of_lt (show place + 1 < 2 ^ 11 by omega), Nat.add_mul, Nat.one_mul,
        Nat.add_assoc, Nat.add_sub_cancel' hnormal]
    · have hlog : m.log2 < 52 := (Nat.log2_lt (by omega)).2 (by unfold block at *; omega)
      obtain rfl := hlow.resolve_right hnormal
      rw [if_neg (by
        rw [show Format.binary64.mantissaBits = 53 from rfl]
        omega), toNat_packComponents, BitVec.toNat_ofNat, BitVec.toNat_ofNat,
        Nat.mod_eq_of_lt (show m < 2 ^ 52 from Nat.lt_of_not_le hnormal)]

/-! ## Target exponents -/

theorem targetExponent_eq (mantissa : Nat) (exponent : Int) :
    Format.binary64.targetExponent (totalExponent mantissa exponent) =
      max ((mantissa.log2 : Int) + exponent - 52) (-1074) := by
  unfold Format.targetExponent totalExponent
  rw [show (Format.binary64.mantissaBits : Int) = 53 from rfl,
    show Format.binary64.minExponent = -1074 from rfl]
  omega

/-! ## The place of a quotient -/

theorem scaled_eq_zero {n d a b k : Nat} (hk : k ≤ b) (hlt : n * 2 ^ a < d * 2 ^ k) :
    n * 2 ^ a / (d * 2 ^ b) = 0 :=
  Nat.div_eq_of_lt
    (Nat.lt_of_lt_of_le hlt (Nat.mul_le_mul_left d (Nat.pow_le_pow_right (by decide) hk)))

section
variable {n d : Nat} (hd : 0 < d)

include hd

theorem mul_pow_lt (a : Nat) : n * 2 ^ a < d * 2 ^ ((n / d).log2 + 1 + a) := by
  have hlt : n < 2 ^ ((n / d).log2 + 1) * d := (Nat.div_lt_iff_lt_mul hd).1 Nat.lt_log2_self
  calc n * 2 ^ a < 2 ^ ((n / d).log2 + 1) * d * 2 ^ a :=
        Nat.mul_lt_mul_of_pos_right hlt (Nat.two_pow_pos a)
    _ = d * 2 ^ ((n / d).log2 + 1 + a) := by
        rw [Nat.pow_add]
        ring

theorem mul_pow_le (hne : n / d ≠ 0) (a : Nat) : d * 2 ^ ((n / d).log2 + a) ≤ n * 2 ^ a := by
  have hle := (Nat.le_div_iff_mul_le hd).1 (Nat.log2_self_le hne)
  calc d * 2 ^ ((n / d).log2 + a) = 2 ^ (n / d).log2 * d * 2 ^ a := by
        rw [Nat.pow_add]
        ring
    _ ≤ n * 2 ^ a := Nat.mul_le_mul_right _ hle

/-- Scaling a quotient by a power of two moves its first binary digit. -/
theorem log2_scaled {a b k : Nat} (hne : n / d ≠ 0) (hk : (n / d).log2 + a = b + k) :
    (n * 2 ^ a / (d * 2 ^ b)).log2 = k := by
  have hden : 0 < d * 2 ^ b := Nat.mul_pos hd (Nat.two_pow_pos b)
  have hlow : 2 ^ k ≤ n * 2 ^ a / (d * 2 ^ b) := by
    rw [Nat.le_div_iff_mul_le hden]
    calc 2 ^ k * (d * 2 ^ b) = d * 2 ^ ((n / d).log2 + a) := by
          rw [hk, Nat.pow_add]
          ring
      _ ≤ n * 2 ^ a := mul_pow_le hd hne a
  have hhigh : n * 2 ^ a / (d * 2 ^ b) < 2 ^ (k + 1) := by
    rw [Nat.div_lt_iff_lt_mul hden]
    calc n * 2 ^ a < d * 2 ^ ((n / d).log2 + 1 + a) := mul_pow_lt hd a
      _ = 2 ^ (k + 1) * (d * 2 ^ b) := by
          rw [Nat.add_right_comm, hk, Nat.pow_succ, Nat.pow_succ, Nat.pow_add]
          ring
  have hpos := Nat.two_pow_pos k
  exact (Nat.log2_eq_iff (by omega)).2 ⟨hlow, hhigh⟩

/-- The place of a quotient times a power of two, from the number of its binary digits. -/
theorem nearestPlace_eq {a b : Nat} (hzero : n / d = 0 → a ≤ b) :
    nearestPlace (n * 2 ^ a) (d * 2 ^ b) = (n / d).log2 + a - b - 52 := by
  unfold nearestPlace
  by_cases hquotient : n / d = 0
  · have hle := hzero hquotient
    have hlt : n * 2 ^ a < d * 2 ^ a := Nat.mul_lt_mul_of_pos_right
      (Nat.lt_of_div_eq_zero hd hquotient) (Nat.two_pow_pos a)
    rw [scaled_eq_zero hle hlt, hquotient, show Nat.log2 0 = 0 from rfl]
    omega
  · rcases Nat.lt_or_ge ((n / d).log2 + a) b with hlt | hge
    · rw [scaled_eq_zero (show (n / d).log2 + 1 + a ≤ b by omega) (mul_pow_lt hd a),
        show Nat.log2 0 = 0 from rfl]
      omega
    · obtain ⟨k, hk⟩ := Nat.exists_eq_add_of_le hge
      rw [log2_scaled hd hquotient hk, hk]
      omega

end

/-! ## Rounding -/

/-- A mantissa that has been rounded need not be rounded again, but it may have to be carried. -/
theorem shiftToTargetExponent_rounded {m place : Nat} (hhigh : m ≤ 2 * block) :
    UnpackedFloat.shiftToTargetExponent .binary64 m ((place : Int) - 1074) .exact =
      if m < 2 * block then (⟨m, false, false⟩, (place : Int) - 1074)
      else (⟨block, false, false⟩, ((place + 1 : Nat) : Int) - 1074) := by
  unfold UnpackedFloat.shiftToTargetExponent UnpackedFloat.shiftToExponent
  simp only [targetExponent_eq]
  split
  · rename_i hlt
    have hlog : m.log2 ≤ 52 := by
      by_cases hzero : m = 0
      · rw [hzero]
        decide
      · exact Nat.le_of_lt_succ ((Nat.log2_lt hzero).2 hlt)
    have hshift : (max ((m.log2 : Int) + ((place : Int) - 1074) - 52) (-1074) -
        ((place : Int) - 1074)).toNat = 0 := by omega
    rw [hshift]
    simp only [Int.ofNat_zero, Int.add_zero]
    rfl
  · rename_i hnot
    obtain rfl : m = 2 * block := by omega
    have hlog : (2 * block).log2 = 53 := by decide
    have hshift : (max (((2 * block).log2 : Int) + ((place : Int) - 1074) - 52) (-1074) -
        ((place : Int) - 1074)).toNat = 1 := by
      rw [hlog]
      omega
    rw [hshift, show (place : Int) - 1074 + (1 : Nat) = ((place + 1 : Nat) : Int) - 1074 by omega]
    rfl

/-- What the model packs once it has shifted a mantissa to its place: the rounded mantissa, which is
carried if it has become too large. -/
theorem ofModel_pack_roundWithAccuracy (negative : Bool) {mantissa place m : Nat} {exponent : Int}
    {accuracy : Accuracy} {em : ExtendedMantissa}
    (hshift : UnpackedFloat.shiftToTargetExponent .binary64 mantissa exponent accuracy =
      (em, (place : Int) - 1074))
    (hrounded : em.roundedMantissa = m) (hlow : place = 0 ∨ block ≤ m) (hhigh : m ≤ 2 * block) :
    Float.ofModel (.pack (roundWithAccuracy .binary64 (signOf negative) mantissa exponent
      accuracy)) = ofCode negative (place * block + m) := by
  unfold roundWithAccuracy
  simp only [hshift, hrounded, shiftToTargetExponent_rounded hhigh]
  by_cases hlt : m < 2 * block
  · simp only [if_pos hlt]
    split
    · rename_i hzero
      have hplace : place = 0 := hlow.resolve_right (by
        rw [hzero]
        decide)
      rw [hplace, hzero]
      exact ofModel_pack_zero negative
    · rename_i hne
      exact ofModel_pack_finite negative (Nat.pos_of_ne_zero hne) hlow hlt
  · obtain rfl : m = 2 * block := by omega
    have hpos : 0 < block := by decide
    have hcarried : place * block + 2 * block = (place + 1) * block + block := by
      rw [Nat.add_mul, Nat.one_mul, Nat.two_mul, Nat.add_assoc]
    simp only [if_neg hlt]
    rw [dif_neg (Nat.ne_of_gt hpos), hcarried]
    exact ofModel_pack_finite negative hpos (.inr (Nat.le_refl block)) (by omega)

/-- The bits that are left behind the place of a quotient round it to the nearest mantissa. -/
theorem roundedMantissa_shifted {n d : Nat} (hd : 0 < d) {a b shift : Nat}
    (hshift : shift + a = b + nearestPlace (n * 2 ^ a) (d * 2 ^ b)) :
    (ExtendedMantissa.ofMantissaAndAccuracy (n / d) (accuracyOfFraction (n % d) d) >>>
      shift).roundedMantissa = nearestMantissa (n * 2 ^ a) (d * 2 ^ b) := by
  have hscale : d <<< shift * 2 ^ a =
      (d * 2 ^ b) <<< nearestPlace (n * 2 ^ a) (d * 2 ^ b) := by
    rw [Nat.shiftLeft_eq, Nat.shiftLeft_eq, Nat.mul_assoc, ← Nat.pow_add, hshift, Nat.pow_add,
      Nat.mul_assoc]
  rw [((Represents.of_fraction hd).shiftRight hd shift).roundedMantissa_eq (shiftLeft_pos hd shift),
    ← nearestInteger_mul_right n _ (Nat.two_pow_pos a), hscale]
  rfl

/-- What the model rounds and packs is the magnitude nearest to the exact quotient, counted in units
of the smallest magnitude. -/
theorem ofModel_pack_round (negative : Bool) {n d : Nat} (hd : 0 < d) {exponent : Int} {a b : Nat}
    (hexponent : (a : Int) - b = exponent + 1074)
    (htarget : exponent ≤ Format.binary64.targetExponent (totalExponent (n / d) exponent)) :
    Float.ofModel (.pack (roundWithAccuracy .binary64 (signOf negative) (n / d) exponent
      (accuracyOfFraction (n % d) d))) = ofCode negative (nearestCode (n * 2 ^ a) (d * 2 ^ b)) := by
  have hb : 0 < d * 2 ^ b := Nat.mul_pos hd (Nat.two_pow_pos b)
  rw [targetExponent_eq] at htarget
  have hplace : nearestPlace (n * 2 ^ a) (d * 2 ^ b) = (n / d).log2 + a - b - 52 := by
    refine nearestPlace_eq hd fun hzero => ?_
    rw [hzero, show Nat.log2 0 = 0 from rfl] at htarget
    omega
  have hmax : max (((n / d).log2 : Int) + exponent - 52) (-1074) =
      (nearestPlace (n * 2 ^ a) (d * 2 ^ b) : Int) - 1074 := by
    rw [hplace]
    omega
  obtain ⟨shift, hshift⟩ : ∃ shift : Nat,
      exponent + shift = (nearestPlace (n * 2 ^ a) (d * 2 ^ b) : Int) - 1074 :=
    ⟨(max (((n / d).log2 : Int) + exponent - 52) (-1074) - exponent).toNat, by omega⟩
  have hshifted : UnpackedFloat.shiftToTargetExponent .binary64 (n / d) exponent
      (accuracyOfFraction (n % d) d) =
        (ExtendedMantissa.ofMantissaAndAccuracy (n / d) (accuracyOfFraction (n % d) d) >>> shift,
          (nearestPlace (n * 2 ^ a) (d * 2 ^ b) : Int) - 1074) := by
    unfold UnpackedFloat.shiftToTargetExponent UnpackedFloat.shiftToExponent
    simp only [targetExponent_eq, hmax]
    rw [show ((nearestPlace (n * 2 ^ a) (d * 2 ^ b) : Int) - 1074 - exponent).toNat = shift by omega,
      hshift]
  have hrounded := roundedMantissa_shifted hd (show shift + a =
    b + nearestPlace (n * 2 ^ a) (d * 2 ^ b) by omega)
  rw [ofModel_pack_roundWithAccuracy negative hshifted hrounded (le_nearestMantissa hb _)
    (nearestMantissa_le hb _)]
  -- beyond the largest finite magnitude both codes are that of infinity
  apply eq_of_toBits
  rw [toBits_ofCode, toBits_ofCode, nearestCode_eq, min_assoc, min_self]

end Lindenmayer.Binary64
