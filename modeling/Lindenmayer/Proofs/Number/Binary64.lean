import Mathlib
import Lindenmayer.Number.Binary64

/-!
# Codes and the operations on binary64 values

Codes of magnitudes and the operations on `Float` are about the same bits. The values whose code
lies beyond that of infinity are the NaN; no comparison holds of one, and only 1 equals 1.
-/

namespace Lindenmayer.Binary64

open Float.Model

/-! ## The fields of a value -/

section
variable (x : Float)

/-- The exponent field of a value. -/
abbrev exponentField : BitVec 11 :=
  @UnpackedFloat.unpackExponent Format.binary64 x.toBits.toBitVec

/-- The mantissa field of a value. -/
abbrev mantissaField : BitVec 52 :=
  @UnpackedFloat.unpackMantissa Format.binary64 x.toBits.toBitVec

/-- The sign field of a value. -/
abbrev signField : BitVec 1 :=
  @UnpackedFloat.unpackSign Format.binary64 x.toBits.toBitVec

theorem toNat_exponentField : (exponentField x).toNat = code x / block := by
  have hlt := x.toBits.toNat_lt
  simp [UnpackedFloat.unpackExponent, BitVec.extractLsb_toNat, Nat.shiftRight_eq_div_pow]
  unfold code signWeight block
  omega

theorem toNat_mantissaField : (mantissaField x).toNat = code x % block := by
  simp [UnpackedFloat.unpackMantissa, BitVec.extractLsb_toNat]
  unfold code signWeight block
  omega

theorem toNat_signField : (signField x).toNat = if isNegative x then 1 else 0 := by
  have hlt := x.toBits.toNat_lt
  simp [UnpackedFloat.unpackSign, BitVec.extractLsb_toNat, Nat.shiftRight_eq_div_pow]
  unfold isNegative signWeight
  split <;> simp_all <;> omega

theorem code_lt : code x < signWeight :=
  Nat.mod_lt _ (by decide)

end

theorem exponentField_eq_last_iff (x : Float) : exponentField x = -1#11 ↔ infinity ≤ code x := by
  have hlt := code_lt x
  rw [← BitVec.toNat_inj, toNat_exponentField, show (-1#11).toNat = 2047 from rfl]
  unfold infinity signWeight block at *
  omega

/-- What the model of `Float` makes of a value that is beyond infinity. -/
theorem unpack_of_infinity_lt {x : Float} (h : infinity < code x) :
    x.toModel.unpack = .notANumber := by
  have hexponent := (exponentField_eq_last_iff x).2 (Nat.le_of_lt h)
  have hmantissa : mantissaField x ≠ 0#52 := by
    rw [Ne, ← BitVec.toNat_inj, toNat_mantissaField, show (0#52).toNat = 0 from rfl]
    have := code_lt x
    unfold infinity block signWeight at *
    omega
  show UnpackedFloat.unpack .binary64 x.toBits.toBitVec = .notANumber
  unfold UnpackedFloat.unpack
  simp only [hexponent, hmantissa, ↓reduceIte]

/-- What the model of `Float` makes of a value that is not beyond infinity. -/
theorem unpack_ne_notANumber {x : Float} (h : code x ≤ infinity) :
    x.toModel.unpack ≠ .notANumber := by
  show UnpackedFloat.unpack .binary64 x.toBits.toBitVec ≠ .notANumber
  unfold UnpackedFloat.unpack
  simp only
  split
  · rename_i hexponent
    have hinfinity := (exponentField_eq_last_iff x).1 hexponent
    have hmantissa : mantissaField x = 0#52 := by
      rw [← BitVec.toNat_inj, toNat_mantissaField, show (0#52).toNat = 0 from rfl]
      unfold infinity block at *
      omega
    simp only [hmantissa, ↓reduceIte]
    exact nofun
  · split
    · split <;> exact nofun
    · exact nofun

/-- A value is a NaN just if it lies beyond infinity. -/
theorem isNaN_iff {x : Float} : x.isNaN ↔ infinity < code x := by
  show x.toModel.unpack.isNaN = true ↔ infinity < code x
  rcases Nat.lt_or_ge infinity (code x) with hlt | hle
  · rw [unpack_of_infinity_lt hlt]
    exact ⟨fun _ => hlt, fun _ => rfl⟩
  · have hne := unpack_ne_notANumber hle
    refine ⟨fun hnan => ?_, fun hlt => absurd hlt (Nat.not_lt.2 hle)⟩
    cases hx : x.toModel.unpack <;> simp_all [UnpackedFloat.isNaN]

/-- No code makes a NaN. -/
theorem code_ofCode_le (negative : Bool) (n : Nat) : code (ofCode negative n) ≤ infinity := by
  have hmin := Nat.min_le_right n infinity
  have hlt := bits_lt negative hmin
  unfold code
  rw [toBits_ofCode, UInt64.toNat_ofNat', Nat.mod_eq_of_lt hlt, bits]
  unfold infinity signWeight at *
  split <;> omega

/-! ## Comparisons -/

/-- A value that is compared with another is no NaN. -/
theorem code_le_infinity_of_le {x y : Float} (h : x ≤ y) : code x ≤ infinity := by
  rcases Nat.lt_or_ge infinity (code x) with hlt | hle
  · have hmodel : x.toModel.unpack.le y.toModel.unpack = true := of_decide_eq_true h
    rw [unpack_of_infinity_lt hlt] at hmodel
    exact absurd hmodel (by simp [UnpackedFloat.le, UnpackedFloat.compare])
  · exact hle

/-- What equals a positive finite value has its mantissa and its exponent. -/
theorem eq_finite_of_beq {u : UnpackedFloat} {m : Nat} {e : Int} {hm : 0 < m}
    (h : u.beq (.finite .positive m e hm)) : u = .finite .positive m e hm := by
  rcases u with (_ | _) | _ | _ | ⟨_ | _, n, k, hn⟩
  case finite.positive =>
    have hcompare : (compare k e).then (compare n m) = .eq := by
      simpa [UnpackedFloat.beq, UnpackedFloat.compare] using h
    obtain ⟨hk, hn⟩ := Ordering.then_eq_eq.1 hcompare
    obtain rfl := Std.LawfulEqOrd.eq_of_compare hk
    obtain rfl := Std.LawfulEqOrd.eq_of_compare hn
    rfl
  all_goals exact absurd h (by simp [UnpackedFloat.beq, UnpackedFloat.compare])

/-- Only 1 equals 1. -/
theorem eq_one_of_beq {x : Float} (h : x == 1.0) : x = 1.0 := by
  have hone : (1.0 : Float).toModel.unpack = .finite .positive block (-52) (by decide) := rfl
  have hmodel : x.toModel.unpack.beq (1.0 : Float).toModel.unpack = true := h
  rw [hone] at hmodel
  have hunpack : UnpackedFloat.unpack .binary64 x.toBits.toBitVec = _ := eq_finite_of_beq hmodel
  unfold UnpackedFloat.unpack at hunpack
  simp only at hunpack
  split at hunpack
  · split at hunpack <;> exact absurd hunpack nofun
  · split at hunpack
    · split at hunpack
      · exact absurd hunpack nofun
      · -- a mantissa field is too small
        injection hunpack with _ hmantissa _
        have := (mantissaField x).isLt
        unfold block at hmantissa
        omega
    · injection hunpack with hsign hmantissa hexponent
      have hone : code 1.0 = 1023 * block := rfl
      have hcode : code x = code 1.0 := by
        have hfraction : code x % block < 2 ^ 52 := Nat.mod_lt _ (by decide)
        rw [BitVec.toNat_append, toNat_mantissaField, ← Nat.shiftLeft_add_eq_or_of_lt hfraction]
          at hmantissa
        rw [toNat_exponentField, show Format.binary64.exponentBias = 1023 from rfl] at hexponent
        rw [show (1#1).toNat <<< 52 = block from rfl] at hmantissa
        unfold block at *
        omega
      have hpositive : isNegative x = false := by
        by_cases hnegative : isNegative x = true
        · have hfield : signField x = 1#1 :=
            BitVec.eq_of_toNat_eq (by rw [toNat_signField, if_pos hnegative]; rfl)
          rw [show @UnpackedFloat.unpackSign Format.binary64 x.toBits.toBitVec = 1#1 from hfield]
            at hsign
          exact absurd hsign nofun
        · exact Bool.eq_false_iff.2 hnegative
      rw [← ofCode_code (x := x) (by rw [hcode]; decide), hcode, hpositive]
      rfl

end Lindenmayer.Binary64
