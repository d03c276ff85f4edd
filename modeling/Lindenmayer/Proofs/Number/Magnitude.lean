import Lindenmayer.Proofs.Number.Arithmetic

/-!
# The order and the values of finite magnitudes

Finite magnitudes are compared like their codes, and what lies between two of them is one. Each stands
for a rational number, its value. Sums, differences and quotients up to `7 / 2` are magnitudes whose
values are off the exact results by at most `2 ^ -51`.
-/

namespace Lindenmayer.Binary64

open Float.Model

variable {x y : Float}

/-! ## Order -/

/-- Magnitudes are compared as their codes are. -/
theorem compare_unpacked (a b : Nat) :
    (unpacked false a).compare (unpacked false b) = some (compare a b) := by
  have ha := place_mul_block_add_mantissa a
  have hb := place_mul_block_add_mantissa b
  by_cases hzero : mantissa a = 0
  · have ha : a = 0 := eq_zero_of_mantissa hzero
    rw [ha, unpacked_zero]
    by_cases hzero' : mantissa b = 0
    · rw [eq_zero_of_mantissa hzero', unpacked_zero]
      rfl
    · rw [unpacked_of_ne_zero _ hzero', Nat.compare_eq_lt.2 (by omega)]
      rfl
  · by_cases hzero' : mantissa b = 0
    · have hb : b = 0 := eq_zero_of_mantissa hzero'
      rw [unpacked_of_ne_zero _ hzero, hb, unpacked_zero, Nat.compare_eq_gt.2 (by omega)]
      rfl
    · rw [unpacked_of_ne_zero _ hzero, unpacked_of_ne_zero _ hzero']
      show some ((compare ((place a : Int) - 1074) ((place b : Int) - 1074)).then
        (compare (mantissa a) (mantissa b))) = _
      refine congrArg some ?_
      have hplace := place_eq_zero_or a
      have hplace' := place_eq_zero_or b
      have hlt := mantissa_lt a
      have hlt' := mantissa_lt b
      -- a step to the next place is more than any mantissa makes up for
      rcases Nat.lt_trichotomy (place a) (place b) with hless | heq | hgreater
      · have hmul := Nat.mul_le_mul_right block (Nat.succ_le_of_lt hless)
        rw [Nat.succ_mul] at hmul
        have hcode : compare a b = .lt := Nat.compare_eq_lt.2 (by omega)
        rw [hcode, Int.compare_eq_lt.2 (by omega)]
        rfl
      · -- in one place the mantissas decide
        rw [heq] at ha
        rw [heq, Int.compare_eq_eq.2 rfl]
        show compare (mantissa a) (mantissa b) = compare a b
        rcases Nat.lt_trichotomy (mantissa a) (mantissa b) with hless | hsame | hgreater
        · rw [Nat.compare_eq_lt.2 hless, Nat.compare_eq_lt.2 (by omega)]
        · rw [Nat.compare_eq_eq.2 hsame, Nat.compare_eq_eq.2 (by omega)]
        · rw [Nat.compare_eq_gt.2 hgreater, Nat.compare_eq_gt.2 (by omega)]
      · have hmul := Nat.mul_le_mul_right block (Nat.succ_le_of_lt hgreater)
        rw [Nat.succ_mul] at hmul
        have hcode : compare a b = .gt := Nat.compare_eq_gt.2 (by omega)
        rw [hcode, Int.compare_eq_gt.2 (by omega)]
        rfl

theorem unpack_of_code_eq_infinity (h : code x = infinity) :
    x.toModel.unpack = .infinity (signOf (isNegative x)) := by
  have hexponent := (exponentField_eq_last_iff x).2 (Nat.le_of_eq h.symm)
  have hmantissa : mantissaField x = 0#52 := by
    apply BitVec.eq_of_toNat_eq
    rw [toNat_mantissaField, h]
    rfl
  show UnpackedFloat.unpack .binary64 x.toBits.toBitVec = _
  unfold UnpackedFloat.unpack
  simp only [hexponent, hmantissa, ↓reduceIte]
  rw [ofBitVec_signField]

theorem le_iff_unpack : x ≤ y ↔ x.toModel.unpack.le y.toModel.unpack = true :=
  ⟨of_decide_eq_true, decide_eq_true⟩

theorem lt_iff_unpack : x < y ↔ x.toModel.unpack.lt y.toModel.unpack = true :=
  ⟨of_decide_eq_true, decide_eq_true⟩

protected theorem le_of_lt (h : x < y) : x ≤ y := by
  rw [lt_iff_unpack, UnpackedFloat.lt, beq_iff_eq] at h
  rw [le_iff_unpack, UnpackedFloat.le, h]
  rfl

namespace IsMagnitude

/-- Magnitudes are ordered as their codes are. -/
theorem le_iff (hx : IsMagnitude x) (hy : IsMagnitude y) : x ≤ y ↔ code x ≤ code y := by
  rw [le_iff_unpack, hx.unpack_eq, hy.unpack_eq, UnpackedFloat.le, compare_unpacked]
  exact Nat.isLE_compare

theorem lt_iff (hx : IsMagnitude x) (hy : IsMagnitude y) : x < y ↔ code x < code y := by
  rw [lt_iff_unpack, hx.unpack_eq, hy.unpack_eq, UnpackedFloat.lt, compare_unpacked]
  rw [beq_iff_eq, Option.some_inj]
  exact Nat.compare_eq_lt

section
variable {low high : Float} (hlow : IsMagnitude low) (hhigh : IsMagnitude high) (hle : low ≤ x)
  (hge : x ≤ high)

include hlow hhigh hle hge

/-- Infinities do not lie between magnitudes. -/
theorem finite_of_between : code x < infinity := by
  apply Nat.lt_of_le_of_ne (code_le_infinity_of_le hge)
  intro hinfinity
  rw [le_iff_unpack, unpack_of_code_eq_infinity hinfinity, hlow.unpack_eq] at hle
  rw [le_iff_unpack, unpack_of_code_eq_infinity hinfinity, hhigh.unpack_eq] at hge
  unfold unpacked at hle hge
  cases hsign : isNegative x with
  | false =>
    rw [hsign] at hge
    split at hge <;> exact Bool.false_ne_true hge
  | true =>
    rw [hsign] at hle
    split at hle <;> exact Bool.false_ne_true hle

/-- What lies between two magnitudes, the lower of which is not zero, is a magnitude. -/
theorem of_between (hpos : code low ≠ 0) : IsMagnitude x := by
  have hfinite := finite_of_between hlow hhigh hle hge
  have hmantissa : mantissa (code low) ≠ 0 := fun hzero => hpos (eq_zero_of_mantissa hzero)
  refine ⟨?_, hfinite⟩
  by_contra hnegative
  rw [le_iff_unpack, hlow.unpack_eq, unpacked_of_ne_zero _ hmantissa, unpack_of_code_lt hfinite,
    Bool.of_not_eq_false hnegative] at hle
  unfold unpacked at hle
  split at hle
  · exact Bool.false_ne_true hle
  · exact Bool.false_ne_true hle

/-- Where the lower one is zero, there is one more number: zero with a sign. -/
theorem of_between_or (hzero : low = 0.0) : IsMagnitude x ∨ x = -0.0 := by
  have hfinite := finite_of_between hlow hhigh hle hge
  cases hsign : isNegative x with
  | false => exact .inl ⟨hsign, hfinite⟩
  | true =>
    have hcode : code x = 0 := by
      by_contra hne
      have hmantissa : mantissa (code x) ≠ 0 := fun hzero => hne (eq_zero_of_mantissa hzero)
      rw [le_iff_unpack, hzero, unpack_of_code_lt hfinite, unpacked_of_ne_zero _ hmantissa, hsign]
        at hle
      exact Bool.false_ne_true hle
    right
    rw [← ofCode_code (Nat.le_of_lt hfinite), hsign, hcode]
    rfl

end

end IsMagnitude

/-! ## Values -/

/-- The number that a finite magnitude stands for. -/
def value (x : Float) : ℚ :=
  units (code x) / 2 ^ unitPlaces

/-- Values are magnitudes, whatever the sign. -/
@[simp]
theorem value_nonneg (x : Float) : 0 ≤ value x := by
  unfold value
  positivity

/-- The value of a number whose mantissa and place are known. -/
theorem value_eq {m k : Nat} (hm : mantissa (code x) = m)
    (hplaces : place (code x) + k = unitPlaces) : value x = m / 2 ^ k := by
  unfold value units
  rw [← hplaces, hm, Nat.shiftLeft_eq, pow_add, Nat.cast_mul, Nat.cast_pow, Nat.cast_ofNat]
  field_simp

/-- The order of values is that of codes. -/
theorem IsMagnitude.value_le_iff (hx : IsMagnitude x) (hy : IsMagnitude y) :
    value x ≤ value y ↔ code x ≤ code y := by
  unfold value
  rw [div_le_div_iff_of_pos_right (by positivity), Nat.cast_le,
    units_le_units_iff (Nat.le_of_lt hx.finite) (Nat.le_of_lt hy.finite)]

@[simp]
theorem isMagnitude_zero : IsMagnitude 0.0 :=
  ⟨by decide +kernel, by decide +kernel⟩

@[simp]
theorem isMagnitude_one : IsMagnitude 1.0 :=
  ⟨by decide +kernel, by decide +kernel⟩

@[simp]
theorem value_one : value 1.0 = 1 := by
  rw [value_eq (m := 2 ^ 52) (k := 52) (by decide +kernel) (by decide +kernel)]
  norm_num

/-- A value is a whole number of the smallest units. -/
theorem value_mul_scale (x : Float) : value x * 2 ^ unitPlaces = units (code x) :=
  div_mul_cancel₀ _ (by positivity)

/-- The distance of two magnitudes in units. -/
theorem natAbs_units_sub (x y : Float) :
    (((units (code x) : Int) - units (code y)).natAbs : ℚ) =
      |value x - value y| * 2 ^ unitPlaces := by
  rw [Nat.cast_natAbs, Int.cast_abs, Int.cast_sub, Int.cast_natCast, Int.cast_natCast,
    ← value_mul_scale, ← value_mul_scale, ← sub_mul, abs_mul,
    abs_of_pos (show (0 : ℚ) < 2 ^ unitPlaces by positivity)]

@[simp]
theorem units_one : units (code 1.0) = 2 ^ unitPlaces := by
  have hscale := value_mul_scale 1.0
  rw [value_one, one_mul] at hscale
  exact_mod_cast hscale.symm

/-- A finite magnitude that is off a number by at most so many times `2 ^ -51`. -/
structure IsNear (x : Float) (r : ℚ) (errors : Nat) : Prop where
  magnitude : IsMagnitude x
  dist_le : |value x - r| ≤ errors / 2 ^ 51

/-- A number is near its own value. -/
theorem IsMagnitude.isNear (hx : IsMagnitude x) : IsNear x (value x) 0 :=
  ⟨hx, by simp⟩

/-- A larger error may be allowed. -/
theorem IsNear.mono {r : ℚ} {m n : Nat} (hx : IsNear x r m) (h : m ≤ n) : IsNear x r n :=
  ⟨hx.magnitude, hx.dist_le.trans (by gcongr)⟩

/-- Rounding moves a number up to `7 / 2` by no more than `2 ^ -51`. -/
theorem isNear_nearest {n d : Nat} (hd : 0 < d) {r : ℚ} (hr : n = r * (d * 2 ^ unitPlaces))
    (hle : r ≤ 7 / 2) : IsNear (ofCode false (nearestCode n d)) r 1 := by
  obtain ⟨scale, hscale⟩ : ∃ scale : ℚ, scale = 2 ^ unitPlaces := ⟨_, rfl⟩
  have hlarge : 2 ^ 60 ≤ scale := by
    rw [hscale]
    exact pow_le_pow_right₀ (by norm_num) (by decide)
  have hpos : (0 : ℚ) < d := Nat.cast_pos.2 hd
  have hexact : (n : ℚ) = r * (d * scale) := by rw [hscale, hr]
  have hbound : (n : ℚ) ≤ 7 / 2 * (d * scale) := by
    rw [hexact]
    exact mul_le_mul_of_nonneg_right hle (by positivity)
  have hn : n ≤ 2 ^ (2 + unitPlaces) * d := by
    rw [← Nat.cast_le (α := ℚ), Nat.cast_mul, Nat.cast_pow, Nat.cast_ofNat, pow_add, ← hscale]
    have : 0 < d * scale := by positivity
    linarith
  obtain ⟨hfinite, hbelow, habove⟩ := units_nearestCode hd (by decide) hn
  have hcode : code (ofCode false (nearestCode n d)) = nearestCode n d := by
    rw [code_ofCode, Nat.min_eq_left (Nat.le_of_lt hfinite)]
  refine ⟨⟨isNegative_ofCode _ _, by rwa [hcode]⟩, ?_⟩
  have hvalue : value (ofCode false (nearestCode n d)) * scale = units (nearestCode n d) := by
    rw [value, hcode, hscale, div_mul_cancel₀ _ (by positivity)]
  rw [← Nat.cast_le (α := ℚ)] at hbelow habove
  push_cast at hbelow habove
  rw [← hvalue] at hbelow habove
  generalize value (ofCode false (nearestCode n d)) = v at *
  have hdivide {e : ℚ} (h : e * (d * scale) ≤ 1 / 2 ^ 51 * (d * scale)) : e ≤ 1 / 2 ^ 51 :=
    le_of_mul_le_mul_right h (by positivity)
  have hunit : 2 ^ 60 * d ≤ scale * d := mul_le_mul_of_nonneg_right hlarge (le_of_lt hpos)
  rw [Nat.cast_one, abs_le']
  constructor <;> apply hdivide <;> linarith

/-! ## Operations -/

/-- Errors add up. -/
theorem IsNear.trans {r s : ℚ} {m n : Nat} (hx : IsNear x r m) (h : |r - s| ≤ n / 2 ^ 51) :
    IsNear x s (m + n) := by
  refine ⟨hx.magnitude, ?_⟩
  calc |value x - s| ≤ |value x - r| + |r - s| := abs_sub_le _ _ _
    _ ≤ m / 2 ^ 51 + n / 2 ^ 51 := add_le_add hx.dist_le h
    _ = (m + n : Nat) / 2 ^ 51 := by rw [Nat.cast_add, add_div]

namespace IsMagnitude

/-- A sum is off by one rounding error. -/
theorem isNear_add (hx : IsMagnitude x) (hy : IsMagnitude y) (h : value x + value y ≤ 7 / 2) :
    IsNear (x + y) (value x + value y) 1 := by
  rw [hx.add_eq hy]
  refine isNear_nearest Nat.one_pos ?_ h
  rw [Nat.cast_add, Nat.cast_one, one_mul, add_mul, value_mul_scale, value_mul_scale]

/-- A quotient is off by one rounding error. -/
theorem isNear_div (hx : IsMagnitude x) (hy : IsMagnitude y) (hpos : 0 < value y)
    (h : value x / value y ≤ 7 / 2) : IsNear (x / y) (value x / value y) 1 := by
  have hunits : 0 < units (code y) := by
    rw [← Nat.cast_pos (α := ℚ), ← value_mul_scale]
    positivity
  rw [hx.div_eq hy hunits]
  refine isNear_nearest hunits ?_ h
  rw [Nat.cast_mul, Nat.cast_pow, Nat.cast_ofNat, ← value_mul_scale, ← value_mul_scale]
  field_simp

/-- The distance of two magnitudes. -/
theorem isNear_distance (h : |value x - value y| ≤ 7 / 2) :
    IsNear (ofCode false (nearestCode ((units (code x) : Int) - units (code y)).natAbs 1))
      |value x - value y| 1 := by
  refine isNear_nearest Nat.one_pos ?_ h
  rw [natAbs_units_sub, Nat.cast_one, one_mul]

/-- A difference is off by one rounding error. -/
theorem isNear_sub (hx : IsMagnitude x) (hy : IsMagnitude y) (hle : value y ≤ value x)
    (h : value x - value y ≤ 7 / 2) : IsNear (x - y) (value x - value y) 1 := by
  have hsign : ¬units (code x) < units (code y) := by
    rw [← Nat.cast_lt (α := ℚ), ← value_mul_scale, ← value_mul_scale, not_lt]
    exact mul_le_mul_of_nonneg_right hle (by positivity)
  rw [hx.sub_eq hy, decide_eq_false hsign]
  have habs : |value x - value y| = value x - value y := abs_of_nonneg (sub_nonneg.2 hle)
  have hnear := isNear_distance (x := x) (y := y) (by rwa [habs])
  rwa [habs] at hnear

end IsMagnitude

/-- The absolute value has the same code without the sign. -/
theorem abs_ofCode (negative : Bool) {n : Nat} (h : n < infinity) :
    (ofCode negative n).abs = ofCode false n := by
  have hcode : code (ofCode negative n) = n := by
    rw [code_ofCode, Nat.min_eq_left (Nat.le_of_lt h)]
  have habs : (ofCode negative n).abs =
      Float.ofModel (.pack (ofCode negative n).toModel.unpack.abs) := rfl
  rw [habs, unpack_of_code_lt (by rwa [hcode]), hcode, isNegative_ofCode,
    ← ofModel_pack_unpacked false]
  unfold unpacked
  split <;> rfl

namespace IsMagnitude

/-- A distance is off by one rounding error, too. -/
theorem isNear_abs_sub (hx : IsMagnitude x) (hy : IsMagnitude y)
    (h : |value x - value y| ≤ 7 / 2) : IsNear (x - y).abs |value x - value y| 1 := by
  have hnear := isNear_distance h
  have hfinite := hnear.magnitude.finite
  rw [code_ofCode] at hfinite
  rw [hx.sub_eq hy, abs_ofCode _ (by omega)]
  exact hnear

end IsMagnitude

namespace IsNear

variable {r s : ℚ} {m n : Nat}

/-- A sum of numbers that are off is off by the sum of their errors and one more. -/
theorem add (hx : IsNear x r m) (hy : IsNear y s n) (hle : r + s ≤ 3) (herrors : m + n ≤ 2 ^ 50) :
    IsNear (x + y) (r + s) (m + n + 1) := by
  have herrors : ((m + n : Nat) : ℚ) ≤ 2 ^ 50 := by exact_mod_cast herrors
  have hdist : |value x + value y - (r + s)| ≤ (m + n : Nat) / 2 ^ 51 := by
    rw [add_sub_add_comm, Nat.cast_add, add_div]
    exact (abs_add_le _ _).trans (add_le_add hx.dist_le hy.dist_le)
  have hsum := hx.magnitude.isNear_add hy.magnitude (by linarith [(abs_le.1 hdist).2])
  rw [Nat.add_comm]
  exact hsum.trans hdist

/-- So is a difference. -/
theorem sub (hx : IsNear x r m) (hy : IsNear y s n) (horder : value y ≤ value x)
    (hle : r - s ≤ 3) (herrors : m + n ≤ 2 ^ 50) : IsNear (x - y) (r - s) (m + n + 1) := by
  have herrors : ((m + n : Nat) : ℚ) ≤ 2 ^ 50 := by exact_mod_cast herrors
  have hdist : |value x - value y - (r - s)| ≤ (m + n : Nat) / 2 ^ 51 := by
    rw [sub_sub_sub_comm, Nat.cast_add, add_div]
    exact (abs_sub _ _).trans (add_le_add hx.dist_le hy.dist_le)
  have hdifference := hx.magnitude.isNear_sub hy.magnitude horder
    (by linarith [(abs_le.1 hdist).2])
  rw [Nat.add_comm]
  exact hdifference.trans hdist

end IsNear

end Lindenmayer.Binary64
