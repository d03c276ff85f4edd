import Lindenmayer.Proofs.Number.Rounding

/-!
# Arithmetic of finite magnitudes

The sum, the product and the quotient of two finite magnitudes are the magnitudes nearest to the exact
results, counted in units of the smallest magnitude; so is the difference, with the sign of the exact
one. Magnitudes are compared by their codes.
-/

namespace Lindenmayer.Binary64

open Float.Model
open UnpackedFloat (Sign decreaseExponent accuracyOfFraction)

/-! ## What the model makes of a value -/

/-- A number that is made from a code has this code, unless the code is too large. -/
@[simp]
theorem code_ofCode (negative : Bool) (n : Nat) : code (ofCode negative n) = min n infinity := by
  have hlt := bits_lt negative (Nat.min_le_right n infinity)
  have hmin := Nat.min_le_right n infinity
  unfold code
  rw [toBits_ofCode, UInt64.toNat_ofNat', Nat.mod_eq_of_lt hlt, bits]
  unfold infinity signWeight at *
  split <;> omega

/-- It has the sign it was made with. -/
@[simp]
theorem isNegative_ofCode (negative : Bool) (n : Nat) :
    isNegative (ofCode negative n) = negative := by
  have hlt := bits_lt negative (Nat.min_le_right n infinity)
  have hmin := Nat.min_le_right n infinity
  unfold isNegative
  rw [toBits_ofCode, UInt64.toNat_ofNat', Nat.mod_eq_of_lt hlt, bits]
  cases negative with
  | false =>
    refine decide_eq_false ?_
    rw [if_neg Bool.false_ne_true]
    unfold infinity signWeight at *
    omega
  | true => exact decide_eq_true (Nat.le_add_right _ _)

/-- A finite value taken apart. -/
def unpacked (negative : Bool) (code : Nat) : UnpackedFloat :=
  if h : mantissa code = 0 then .zero (signOf negative)
  else .finite (signOf negative) (mantissa code) ((place code : Int) - 1074) (Nat.pos_of_ne_zero h)

@[simp]
theorem unpacked_zero (negative : Bool) : unpacked negative 0 = .zero (signOf negative) :=
  rfl

/-- The parts of a number that is not zero. -/
theorem unpacked_of_ne_zero (negative : Bool) {code : Nat} (h : mantissa code ≠ 0) :
    unpacked negative code = .finite (signOf negative) (mantissa code) ((place code : Int) - 1074)
      (Nat.pos_of_ne_zero h) :=
  dif_neg h

theorem finite_congr {sign : Sign} {m m' : Nat} {e e' : Int} {hm : 0 < m} {hm' : 0 < m'}
    (hmantissa : m = m') (hexponent : e = e') :
    UnpackedFloat.finite sign m e hm = .finite sign m' e' hm' := by
  subst hmantissa hexponent
  rfl

theorem ofBitVec_signField (x : Float) :
    Sign.ofBitVec (signField x) = signOf (isNegative x) := by
  unfold Sign.ofBitVec signOf
  have hfield := toNat_signField x
  cases hnegative : isNegative x with
  | false =>
    rw [hnegative, if_neg Bool.false_ne_true] at hfield
    rw [if_pos (BitVec.eq_of_toNat_eq hfield)]
    rfl
  | true =>
    rw [hnegative, if_pos rfl] at hfield
    rw [if_neg fun hzero => by rw [hzero] at hfield; exact absurd hfield (by decide)]
    rfl

/-- The smallest numbers are whole numbers of the smallest units. -/
theorem mantissa_of_lt {code : Nat} (h : code < block) : mantissa code = code :=
  if_pos h

theorem place_of_lt {code : Nat} (h : code < block) : place code = 0 := by
  unfold place
  rw [Nat.div_eq_of_lt h]

/-- Other numbers have a leading bit that their codes do not show. -/
theorem mantissa_of_le {code : Nat} (h : block ≤ code) :
    mantissa code = block + code % block :=
  if_neg (Nat.not_lt.2 h)

/-- The smallest numbers are those without an exponent. -/
theorem exponentField_eq_zero_iff (x : Float) : exponentField x = 0#11 ↔ code x < block := by
  have hexponent := toNat_exponentField x
  constructor
  · intro hzero
    rw [hzero] at hexponent
    exact Nat.lt_of_div_eq_zero (by decide) hexponent.symm
  · intro hlt
    apply BitVec.eq_of_toNat_eq
    rw [hexponent, Nat.div_eq_of_lt hlt]
    rfl

section
variable {x : Float} (h : code x < infinity)

include h

theorem exponentField_ne_last : exponentField x ≠ -1#11 := fun hlast =>
  absurd ((exponentField_eq_last_iff x).1 hlast) (Nat.not_le.2 h)

/-- Unpacking the smallest numbers gives the parts that their codes tell. -/
theorem unpack_of_code_lt_block (hsmall : code x < block) :
    x.toModel.unpack = unpacked (isNegative x) (code x) := by
  have hfraction := toNat_mantissaField x
  rw [Nat.mod_eq_of_lt hsmall] at hfraction
  have hzero := (exponentField_eq_zero_iff x).2 hsmall
  show UnpackedFloat.unpack .binary64 x.toBits.toBitVec = _
  unfold UnpackedFloat.unpack
  simp only
  rw [if_neg (exponentField_ne_last h), ofBitVec_signField, if_pos hzero]
  split
  · rename_i hfield
    have hcode : code x = 0 := hfraction.symm.trans (congrArg BitVec.toNat hfield)
    rw [hcode, unpacked_zero]
  · rename_i hfield
    have hne : mantissa (code x) ≠ 0 := by
      rw [mantissa_of_lt hsmall, ← hfraction]
      exact fun heq => hfield (BitVec.eq_of_toNat_eq heq)
    rw [unpacked_of_ne_zero _ hne]
    refine finite_congr (hfraction.trans (mantissa_of_lt hsmall).symm) ?_
    show ((exponentField x).toNat : Int) - (1023 + 52) + 1 = _
    rw [hzero, place_of_lt hsmall]
    rfl

/-- So does unpacking the others. -/
theorem unpack_of_block_le (hlarge : block ≤ code x) :
    x.toModel.unpack = unpacked (isNegative x) (code x) := by
  have hne : mantissa (code x) ≠ 0 := by
    rw [mantissa_of_le hlarge]
    exact Nat.ne_of_gt (Nat.add_pos_left (by decide) _)
  have hzero : exponentField x ≠ 0#11 := fun hzero =>
    Nat.not_le.2 ((exponentField_eq_zero_iff x).1 hzero) hlarge
  have hfraction : code x % block < 2 ^ 52 := Nat.mod_lt _ (by decide)
  show UnpackedFloat.unpack .binary64 x.toBits.toBitVec = _
  unfold UnpackedFloat.unpack
  simp only
  rw [if_neg (exponentField_ne_last h), ofBitVec_signField, if_neg hzero,
    unpacked_of_ne_zero _ hne]
  refine finite_congr ?_ ?_
  · rw [BitVec.toNat_append, toNat_mantissaField, mantissa_of_le hlarge,
      ← Nat.shiftLeft_add_eq_or_of_lt hfraction]
    rfl
  · show ((exponentField x).toNat : Int) - (1023 + 52) = _
    rw [toNat_exponentField]
    unfold place block at *
    omega

/-- A finite value is unpacked to the mantissa and the place of its code. -/
theorem unpack_of_code_lt : x.toModel.unpack = unpacked (isNegative x) (code x) := by
  rcases Nat.lt_or_ge (code x) block with hsmall | hlarge
  · exact unpack_of_code_lt_block h hsmall
  · exact unpack_of_block_le h hlarge

end

/-- A number with a place has a leading bit. -/
theorem place_eq_zero_or (code : Nat) : place code = 0 ∨ block ≤ mantissa code := by
  unfold place mantissa block
  split <;> omega

/-- Packing the parts of a number gives the number. -/
theorem ofModel_pack_unpacked (negative : Bool) (code : Nat) :
    Float.ofModel (.pack (unpacked negative code)) = ofCode negative code := by
  by_cases hzero : mantissa code = 0
  · rw [eq_zero_of_mantissa hzero, unpacked_zero]
    exact ofModel_pack_zero negative
  · rw [unpacked_of_ne_zero negative hzero, ofModel_pack_finite negative _ (place_eq_zero_or code)
      (mantissa_lt code), place_mul_block_add_mantissa]

/-! ## Rounding of exact results -/

@[simp]
theorem nearestCode_zero {d : Nat} : nearestCode 0 d = 0 := by
  unfold nearestCode
  simp [nearestInteger]

/-- A whole number of units is rounded to the nearest number. -/
theorem ofModel_pack_round_exact (negative : Bool) {m : Nat} (hm : 0 < m) (place : Nat) :
    Float.ofModel (.pack (UnpackedFloat.round .binary64 (signOf negative) m ((place : Int) - 1074))) =
      ofCode negative (nearestCode (m <<< place) 1) := by
  obtain ⟨shift, hshift⟩ : ∃ shift : Nat, shift = ((place : Int) - 1074 -
      Format.binary64.targetExponent (totalExponent m ((place : Int) - 1074))).toNat := ⟨_, rfl⟩
  have hlog : (m <<< shift).log2 = m.log2 + shift := by
    have hlow := Nat.mul_le_mul_right (2 ^ shift) (Nat.log2_self_le (Nat.ne_of_gt hm))
    have hhigh := Nat.mul_lt_mul_of_pos_right (@Nat.lt_log2_self m) (Nat.two_pow_pos shift)
    rw [← Nat.pow_add] at hlow hhigh
    rw [Nat.shiftLeft_eq, Nat.log2_eq_iff (Nat.ne_of_gt (Nat.mul_pos hm (Nat.two_pow_pos shift)))]
    exact ⟨hlow, by rwa [Nat.add_right_comm] at hhigh⟩
  have htarget : (place : Int) - 1074 - shift ≤ Format.binary64.targetExponent
      (totalExponent (m <<< shift / 1) ((place : Int) - 1074 - shift)) := by
    rw [targetExponent_eq] at hshift
    rw [Nat.div_one, targetExponent_eq, hlog]
    omega
  have hround := @ofModel_pack_round negative (m <<< shift) 1 Nat.one_pos _ place shift (by omega)
    htarget
  have hscale : m <<< shift * 2 ^ place = m <<< place * 2 ^ shift := by
    rw [Nat.shiftLeft_eq, Nat.shiftLeft_eq, Nat.mul_right_comm]
  rw [hscale, nearestCode_mul_right _ 1 (Nat.two_pow_pos shift), Nat.div_one, Nat.mod_one] at hround
  unfold UnpackedFloat.round decreaseExponent
  simp only [← hshift]
  exact hround

/-- So is one with a sign. -/
theorem ofModel_pack_normalize (m : Int) (place : Nat) :
    Float.ofModel (.pack
      (UnpackedFloat.normalize .binary64 m ((place : Int) - 1074) .positive)) =
        ofCode (decide (m < 0)) (nearestCode (m.natAbs <<< place) 1) := by
  unfold UnpackedFloat.normalize
  rcases Int.lt_trichotomy m 0 with hlt | rfl | hgt
  · rw [Int.compare_eq_lt.2 hlt, decide_eq_true hlt, show m.natAbs = (-m).toNat by omega]
    exact ofModel_pack_round_exact true (by omega) place
  · rw [Int.natAbs_zero, Nat.zero_shiftLeft, nearestCode_zero]
    rfl
  · rw [Int.compare_eq_gt.2 hgt, decide_eq_false (by omega), show m.natAbs = m.toNat by omega]
    exact ofModel_pack_round_exact false (by omega) place

/-- With a lower place the mantissa is shifted. -/
theorem decreaseExponent_place {m place lower : Nat} (h : lower ≤ place) :
    (decreaseExponent m ((place : Int) - 1074) ((lower : Int) - 1074)).1 =
      m <<< (place - lower) := by
  unfold decreaseExponent
  rw [show ((place : Int) - 1074 - ((lower : Int) - 1074)).toNat = place - lower by omega]

/-- The units of a magnitude, from its mantissa moved to a lower place. -/
theorem units_eq_mul {code lower : Nat} (h : lower ≤ place code) :
    units code = mantissa code <<< (place code - lower) * 2 ^ lower := by
  rw [units, Nat.shiftLeft_eq, Nat.shiftLeft_eq, Nat.mul_assoc, ← Nat.pow_add,
    Nat.sub_add_cancel h]

/-- A number that is not zero has units. -/
theorem units_pos {code : Nat} (h : mantissa code ≠ 0) : 0 < units code := by
  rw [units, Nat.shiftLeft_eq]
  exact Nat.mul_pos (Nat.pos_of_ne_zero h) (Nat.two_pow_pos _)

/-- A mantissa has at most 53 bits. -/
theorem log2_mantissa_le (code : Nat) : (mantissa code).log2 ≤ 52 := by
  by_cases hzero : mantissa code = 0
  · rw [hzero]
    decide
  · exact Nat.le_of_lt_succ ((Nat.log2_lt hzero).2 (mantissa_lt code))

/-- The model shifts a dividend so far that the quotient takes all binary places or has the least
exponent. -/
theorem le_log2_div {a b shift : Nat} {target : Int} (ha : mantissa a ≠ 0) (hb : mantissa b ≠ 0)
    (hshift : (shift : Int) = (place a : Int) - 1074 - ((place b : Int) - 1074) - target)
    (htarget : target = min ((place a : Int) - 1074 - ((place b : Int) - 1074))
      (Format.binary64.targetExponent (totalExponent (mantissa a) ((place a : Int) - 1074) -
        totalExponent (mantissa b) ((place b : Int) - 1074)))) :
    52 ≤ (mantissa a <<< shift / mantissa b).log2 ∨ target ≤ -1074 := by
  have hlog := log2_mantissa_le a
  unfold Format.targetExponent totalExponent at htarget
  rw [show (Format.binary64.mantissaBits : Int) = 53 from rfl,
    show Format.binary64.minExponent = -1074 from rfl] at htarget
  by_cases hleast : target ≤ -1074
  · exact .inr hleast
  · have hsum : (mantissa a).log2 + shift = 53 + (mantissa b).log2 := by omega
    have hdividend : 2 ^ (53 + (mantissa b).log2) ≤ mantissa a <<< shift := by
      rw [← hsum, Nat.shiftLeft_eq, Nat.pow_add]
      exact Nat.mul_le_mul_right _ (Nat.log2_self_le ha)
    have hquotient : 2 ^ 52 ≤ mantissa a <<< shift / mantissa b := by
      rw [Nat.le_div_iff_mul_le (Nat.pos_of_ne_zero hb)]
      calc 2 ^ 52 * mantissa b ≤ 2 ^ 52 * 2 ^ ((mantissa b).log2 + 1) :=
            Nat.mul_le_mul_left _ (Nat.le_of_lt Nat.lt_log2_self)
        _ = 2 ^ (53 + (mantissa b).log2) := by
            rw [← Nat.pow_add]
            congr 1
            omega
        _ ≤ mantissa a <<< shift := hdividend
    exact .inl ((Nat.le_log2 (by omega)).2 hquotient)

/-! ## Operations -/

/-- A finite value without a sign. -/
structure IsMagnitude (x : Float) : Prop where
  nonneg : isNegative x = false
  finite : code x < infinity

namespace IsMagnitude

variable {x y : Float}

/-- The parts of a magnitude are those that its code tells. -/
theorem unpack_eq (hx : IsMagnitude x) : x.toModel.unpack = unpacked false (code x) := by
  rw [unpack_of_code_lt hx.finite, hx.nonneg]

/-- A magnitude is made from its code. -/
theorem ofCode_code_eq (hx : IsMagnitude x) : ofCode false (code x) = x := by
  rw [← hx.nonneg]
  exact ofCode_code (Nat.le_of_lt hx.finite)

/-- The sum is the exact sum rounded to the nearest. -/
theorem add_eq (hx : IsMagnitude x) (hy : IsMagnitude y) :
    x + y = ofCode false (nearestCode (units (code x) + units (code y)) 1) := by
  have hadd : x + y = Float.ofModel (.pack
      (UnpackedFloat.add .binary64 x.toModel.unpack y.toModel.unpack)) := rfl
  rw [hadd, hx.unpack_eq, hy.unpack_eq]
  by_cases hzero : mantissa (code x) = 0
  · -- nothing is added to `y`
    rw [eq_zero_of_mantissa hzero, units_zero, Nat.zero_add, unpacked_zero,
      nearestCode_units_one (Nat.le_of_lt hy.finite), ← ofModel_pack_unpacked]
    by_cases hzero' : mantissa (code y) = 0
    · rw [eq_zero_of_mantissa hzero', unpacked_zero]
      rfl
    · rw [unpacked_of_ne_zero _ hzero']
      rfl
  by_cases hzero' : mantissa (code y) = 0
  · rw [eq_zero_of_mantissa hzero', units_zero, Nat.add_zero,
      nearestCode_units_one (Nat.le_of_lt hx.finite), ← ofModel_pack_unpacked,
      unpacked_of_ne_zero _ hzero]
    rfl
  -- both mantissas are moved to the lower place
  obtain ⟨lower, hlower⟩ : ∃ lower, lower = min (place (code x)) (place (code y)) := ⟨_, rfl⟩
  have hmin : min ((place (code x) : Int) - 1074) ((place (code y) : Int) - 1074) =
      (lower : Int) - 1074 := by omega
  have hx' : lower ≤ place (code x) := by omega
  have hy' : lower ≤ place (code y) := by omega
  have hsum : ((mantissa (code x) <<< (place (code x) - lower) : Nat) +
      (mantissa (code y) <<< (place (code y) - lower) : Nat) : Int).natAbs <<< lower =
        units (code x) + units (code y) := by
    rw [← Int.natCast_add, Int.natAbs_natCast, Nat.shiftLeft_eq, Nat.add_mul, ← units_eq_mul hx',
      ← units_eq_mul hy']
  rw [unpacked_of_ne_zero _ hzero, unpacked_of_ne_zero _ hzero']
  unfold UnpackedFloat.add
  simp only [hmin]
  rw [decreaseExponent_place hx', decreaseExponent_place hy']
  refine (ofModel_pack_normalize _ lower).trans ?_
  rw [← hsum]
  refine congrArg (ofCode · _) (decide_eq_false (Int.not_lt.2 ?_))
  exact Int.add_nonneg (Int.natCast_nonneg _) (Int.natCast_nonneg _)

/-- A difference with zero is exact. -/
theorem sub_eq_of_zero (hx : IsMagnitude x) (hy : IsMagnitude y)
    (hzero : mantissa (code x) = 0 ∨ mantissa (code y) = 0) :
    x - y = ofCode (decide (units (code x) < units (code y)))
      (nearestCode ((units (code x) : Int) - units (code y)).natAbs 1) := by
  have hsub : x - y = Float.ofModel (.pack
      (UnpackedFloat.sub .binary64 x.toModel.unpack y.toModel.unpack)) := rfl
  rw [hsub, hx.unpack_eq, hy.unpack_eq]
  by_cases hzero' : mantissa (code y) = 0
  · -- nothing is taken from `x`
    rw [eq_zero_of_mantissa hzero', units_zero, unpacked_zero, Int.natCast_zero, Int.sub_zero,
      Int.natAbs_natCast, nearestCode_units_one (Nat.le_of_lt hx.finite),
      decide_eq_false (Nat.not_lt_zero _), ← ofModel_pack_unpacked]
    by_cases hzero : mantissa (code x) = 0
    · rw [eq_zero_of_mantissa hzero, unpacked_zero]
      rfl
    · rw [unpacked_of_ne_zero _ hzero]
      rfl
  · rw [eq_zero_of_mantissa (hzero.resolve_right hzero'), units_zero, unpacked_zero,
      Int.natCast_zero, Int.zero_sub, Int.natAbs_neg, Int.natAbs_natCast,
      nearestCode_units_one (Nat.le_of_lt hy.finite), decide_eq_true (units_pos hzero'),
      ← ofModel_pack_unpacked, unpacked_of_ne_zero _ hzero', unpacked_of_ne_zero _ hzero']
    rfl

/-- The difference is the exact difference rounded to the nearest. -/
theorem sub_eq (hx : IsMagnitude x) (hy : IsMagnitude y) :
    x - y = ofCode (decide (units (code x) < units (code y)))
      (nearestCode ((units (code x) : Int) - units (code y)).natAbs 1) := by
  by_cases hzero : mantissa (code x) = 0
  · exact hx.sub_eq_of_zero hy (.inl hzero)
  by_cases hzero' : mantissa (code y) = 0
  · exact hx.sub_eq_of_zero hy (.inr hzero')
  have hsub : x - y = Float.ofModel (.pack
      (UnpackedFloat.sub .binary64 x.toModel.unpack y.toModel.unpack)) := rfl
  -- both mantissas are moved to the lower place, where they have the order of the units
  obtain ⟨lower, hlower⟩ : ∃ lower, lower = min (place (code x)) (place (code y)) := ⟨_, rfl⟩
  have hmin : min ((place (code x) : Int) - 1074) ((place (code y) : Int) - 1074) =
      (lower : Int) - 1074 := by omega
  have hx' : lower ≤ place (code x) := by omega
  have hy' : lower ≤ place (code y) := by omega
  have hdifference : (units (code x) : Int) - units (code y) =
      ((mantissa (code x) <<< (place (code x) - lower) : Nat) -
        (mantissa (code y) <<< (place (code y) - lower) : Nat) : Int) * (2 ^ lower : Nat) := by
    rw [units_eq_mul hx', units_eq_mul hy', Int.natCast_mul, Int.natCast_mul, ← Int.sub_mul]
  have hsign : ((mantissa (code x) <<< (place (code x) - lower) : Nat) : Int) -
      (mantissa (code y) <<< (place (code y) - lower) : Nat) < 0 ↔
        units (code x) < units (code y) := by
    rw [units_eq_mul hx', units_eq_mul hy', Nat.mul_lt_mul_right (Nat.two_pow_pos lower)]
    omega
  rw [hsub, hx.unpack_eq, hy.unpack_eq, unpacked_of_ne_zero _ hzero, unpacked_of_ne_zero _ hzero']
  unfold UnpackedFloat.sub
  simp only [hmin]
  rw [decreaseExponent_place hx', decreaseExponent_place hy']
  refine (ofModel_pack_normalize _ lower).trans ?_
  rw [hdifference, Int.natAbs_mul, Int.natAbs_natCast, ← Nat.shiftLeft_eq]
  exact congrArg (ofCode · _) (decide_eq_decide.2 hsign)

/-- The product is the exact product rounded to the nearest. -/
theorem mul_eq (hx : IsMagnitude x) (hy : IsMagnitude y) :
    x * y = ofCode false (nearestCode (units (code x) * units (code y)) (2 ^ unitPlaces)) := by
  have hmul : x * y = Float.ofModel (.pack
      (UnpackedFloat.mul .binary64 x.toModel.unpack y.toModel.unpack)) := rfl
  rw [hmul, hx.unpack_eq, hy.unpack_eq]
  by_cases hzero : mantissa (code x) = 0
  · rw [eq_zero_of_mantissa hzero, units_zero, unpacked_zero, Nat.zero_mul, nearestCode_zero]
    by_cases hzero' : mantissa (code y) = 0
    · rw [eq_zero_of_mantissa hzero', unpacked_zero]
      rfl
    · rw [unpacked_of_ne_zero _ hzero']
      rfl
  by_cases hzero' : mantissa (code y) = 0
  · rw [eq_zero_of_mantissa hzero', units_zero, unpacked_zero, Nat.mul_zero, nearestCode_zero,
      unpacked_of_ne_zero _ hzero]
    rfl
  have htarget : ((place (code x) : Int) - 1074) + ((place (code y) : Int) - 1074) ≤
      Format.binary64.targetExponent (totalExponent (mantissa (code x) * mantissa (code y) / 1)
        (((place (code x) : Int) - 1074) + ((place (code y) : Int) - 1074))) := by
    have hpos : mantissa (code x) * mantissa (code y) ≠ 0 := Nat.mul_ne_zero hzero hzero'
    -- unless one factor takes all binary places, both are in the first place
    have hlog : (place (code x) = 0 ∧ place (code y) = 0) ∨
        52 ≤ (mantissa (code x) * mantissa (code y)).log2 := by
      rw [Nat.le_log2 hpos]
      rcases place_eq_zero_or (code x) with hx | hx
      · rcases place_eq_zero_or (code y) with hy | hy
        · exact .inl ⟨hx, hy⟩
        · exact .inr (Nat.le_trans hy (Nat.le_mul_of_pos_left _ (Nat.pos_of_ne_zero hzero)))
      · exact .inr (Nat.le_trans hx (Nat.le_mul_of_pos_right _ (Nat.pos_of_ne_zero hzero')))
    rw [Nat.div_one, targetExponent_eq]
    omega
  have hround := @ofModel_pack_round false (mantissa (code x) * mantissa (code y)) 1 Nat.one_pos _
    (place (code x) + place (code y)) unitPlaces (by unfold unitPlaces; omega) htarget
  have hscale : mantissa (code x) * mantissa (code y) * 2 ^ (place (code x) + place (code y)) =
      units (code x) * units (code y) := by
    rw [units, units, Nat.shiftLeft_eq, Nat.shiftLeft_eq, Nat.pow_add]
    ring
  rw [hscale, Nat.one_mul, Nat.div_one, Nat.mod_one] at hround
  rw [unpacked_of_ne_zero _ hzero, unpacked_of_ne_zero _ hzero']
  exact hround

/-- The quotient is the exact quotient rounded to the nearest. -/
theorem div_eq (hx : IsMagnitude x) (hy : IsMagnitude y) (hpos : 0 < units (code y)) :
    x / y = ofCode false (nearestCode (units (code x) * 2 ^ unitPlaces) (units (code y))) := by
  have hdiv : x / y = Float.ofModel (.pack
      (UnpackedFloat.div .binary64 x.toModel.unpack y.toModel.unpack)) := rfl
  have hzero' : mantissa (code y) ≠ 0 := by
    intro hzero
    rw [eq_zero_of_mantissa hzero] at hpos
    exact absurd hpos (Nat.lt_irrefl 0)
  rw [hdiv, hx.unpack_eq, hy.unpack_eq, unpacked_of_ne_zero _ hzero']
  by_cases hzero : mantissa (code x) = 0
  · rw [eq_zero_of_mantissa hzero, units_zero, unpacked_zero, Nat.zero_mul, nearestCode_zero]
    rfl
  rw [unpacked_of_ne_zero _ hzero]
  obtain ⟨target, htarget⟩ : ∃ target : Int, target =
      min ((place (code x) : Int) - 1074 - ((place (code y) : Int) - 1074))
        (Format.binary64.targetExponent (totalExponent (mantissa (code x))
          ((place (code x) : Int) - 1074) - totalExponent (mantissa (code y))
            ((place (code y) : Int) - 1074))) := ⟨_, rfl⟩
  obtain ⟨shift, hshift⟩ : ∃ shift : Nat, (shift : Int) =
      (place (code x) : Int) - 1074 - ((place (code y) : Int) - 1074) - target :=
    ⟨((place (code x) : Int) - 1074 - ((place (code y) : Int) - 1074) - target).toNat, by omega⟩
  have hquotient : target ≤ Format.binary64.targetExponent
      (totalExponent (mantissa (code x) <<< shift / mantissa (code y)) target) := by
    rw [targetExponent_eq]
    have hdigits := le_log2_div hzero hzero' hshift htarget
    omega
  have hround := @ofModel_pack_round false (mantissa (code x) <<< shift) (mantissa (code y))
    (Nat.pos_of_ne_zero hzero') target (place (code x) + unitPlaces) (place (code y) + shift)
    (by unfold unitPlaces; omega) hquotient
  have hdividend : mantissa (code x) <<< shift * 2 ^ (place (code x) + unitPlaces) =
      units (code x) * 2 ^ unitPlaces * 2 ^ shift := by
    rw [units, Nat.shiftLeft_eq, Nat.shiftLeft_eq, Nat.pow_add]
    ring
  have hdivisor : mantissa (code y) * 2 ^ (place (code y) + shift) =
      units (code y) * 2 ^ shift := by
    rw [units, Nat.shiftLeft_eq, Nat.pow_add, Nat.mul_assoc]
  rw [hdividend, hdivisor, nearestCode_mul_right _ _ (Nat.two_pow_pos shift)] at hround
  unfold UnpackedFloat.div UnpackedFloat.divCore
  simp only [← htarget, ← hshift, Int.toNat_natCast]
  exact hround

end IsMagnitude

end Lindenmayer.Binary64
