import Lindenmayer.Proofs.Number.Monotone

/-!
# Totals of numbers from 0 to 1

Finite numbers from zero on are compared like their codes, zero with a sign like zero without one.
A total to which numbers from 0 to 1 are added one after another never goes down, and it never leaves
the finite magnitudes: at `2 ^ 53`, 1 is too little to be added. Whether a total is further from 1 than
`10 ^ -9` comes out right although differences are rounded, and the tolerance is.
-/

namespace Lindenmayer.Binary64

open Float.Model

/-! ## Numbers from zero on -/

/-- The finite numbers from zero on. Zero may have a sign. -/
def IsNonneg (x : Float) : Prop :=
  IsMagnitude x ∨ x = -0.0

theorem IsMagnitude.isNonneg {x : Float} (hx : IsMagnitude x) : IsNonneg x :=
  .inl hx

/-- A number from 0 to a magnitude is not negative. -/
theorem isNonneg_of_range {x high : Float} (hhigh : IsMagnitude high) (hlow : 0.0 ≤ x)
    (hle : x ≤ high) : IsNonneg x :=
  IsMagnitude.of_between_or isMagnitude_zero hhigh hlow hle rfl

namespace IsNonneg

variable {x y z : Float}

/-- Numbers that are not negative are compared as their codes are. -/
theorem compare_unpack (hx : IsNonneg x) (hy : IsNonneg y) :
    x.toModel.unpack.compare y.toModel.unpack = some (compare (code x) (code y)) := by
  have hsigned : (-0.0 : Float).toModel.unpack = .zero .negative := rfl
  have hcode : code (-0.0) = 0 := rfl
  -- the sign of a zero is not looked at
  have hleft (n : Nat) : (UnpackedFloat.zero .negative).compare (unpacked false n) =
      some (compare 0 n) := by
    rw [← compare_unpacked, unpacked_zero, unpacked]
    split <;> rfl
  have hright (n : Nat) : (unpacked false n).compare (.zero .negative) =
      some (compare n 0) := by
    rw [← compare_unpacked, unpacked_zero, unpacked]
    split <;> rfl
  rcases hx with hx | rfl <;> rcases hy with hy | rfl
  · rw [hx.unpack_eq, hy.unpack_eq, compare_unpacked]
  · rw [hx.unpack_eq, hsigned, hcode, hright]
  · rw [hy.unpack_eq, hsigned, hcode, hleft]
  · rfl

/-- Numbers that are not negative are ordered as their codes are. -/
theorem le_iff (hx : IsNonneg x) (hy : IsNonneg y) : x ≤ y ↔ code x ≤ code y := by
  rw [le_iff_unpack, UnpackedFloat.le, hx.compare_unpack hy]
  exact Nat.isLE_compare

theorem lt_iff (hx : IsNonneg x) (hy : IsNonneg y) : x < y ↔ code x < code y := by
  rw [lt_iff_unpack, UnpackedFloat.lt, hx.compare_unpack hy, beq_iff_eq, Option.some_inj]
  exact Nat.compare_eq_lt

/-- They are equal just if their codes are. -/
theorem beq_iff (hx : IsNonneg x) (hy : IsNonneg y) : x == y ↔ code x = code y := by
  show x.toModel.unpack.beq y.toModel.unpack = true ↔ _
  rw [UnpackedFloat.beq, hx.compare_unpack hy, beq_iff_eq, Option.some_inj]
  exact Nat.compare_eq_eq

/-- What is not less is at least as large. -/
theorem not_lt (hx : IsNonneg x) (hy : IsNonneg y) : ¬x < y ↔ y ≤ x := by
  rw [hx.lt_iff hy, hy.le_iff hx, Nat.not_lt]

theorem le_refl (hx : IsNonneg x) : x ≤ x :=
  (hx.le_iff hx).2 (Nat.le_refl _)

theorem le_trans (hx : IsNonneg x) (hy : IsNonneg y) (hz : IsNonneg z) (hxy : x ≤ y)
    (hyz : y ≤ z) : x ≤ z :=
  (hx.le_iff hz).2 (Nat.le_trans ((hx.le_iff hy).1 hxy) ((hy.le_iff hz).1 hyz))

theorem lt_of_lt_of_le (hx : IsNonneg x) (hy : IsNonneg y) (hz : IsNonneg z) (hlt : x < y)
    (hle : y ≤ z) : x < z :=
  (hx.lt_iff hz).2 (Nat.lt_of_lt_of_le ((hx.lt_iff hy).1 hlt) ((hy.le_iff hz).1 hle))

theorem lt_of_le_of_lt (hx : IsNonneg x) (hy : IsNonneg y) (hz : IsNonneg z) (hle : x ≤ y)
    (hlt : y < z) : x < z :=
  (hx.lt_iff hz).2 (Nat.lt_of_le_of_lt ((hx.le_iff hy).1 hle) ((hy.lt_iff hz).1 hlt))

end IsNonneg

/-! ## Sums -/

namespace IsMagnitude

variable {x y : Float}

/-- The order of summands does not matter. -/
theorem add_comm (hx : IsMagnitude x) (hy : IsMagnitude y) : x + y = y + x := by
  rw [hx.add_eq hy, hy.add_eq hx, Nat.add_comm]

/-- Zero adds nothing, whatever its sign. -/
theorem add_zero (hx : IsMagnitude x) (hy : IsNonneg y) (hzero : code y = 0) : x + y = x := by
  rcases hy with hy | rfl
  · rw [hx.add_eq hy, hzero, units_zero, Nat.add_zero, hx.nearest_units]
  · have hadd : x + -0.0 = Float.ofModel (.pack
        (UnpackedFloat.add .binary64 x.toModel.unpack (.zero .negative))) := rfl
    have hsum : UnpackedFloat.add .binary64 (unpacked false (code x)) (.zero .negative) =
        unpacked false (code x) := by
      unfold unpacked
      split <;> rfl
    rw [hadd, hx.unpack_eq, hsum, ofModel_pack_unpacked, hx.ofCode_code_eq]

end IsMagnitude

/-- The magnitude above which totals do not rise. -/
def ceiling : Float := 9007199254740992.0

theorem isMagnitude_ceiling : IsMagnitude ceiling :=
  ⟨by decide +kernel, by decide +kernel⟩

/-- A total of numbers from 0 to 1. -/
structure IsTotal (x : Float) : Prop where
  magnitude : IsMagnitude x
  le_ceiling : x ≤ ceiling

theorem isTotal_zero : IsTotal 0.0 :=
  ⟨isMagnitude_zero, by decide +kernel⟩

/-- One more number from 0 to 1 makes another total, which is no smaller. -/
theorem IsTotal.add {x p : Float} (hx : IsTotal x) (hlow : 0.0 ≤ p) (hhigh : p ≤ 1.0) :
    IsTotal (x + p) ∧ x ≤ x + p := by
  have hx' := hx.magnitude
  have hfull : (1.0 + ceiling : Float) = ceiling := by decide +kernel
  rcases isNonneg_of_range isMagnitude_one hlow hhigh with hp | rfl
  · -- the sum is at most that with 1, which is at most that of 1 and the ceiling
    obtain ⟨hone, hle⟩ := isMagnitude_one.add_le_add hx' isMagnitude_ceiling hx.le_ceiling
      (by rw [hfull]; exact isMagnitude_ceiling)
    rw [isMagnitude_one.add_comm hx'] at hone hle
    rw [hfull] at hle
    obtain ⟨hsum, hle'⟩ := hx'.add_le_add hp isMagnitude_one hhigh hone
    exact ⟨⟨hsum, hsum.isNonneg.le_trans hone.isNonneg isMagnitude_ceiling.isNonneg hle' hle⟩,
      hx'.le_add hp hsum⟩
  · rw [hx'.add_zero (.inr rfl) rfl]
    exact ⟨hx, hx'.isNonneg.le_refl⟩

/-! ## The distance from 1 -/

/-- The place of the magnitudes from `1 / 2` to 1. -/
def halfPlace : Nat := 1021

theorem isMagnitude_half : IsMagnitude 0.5 :=
  ⟨by decide +kernel, by decide +kernel⟩

theorem isMagnitude_tolerance : IsMagnitude 1e-9 :=
  ⟨by decide +kernel, by decide +kernel⟩

/-- From `1 / 2` on, all magnitudes are multiples of one power of two. -/
theorem pow_halfPlace_dvd_units {n : Nat} (h : code 0.5 ≤ n) : 2 ^ halfPlace ∣ units n := by
  have hhalf : code 0.5 = 1022 * block := by decide +kernel
  have hplace : halfPlace ≤ place n := by
    unfold halfPlace place block at *
    omega
  rw [units, Nat.shiftLeft_eq]
  exact Nat.dvd_mul_left_of_dvd (Nat.pow_dvd_pow 2 hplace) _

/-- The number of units by which a magnitude is off 1. -/
def distanceFromOne (x : Float) : Nat :=
  ((units (code x) : Int) - units (code 1.0)).natAbs

/-- No magnitude is off 1 by a number of units between these two, as `10 ^ -9` is. -/
theorem distanceFromOne_le_or {x : Float} (hx : IsMagnitude x) :
    distanceFromOne x ≤ 9007199 * 2 ^ halfPlace ∨
      9007200 * 2 ^ halfPlace ≤ distanceFromOne x := by
  have hone : units (code 1.0) = 2 ^ 53 * 2 ^ halfPlace := by decide +kernel
  have hhalf : units (code 0.5) = 2 ^ 52 * 2 ^ halfPlace := by decide +kernel
  unfold distanceFromOne
  rcases Nat.lt_or_ge (code x) (code 0.5) with hlt | hge
  · -- at least 1 / 2 is missing
    have hle := (units_le_units_iff (Nat.le_of_lt hx.finite)
      (Nat.le_of_lt isMagnitude_half.finite)).2 (Nat.le_of_lt hlt)
    rw [hhalf] at hle
    rw [hone]
    generalize 2 ^ halfPlace = scale at *
    omega
  · obtain ⟨k, hk⟩ := pow_halfPlace_dvd_units hge
    have hmul : ((units (code x) : Int) - units (code 1.0)).natAbs =
        ((k : Int) - (2 ^ 53 : Nat)).natAbs * 2 ^ halfPlace := by
      rw [hk, hone, Nat.mul_comm, Int.natCast_mul, Int.natCast_mul, ← Int.sub_mul, Int.natAbs_mul,
        Int.natAbs_natCast]
    rw [hmul]
    rcases Nat.lt_or_ge ((k : Int) - (2 ^ 53 : Nat)).natAbs 9007200 with hlt | hge
    · exact .inl (Nat.mul_le_mul_right _ (Nat.le_of_lt_succ hlt))
    · exact .inr (Nat.mul_le_mul_right _ hge)

/-- How far a value is from 1 can be told in whole units. -/
theorem lt_abs_value_sub_one_iff (x : Float) :
    1 / 10 ^ 9 < |value x - 1| ↔ 2 ^ unitPlaces < 10 ^ 9 * distanceFromOne x := by
  have hdistance : (distanceFromOne x : ℚ) = |value x - 1| * 2 ^ unitPlaces := by
    rw [← value_one]
    exact natAbs_units_sub x 1.0
  have hscale : (0 : ℚ) < 2 ^ unitPlaces := by positivity
  rw [← Nat.cast_lt (α := ℚ), Nat.cast_mul, hdistance, Nat.cast_pow, Nat.cast_pow,
    Nat.cast_ofNat, Nat.cast_ofNat, div_lt_iff₀' (by positivity), ← mul_assoc,
    lt_mul_iff_one_lt_left hscale]

namespace IsTotal

variable {x : Float} (hx : IsTotal x)

include hx

/-- The distance from 1 is finite. -/
theorem nearestCode_distanceFromOne_lt : nearestCode (distanceFromOne x) 1 < infinity := by
  have hone := isMagnitude_one.units_le isMagnitude_ceiling (by decide +kernel)
  have hunits := hx.magnitude.units_le isMagnitude_ceiling hx.le_ceiling
  have hle : distanceFromOne x ≤ units (code ceiling) := by
    unfold distanceFromOne
    omega
  have hmono := nearestCode_le_nearestCode Nat.one_pos hle
  rw [nearestCode_units_one (Nat.le_of_lt isMagnitude_ceiling.finite)] at hmono
  exact Nat.lt_of_le_of_lt hmono isMagnitude_ceiling.finite

/-- The difference is the nearest magnitude to the distance. -/
theorem abs_sub_one_eq : (x - 1.0).abs = ofCode false (nearestCode (distanceFromOne x) 1) := by
  rw [hx.magnitude.sub_eq isMagnitude_one]
  exact abs_ofCode _ hx.nearestCode_distanceFromOne_lt

/-- The test of a sum of probabilities compares codes. -/
theorem tolerance_lt_iff :
    1e-9 < (x - 1.0).abs ↔ code 1e-9 < nearestCode (distanceFromOne x) 1 := by
  have hfinite := hx.nearestCode_distanceFromOne_lt
  have hcode : code (x - 1.0).abs = nearestCode (distanceFromOne x) 1 := by
    rw [hx.abs_sub_one_eq, code_ofCode, Nat.min_eq_left (Nat.le_of_lt hfinite)]
  have hmagnitude : IsMagnitude (x - 1.0).abs :=
    ⟨by rw [hx.abs_sub_one_eq, isNegative_ofCode], by rwa [hcode]⟩
  rw [isMagnitude_tolerance.lt_iff hmagnitude, hcode]

/-- The distance of a total from 1 is compared with the tolerance as the exact numbers are. -/
theorem lt_abs_sub_one_iff : 1e-9 < (x - 1.0).abs ↔ 1 / 10 ^ 9 < |value x - 1| := by
  rw [hx.tolerance_lt_iff, lt_abs_value_sub_one_iff]
  rcases distanceFromOne_le_or hx.magnitude with hsmall | hlarge
  · have hmono := nearestCode_le_nearestCode Nat.one_pos hsmall
    have hmul := Nat.mul_le_mul_left (10 ^ 9) hsmall
    have hcode : nearestCode (9007199 * 2 ^ halfPlace) 1 ≤ code 1e-9 := by decide +kernel
    have hunits : 10 ^ 9 * (9007199 * 2 ^ halfPlace) ≤ 2 ^ unitPlaces := by decide +kernel
    exact iff_of_false (Nat.not_lt.2 (hmono.trans hcode)) (Nat.not_lt.2 (hmul.trans hunits))
  · have hmono := nearestCode_le_nearestCode Nat.one_pos hlarge
    have hmul := Nat.mul_le_mul_left (10 ^ 9) hlarge
    have hcode : code 1e-9 < nearestCode (9007200 * 2 ^ halfPlace) 1 := by decide +kernel
    have hunits : 2 ^ unitPlaces < 10 ^ 9 * (9007200 * 2 ^ halfPlace) := by decide +kernel
    exact iff_of_true (hcode.trans_le hmono) (hunits.trans_le hmul)

end IsTotal

end Lindenmayer.Binary64
