import Lindenmayer.Proofs.Number.Magnitude

/-!
# Operations keep the order

Rounding to the nearest keeps the order of the exact results, so the operations on finite magnitudes
are monotone. A result that is no larger than a finite one is finite, too.
-/

namespace Lindenmayer.Binary64

/-- Rounding keeps the order of fractions. -/
theorem nearest_le_nearest {n d n' d' : Nat} (hd : 0 < d) (hd' : 0 < d') (h : n * d' ≤ n' * d)
    (hbound : IsMagnitude (ofCode false (nearestCode n' d'))) :
    IsMagnitude (ofCode false (nearestCode n d)) ∧
      ofCode false (nearestCode n d) ≤ ofCode false (nearestCode n' d') := by
  have hcode := nearestCode_mono hd hd' h
  have hfinite := hbound.finite
  rw [code_ofCode] at hfinite
  have hmagnitude : IsMagnitude (ofCode false (nearestCode n d)) := by
    refine ⟨isNegative_ofCode _ _, ?_⟩
    rw [code_ofCode]
    omega
  refine ⟨hmagnitude, (hmagnitude.le_iff hbound).2 ?_⟩
  rw [code_ofCode, code_ofCode]
  omega

namespace IsMagnitude

variable {x y z : Float}

/-- A finite magnitude is the nearest one to itself. -/
theorem nearest_units (hx : IsMagnitude x) : ofCode false (nearestCode (units (code x)) 1) = x := by
  rw [nearestCode_units_one (Nat.le_of_lt hx.finite), hx.ofCode_code_eq]

/-- Larger magnitudes have more units. -/
theorem units_le (hx : IsMagnitude x) (hy : IsMagnitude y) (h : x ≤ y) :
    units (code x) ≤ units (code y) :=
  (units_le_units_iff (Nat.le_of_lt hx.finite) (Nat.le_of_lt hy.finite)).2 ((hx.le_iff hy).1 h)

/-- A larger summand makes no smaller sum. -/
theorem add_le_add (hx : IsMagnitude x) (hy : IsMagnitude y) (hz : IsMagnitude z) (h : y ≤ z)
    (hsum : IsMagnitude (x + z)) : IsMagnitude (x + y) ∧ x + y ≤ x + z := by
  have hunits := hy.units_le hz h
  rw [hx.add_eq hz] at hsum
  rw [hx.add_eq hy, hx.add_eq hz]
  apply nearest_le_nearest Nat.one_pos Nat.one_pos _ hsum
  omega

/-- A sum is no smaller than its first summand. -/
theorem le_add (hx : IsMagnitude x) (hy : IsMagnitude y) (hsum : IsMagnitude (x + y)) :
    x ≤ x + y := by
  rw [hx.add_eq hy] at hsum
  have hle := nearest_le_nearest (n := units (code x)) Nat.one_pos Nat.one_pos (by omega) hsum
  rw [hx.nearest_units] at hle
  rw [hx.add_eq hy]
  exact hle.2

/-- A larger factor makes no smaller product. -/
theorem mul_le_mul (hx : IsMagnitude x) (hy : IsMagnitude y) (hz : IsMagnitude z) (h : y ≤ z)
    (hproduct : IsMagnitude (x * z)) : IsMagnitude (x * y) ∧ x * y ≤ x * z := by
  have hunits := hy.units_le hz h
  rw [hx.mul_eq hz] at hproduct
  rw [hx.mul_eq hy, hx.mul_eq hz]
  apply nearest_le_nearest (Nat.two_pow_pos _) (Nat.two_pow_pos _) _ hproduct
  exact Nat.mul_le_mul_right _ (Nat.mul_le_mul_left _ hunits)

/-- A larger dividend makes no smaller quotient. -/
theorem div_le_div (hx : IsMagnitude x) (hy : IsMagnitude y) (hz : IsMagnitude z)
    (hpos : 0 < units (code z)) (h : x ≤ y) (hquotient : IsMagnitude (y / z)) :
    IsMagnitude (x / z) ∧ x / z ≤ y / z := by
  have hunits := hx.units_le hy h
  rw [hy.div_eq hz hpos] at hquotient
  rw [hx.div_eq hz hpos, hy.div_eq hz hpos]
  apply nearest_le_nearest hpos hpos _ hquotient
  exact Nat.mul_le_mul_right _ (Nat.mul_le_mul_right _ hunits)

end IsMagnitude

/-! ## Natural numbers -/

/-- A natural number of up to 53 bits is its own value. -/
theorem ofNat_eq {n : Nat} (h : n < 2 ^ 53) :
    Float.ofNat n = ofCode false (nearestCode (n <<< unitPlaces) 1) := by
  have hproduct : Float.ofNat n = n.toUInt64.toFloat * 1.0 := by
    show Float.ofScientific n false 0 = _
    unfold Float.ofScientific
    rw [dif_pos ⟨h, by decide⟩, if_neg Bool.false_ne_true]
    rfl
  have hmodel : n.toUInt64.toFloat = Float.ofModel (.pack
      (Float.Model.UnpackedFloat.normalize .binary64 n.toUInt64.toNat 0 .positive)) := rfl
  have hnat : n.toUInt64.toNat = n := by
    rw [Nat.toUInt64_eq, UInt64.toNat_ofNat_of_lt']
    exact Nat.lt_of_lt_of_le h (by decide)
  have hplace : (0 : Int) = (unitPlaces : Int) - 1074 := by decide
  have hfloat : n.toUInt64.toFloat = ofCode false (nearestCode (n <<< unitPlaces) 1) := by
    rw [hmodel, hnat, hplace, ofModel_pack_normalize, Int.natAbs_natCast,
      decide_eq_false (by omega)]
  have hbound : nearestCode (n <<< unitPlaces) 1 < infinity := by
    apply (units_nearestCode Nat.one_pos (k := 53 + unitPlaces) (by decide) _).1
    rw [Nat.mul_one, Nat.pow_add, Nat.shiftLeft_eq]
    exact Nat.mul_le_mul_right _ (Nat.le_of_lt h)
  have hcode : code (ofCode false (nearestCode (n <<< unitPlaces) 1)) =
      nearestCode (n <<< unitPlaces) 1 := by
    rw [code_ofCode, Nat.min_eq_left (Nat.le_of_lt hbound)]
  have hmagnitude : IsMagnitude (ofCode false (nearestCode (n <<< unitPlaces) 1)) :=
    ⟨isNegative_ofCode _ _, by rwa [hcode]⟩
  -- the model multiplies by the power of ten, which is 1
  have hone (u : Nat) : nearestCode (u * 2 ^ unitPlaces) (2 ^ unitPlaces) = nearestCode u 1 := by
    have hscale := nearestCode_mul_right u 1 (Nat.two_pow_pos unitPlaces)
    rwa [Nat.one_mul] at hscale
  rw [hproduct, hfloat, hmagnitude.mul_eq isMagnitude_one, units_one, hone,
    hmagnitude.nearest_units]

/-- Whole numbers keep their order as floats. -/
theorem ofNat_le_ofNat {m n : Nat} (h : m ≤ n) (hn : n < 2 ^ 53)
    (hbound : IsMagnitude (Float.ofNat n)) :
    IsMagnitude (Float.ofNat m) ∧ Float.ofNat m ≤ Float.ofNat n := by
  rw [ofNat_eq hn] at hbound
  rw [ofNat_eq (Nat.lt_of_le_of_lt h hn), ofNat_eq hn]
  apply nearest_le_nearest Nat.one_pos Nat.one_pos _ hbound
  rw [Nat.shiftLeft_eq, Nat.shiftLeft_eq, Nat.mul_one, Nat.mul_one]
  exact Nat.mul_le_mul_right _ h

end Lindenmayer.Binary64
