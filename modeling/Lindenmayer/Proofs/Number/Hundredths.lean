import Lindenmayer.Number.Rounded
import Lindenmayer.Proofs.Number.Magnitude

/-!
# Hundredths

Rounding to two places gives the binary64 value nearest to a whole number of hundredths. Which number
that is follows from the value alone: it is the nearest integer to a hundred times the value.
-/

namespace Lindenmayer

open Binary64

/-- Equal fractions have the same nearest integer. -/
theorem nearestInteger_congr {n d n' d' : Nat} (hd : 0 < d) (hd' : 0 < d')
    (h : n * d' = n' * d) : nearestInteger n d = nearestInteger n' d' :=
  Nat.le_antisymm (nearestInteger_mono hd hd' (Nat.le_of_eq h))
    (nearestInteger_mono hd' hd (Nat.le_of_eq h.symm))

@[simp]
theorem nearestInteger_one (n : Nat) : nearestInteger n 1 = n := by
  have hself := nearestInteger_of_mul n (d := 1) Nat.one_pos
  rwa [Nat.mul_one] at hself

namespace Rounded

/-- The exact expansion of a magnitude rounds like its units. -/
theorem unitsAt_exact (code places : Nat) :
    unitsAt (Shortest.exact code) (-Int.ofNat places) =
      nearestInteger (10 ^ places * units code) (2 ^ unitPlaces) := by
  have hunits : units code = mantissa code * 2 ^ place code := Nat.shiftLeft_eq _ _
  have hpow (k : Nat) : 0 < 2 ^ k := Nat.two_pow_pos k
  unfold Shortest.exact
  split
  · -- a whole number
    rename_i hplace
    obtain ⟨k, hk⟩ : ∃ k, place code = unitPlaces + k := ⟨_, (Nat.add_sub_of_le hplace).symm⟩
    unfold unitsAt
    simp only
    rw [if_pos (by simp), ← nearestInteger_one (_ * _)]
    refine nearestInteger_congr Nat.one_pos (hpow _) ?_
    rw [hunits, hk, Nat.add_sub_cancel_left, Nat.shiftLeft_eq, Nat.pow_eq, Int.sub_neg, Int.zero_add,
      Int.ofNat_eq_natCast, Int.toNat_natCast, Nat.pow_add]
    ring
  · rename_i hplace
    obtain ⟨k, hk⟩ : ∃ k, unitPlaces = place code + k :=
      ⟨_, (Nat.add_sub_of_le (Nat.le_of_not_le hplace)).symm⟩
    rw [show unitPlaces - place code = k by omega, hunits, hk]
    unfold unitsAt
    simp only [Int.ofNat_eq_natCast, Nat.pow_eq]
    split
    · -- all places of the expansion are kept
      obtain ⟨l, rfl⟩ : ∃ l, places = k + l := ⟨places - k, by omega⟩
      rw [show (-(k : Int) - -((k + l : Nat) : Int)).toNat = l by omega,
        ← nearestInteger_one (_ * _)]
      refine nearestInteger_congr Nat.one_pos (hpow _) ?_
      rw [Nat.pow_add, Nat.pow_add 10, show 10 ^ k = 5 ^ k * 2 ^ k by rw [← Nat.mul_pow]]
      ring
    · obtain ⟨l, rfl⟩ : ∃ l, k = places + l := ⟨k - places, by omega⟩
      rw [show (-(places : Int) - -((places + l : Nat) : Int)).toNat = l by omega]
      refine nearestInteger_congr (Nat.pow_pos (by decide)) (hpow _) ?_
      rw [Nat.pow_add, Nat.pow_add, Nat.pow_add, show 10 ^ l = 5 ^ l * 2 ^ l by rw [← Nat.mul_pow],
        show 10 ^ places = 5 ^ places * 2 ^ places by rw [← Nat.mul_pow]]
      ring

end Rounded

/-! ## Whole hundredths -/

/-- The binary64 value nearest to so many hundredths. -/
def hundredth (k : Nat) : Float :=
  Decimal.toFloat ⟨false, k, -2⟩

/-- A hundredth is the float that is nearest to the fraction. -/
theorem hundredth_eq (k : Nat) : hundredth k = ofCode false (nearestCode (k <<< unitPlaces) 100) := by
  by_cases hzero : k = 0
  · rw [hzero, Nat.zero_shiftLeft, nearestCode_zero]
    rfl
  · have hcode : Decimal.code ⟨false, k, .negSucc 1⟩ = _ :=
      Decimal.code_of_neg hzero (Nat.le_trans (by decide) (Nat.le_add_left 400 _))
    exact congrArg (ofCode false) hcode

@[simp]
theorem hundredth_zero : hundredth 0 = 0.0 := by
  decide +kernel

@[simp]
theorem hundredth_hundred : hundredth 100 = 1.0 := by
  decide +kernel

/-- A hundredth is off by one rounding error. -/
theorem isNear_hundredth {k : Nat} (h : k ≤ 300) : IsNear (hundredth k) (k / 100) 1 := by
  rw [hundredth_eq]
  refine isNear_nearest (by decide) ?_ ?_
  · rw [Nat.shiftLeft_eq, Nat.cast_mul, Nat.cast_pow, Nat.cast_ofNat, Nat.cast_ofNat]
    ring
  · have : (k : ℚ) ≤ 300 := by exact_mod_cast h
    linarith

/-- Hundredths keep the order of their numerators. -/
theorem hundredth_le_hundredth {k l : Nat} (h : k ≤ l) (hl : l ≤ 300) : hundredth k ≤ hundredth l := by
  rw [(isNear_hundredth (h.trans hl)).magnitude.le_iff (isNear_hundredth hl).magnitude,
    hundredth_eq, hundredth_eq, code_ofCode, code_ofCode]
  refine min_le_min_right infinity (nearestCode_le_nearestCode (by decide) ?_)
  rw [Nat.shiftLeft_eq, Nat.shiftLeft_eq]
  exact Nat.mul_le_mul_right _ h

/-- Up to a hundred hundredths are probabilities. -/
theorem hundredth_mem_range {k : Nat} (h : k ≤ 100) : 0.0 ≤ hundredth k ∧ hundredth k ≤ 1.0 := by
  rw [← hundredth_zero, ← hundredth_hundred]
  exact ⟨hundredth_le_hundredth (Nat.zero_le k) (h.trans (by decide)),
    hundredth_le_hundredth h (by decide)⟩

/-! ## Rounding to hundredths -/

/-- The number of hundredths nearest to a magnitude. -/
def hundredths (x : Float) : Nat :=
  nearestInteger (100 * units (code x)) (2 ^ unitPlaces)

/-- Rounding to two places gives a hundredth. -/
theorem toPlaces_two {x : Float} (hx : IsMagnitude x) :
    Rounded.toPlaces 2 x = hundredth (hundredths x) := by
  unfold Rounded.toPlaces
  simp only
  rw [if_pos hx.finite, hx.nonneg, Rounded.unitsAt_exact]
  rfl

/-- The nearest number of hundredths is at most half a hundredth away. -/
theorem hundredths_le (x : Float) : (hundredths x : ℚ) ≤ 100 * value x + 1 / 2 := by
  have hdist := (nearestInteger_dist (100 * units (code x)) (Nat.two_pow_pos unitPlaces)).1
  have hscale : (0 : ℚ) < 2 ^ unitPlaces := by positivity
  rw [← Nat.cast_le (α := ℚ)] at hdist
  push_cast at hdist
  rw [← value_mul_scale] at hdist
  refine le_of_mul_le_mul_right ?_ hscale
  show (nearestInteger _ _ : ℚ) * _ ≤ _
  linarith

/-- What is near a hundredth is rounded to it. -/
theorem toPlaces_of_isNear {x : Float} {k m : Nat} (hx : IsNear x (k / 100) m) (hm : m ≤ 2 ^ 40) :
    Rounded.toPlaces 2 x = hundredth k := by
  have hm : (m : ℚ) ≤ 2 ^ 40 := by exact_mod_cast hm
  obtain ⟨hlow, hhigh⟩ := abs_le.1 hx.dist_le
  have hscale : (0 : ℚ) < 2 ^ unitPlaces := by positivity
  have hbelow := mul_lt_mul_of_pos_right (show 2 * (k : ℚ) < 200 * value x + 1 by linarith) hscale
  have habove := mul_lt_mul_of_pos_right (show 200 * value x < 2 * (k : ℚ) + 1 by linarith) hscale
  rw [add_mul, mul_assoc 200, value_mul_scale] at hbelow
  rw [add_mul, mul_assoc 200, value_mul_scale] at habove
  rw [toPlaces_two hx.magnitude]
  refine congrArg hundredth (nearestInteger_eq ?_ ?_) <;>
    · rw [← Nat.cast_lt (α := ℚ)]
      push_cast
      linarith

end Lindenmayer
