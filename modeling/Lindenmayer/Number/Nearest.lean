import Lindenmayer.Number.Binary64

/-!
# Rounding to the nearest

A quotient of natural numbers is rounded to the nearest integer or, counted in units of the smallest
magnitude, to the nearest magnitude; a half goes to the even neighbour. Both depend on the value of
the quotient only, and a magnitude is its own nearest one.
-/

namespace Lindenmayer

/-- The integer nearest to `n / d`; of two, the even one. -/
def nearestInteger (n d : Nat) : Nat :=
  let quotient := n / d
  let remainder := n % d
  if 2 * remainder < d then quotient
  else if d < 2 * remainder then quotient + 1
  else quotient + quotient % 2

theorem nearestInteger_mul_right (n d : Nat) {k : Nat} (h : 0 < k) :
    nearestInteger (n * k) (d * k) = nearestInteger n d := by
  have hlt : 2 * (n % d * k) < d * k ↔ 2 * (n % d) < d := by
    rw [← Nat.mul_assoc]
    exact Nat.mul_lt_mul_right h
  have hgt : d * k < 2 * (n % d * k) ↔ d < 2 * (n % d) := by
    rw [← Nat.mul_assoc]
    exact Nat.mul_lt_mul_right h
  simp only [nearestInteger, Nat.mul_div_mul_right n d h, Nat.mul_mod_mul_right, hlt, hgt]

theorem nearestInteger_of_mul (q : Nat) {d : Nat} (h : 0 < d) : nearestInteger (q * d) d = q := by
  simp [nearestInteger, Nat.mul_div_cancel q h, h]

namespace Binary64

/-- The code of the magnitude nearest to `n / d` units. The integral part of the quotient decides
the place; what would lie beyond the largest finite magnitude becomes infinity. -/
def nearestCode (n d : Nat) : Nat :=
  let place := (n / d).log2 - 52
  min (place * block + nearestInteger n (d <<< place)) infinity

theorem nearestCode_mul_right (n d : Nat) {k : Nat} (h : 0 < k) :
    nearestCode (n * k) (d * k) = nearestCode n d := by
  simp only [nearestCode, Nat.mul_div_mul_right n d h, Nat.shiftLeft_eq]
  rw [Nat.mul_right_comm, nearestInteger_mul_right n _ h]

theorem mantissa_lt (code : Nat) : mantissa code < 2 * block := by
  unfold mantissa block
  split <;> omega

/-- The place of a magnitude and its mantissa determine its code. -/
theorem place_mul_block_add_mantissa (code : Nat) : place code * block + mantissa code = code := by
  unfold place mantissa block
  split <;> omega

/-- Only zero has the mantissa zero. -/
theorem eq_zero_of_mantissa {code : Nat} (h : mantissa code = 0) : code = 0 := by
  have := place_mul_block_add_mantissa code
  unfold mantissa block at h
  split at h <;> omega

/-- The place of a magnitude is what its number of units says. -/
theorem log2_units (code : Nat) : (mantissa code <<< place code).log2 - 52 = place code := by
  by_cases h : code < block
  · have hp : place code = 0 := by
      unfold place
      rw [Nat.div_eq_of_lt h]
    rw [hp, Nat.shiftLeft_zero]
    by_cases h0 : mantissa code = 0
    · simp [h0]
    · have : (mantissa code).log2 < 52 := by
        rw [Nat.log2_lt h0, mantissa, if_pos h]
        exact h
      omega
  · have hm : mantissa code = block + code % block := by simp [mantissa, h]
    have hb : 0 < block := by decide
    have hmod := Nat.mod_lt code hb
    have h0 : mantissa code <<< place code ≠ 0 := by
      rw [Nat.shiftLeft_eq, hm]
      exact Nat.mul_ne_zero (by omega) (Nat.pos_iff_ne_zero.1 (Nat.two_pow_pos _))
    have : (mantissa code <<< place code).log2 = 52 + place code := by
      rw [Nat.log2_eq_iff h0, Nat.shiftLeft_eq, Nat.pow_succ, Nat.pow_add, hm]
      have hpow := Nat.two_pow_pos (place code)
      constructor
      · exact Nat.mul_le_mul_right _ (by unfold block; omega)
      · rw [Nat.mul_right_comm]
        exact Nat.mul_lt_mul_of_pos_right (by unfold block at *; omega) hpow
    omega

/-- A finite magnitude is the nearest one to itself. -/
theorem nearestCode_units {code d : Nat} (hcode : code ≤ infinity) (h : 0 < d) :
    nearestCode ((mantissa code <<< place code) * d) d = code := by
  have hd : 0 < d <<< place code := by
    rw [Nat.shiftLeft_eq]
    exact Nat.mul_pos h (Nat.two_pow_pos _)
  have hn : (mantissa code <<< place code) * d = mantissa code * d <<< place code := by
    simp only [Nat.shiftLeft_eq]
    rw [Nat.mul_right_comm, Nat.mul_assoc]
  simp only [nearestCode, Nat.mul_div_cancel _ h, log2_units]
  rw [hn, nearestInteger_of_mul _ hd, place_mul_block_add_mantissa, Nat.min_eq_left hcode]

end Binary64

end Lindenmayer
