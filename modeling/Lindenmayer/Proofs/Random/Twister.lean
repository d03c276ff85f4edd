import Lindenmayer.Random.Twister
import Lindenmayer.Proofs.Number.Monotone

/-!
# The range of draws

A draw of the generator is a count of units, fewer than the whole has, divided by the units of the
whole. As the operations keep the order, it is at most the quotient for the largest count, and a
uniform number stays between its bounds.
-/

namespace Lindenmayer

open Binary64

/-- Whatever source gives a draw from 0 to 1, the uniform number that is made of it lies between the
bounds. -/
theorem Drawing.uniform_mem_range {σ : Type} [DrawSource σ] {source : σ}
    (h : 0.0 ≤ (DrawSource.draw source).1 ∧ (DrawSource.draw source).1 < 1.0) :
    0.2 ≤ ((uniform 0.2 1.0 : Drawing σ Float).run source).1 ∧
      ((uniform 0.2 1.0 : Drawing σ Float).run source).1 ≤ 1.0 := by
  have hrun : ((uniform 0.2 1.0 : Drawing σ Float).run source).1 =
      0.2 + (1.0 - 0.2) * (DrawSource.draw source).1 := rfl
  have hle := Binary64.le_of_lt h.2
  have hlow : IsMagnitude 0.2 := ⟨by decide +kernel, by decide +kernel⟩
  have hwidth : IsMagnitude (1.0 - 0.2 : Float) := ⟨by decide +kernel, by decide +kernel⟩
  have hall : ((1.0 - 0.2) * 1.0 : Float) = 1.0 - 0.2 := by decide +kernel
  have hhigh : (0.2 + (1.0 - 0.2) : Float) = 1.0 := by decide +kernel
  rw [hrun]
  rcases IsMagnitude.of_between_or isMagnitude_zero isMagnitude_one h.1 hle rfl with hdraw | hdraw
  · obtain ⟨hpart, hpartLe⟩ :=
      hwidth.mul_le_mul hdraw isMagnitude_one hle (by rwa [hall])
    rw [hall] at hpartLe
    obtain ⟨hsum, hsumLe⟩ :=
      hlow.add_le_add hpart hwidth hpartLe (by rw [hhigh]; exact isMagnitude_one)
    rw [hhigh] at hsumLe
    exact ⟨hlow.le_add hpart hsum, hsumLe⟩
  · rw [hdraw]
    exact ⟨by decide +kernel, by decide +kernel⟩

namespace Twister

/-- Two words make fewer units than a whole has. -/
theorem units_lt (high low : UInt32) :
    (high >>> 5).toNat * Nat.pow 2 26 + (low >>> 6).toNat < 2 ^ 53 := by
  have hhigh := high.toNat_lt
  have hlow := low.toNat_lt
  have hupper : (high >>> 5).toNat = high.toNat / 2 ^ 5 := by
    rw [UInt32.toNat_shiftRight, Nat.shiftRight_eq_div_pow]
    rfl
  have hlower : (low >>> 6).toNat = low.toNat / 2 ^ 6 := by
    rw [UInt32.toNat_shiftRight, Nat.shiftRight_eq_div_pow]
    rfl
  rw [hupper, hlower, show Nat.pow 2 26 = 67108864 from rfl]
  omega

/-- A draw is a number below 1. -/
theorem draw_lt_one (t : Twister) : IsMagnitude t.draw.1 ∧ t.draw.1 < 1.0 := by
  have hlargest : IsMagnitude (Float.ofNat (2 ^ 53 - 1) / Float.ofNat (Nat.pow 2 53)) :=
    ⟨by decide +kernel, by decide +kernel⟩
  obtain ⟨hunits, hle⟩ := ofNat_le_ofNat
    (Nat.le_sub_one_of_lt (units_lt t.next.1 t.next.2.next.1)) (by decide)
    ⟨by decide +kernel, by decide +kernel⟩
  obtain ⟨hdraw, hbound⟩ := hunits.div_le_div ⟨by decide +kernel, by decide +kernel⟩
    (z := Float.ofNat (Nat.pow 2 53)) ⟨by decide +kernel, by decide +kernel⟩ (by decide +kernel) hle
    hlargest
  refine ⟨hdraw, (hdraw.lt_iff isMagnitude_one).2 ?_⟩
  calc code t.draw.1 ≤ code (Float.ofNat (2 ^ 53 - 1) / Float.ofNat (Nat.pow 2 53)) :=
        (hdraw.le_iff hlargest).1 hbound
    _ < code 1.0 := by decide +kernel

/-- Hence it lies between 0 and 1. -/
theorem draw_mem_range (t : Twister) : 0.0 ≤ t.draw.1 ∧ t.draw.1 < 1.0 := by
  obtain ⟨hdraw, hlt⟩ := draw_lt_one t
  exact ⟨(isMagnitude_zero.le_iff hdraw).2 (Nat.zero_le _), hlt⟩

/-- A weight of a random alternative is drawn from 0.2 to 1. -/
theorem uniform_mem_range (t : Twister) :
    0.2 ≤ ((Drawing.uniform 0.2 1.0 : Drawing Twister Float).run t).1 ∧
      ((Drawing.uniform 0.2 1.0 : Drawing Twister Float).run t).1 ≤ 1.0 :=
  Drawing.uniform_mem_range (draw_mem_range t)

end Twister

end Lindenmayer
