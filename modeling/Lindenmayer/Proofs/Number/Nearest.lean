import Mathlib
import Lindenmayer.Number.Nearest

/-!
# How near the nearest is

Rounding to the nearest keeps the order of quotients, and it moves a quotient by no more than half
the distance between neighbours: half a unit where magnitudes are dense, and otherwise no more than
the part `2 ^ -53` of the quotient.
-/

namespace Lindenmayer

/-! ## Integers -/

/-- The nearest integer is the integral part or the integer above it. -/
theorem nearestInteger_cases (n d : Nat) :
    n / d ≤ nearestInteger n d ∧ nearestInteger n d ≤ n / d + 1 := by
  unfold nearestInteger
  simp only
  split
  · omega
  · split <;> omega

theorem nearestInteger_le_nearestInteger {n n' d : Nat} (h : n ≤ n') :
    nearestInteger n d ≤ nearestInteger n' d := by
  have hquotient := @Nat.div_le_div_right _ _ d h
  rcases Nat.lt_or_eq_of_le hquotient with hlt | heq
  · have hbelow := (nearestInteger_cases n d).2
    have habove := (nearestInteger_cases n' d).1
    omega
  · -- with equal integral parts the remainders decide
    have hremainder : n % d ≤ n' % d := by
      have hn := Nat.div_add_mod n d
      have hn' := Nat.div_add_mod n' d
      rw [heq] at hn
      omega
    unfold nearestInteger
    simp only [heq]
    split_ifs <;> omega

/-- The order of quotients is kept. -/
theorem nearestInteger_mono {n d n' d' : Nat} (hd : 0 < d) (hd' : 0 < d')
    (h : n * d' ≤ n' * d) : nearestInteger n d ≤ nearestInteger n' d' := by
  rw [← nearestInteger_mul_right n d hd', ← nearestInteger_mul_right n' d' hd, Nat.mul_comm d' d]
  exact nearestInteger_le_nearestInteger h

theorem nearestInteger_le {n d k : Nat} (hd : 0 < d) (h : n ≤ k * d) : nearestInteger n d ≤ k := by
  have hmono := @nearestInteger_le_nearestInteger _ _ d h
  rwa [nearestInteger_of_mul k hd] at hmono

theorem le_nearestInteger {n d k : Nat} (hd : 0 < d) (h : k * d ≤ n) : k ≤ nearestInteger n d := by
  have hmono := @nearestInteger_le_nearestInteger _ _ d h
  rwa [nearestInteger_of_mul k hd] at hmono

/-- The nearest integer is at most half away. -/
theorem nearestInteger_dist (n : Nat) {d : Nat} (hd : 0 < d) :
    2 * (nearestInteger n d * d) ≤ 2 * n + d ∧ 2 * n ≤ 2 * (nearestInteger n d * d) + d := by
  have hn : n / d * d + n % d = n := by
    rw [Nat.mul_comm]
    exact Nat.div_add_mod n d
  have hlt := Nat.mod_lt n hd
  unfold nearestInteger
  simp only
  split
  · omega
  · split
    · rw [Nat.add_mul, Nat.one_mul]
      omega
    · -- exactly half way
      rcases Nat.mod_two_eq_zero_or_one (n / d) with hparity | hparity
      · rw [hparity, Nat.add_zero]
        omega
      · rw [hparity, Nat.add_mul, Nat.one_mul]
        omega

/-- An integer less than half away is the nearest. -/
theorem nearestInteger_eq {n d k : Nat} (hlow : 2 * (k * d) < 2 * n + d)
    (hhigh : 2 * n < 2 * (k * d) + d) : nearestInteger n d = k := by
  have hd : 0 < d := by omega
  obtain ⟨hbelow, habove⟩ := nearestInteger_dist n hd
  generalize nearestInteger n d = i at *
  rcases Nat.lt_trichotomy i k with hlt | heq | hgt
  · have hmul : (i + 1) * d ≤ k * d := Nat.mul_le_mul_right d hlt
    rw [Nat.add_mul, Nat.one_mul] at hmul
    omega
  · exact heq
  · have hmul : (k + 1) * d ≤ i * d := Nat.mul_le_mul_right d hgt
    rw [Nat.add_mul, Nat.one_mul] at hmul
    omega

namespace Binary64

/-! ## Magnitudes -/

/-- The number of units of a finite magnitude. -/
def units (code : Nat) : Nat :=
  mantissa code <<< place code

/-- A mantissa with a place above the first one takes all its binary places. -/
theorem units_place {place m : Nat} (hlow : place = 0 ∨ block ≤ m) (hhigh : m ≤ 2 * block) :
    units (place * block + m) = m <<< place := by
  unfold units
  rcases Nat.lt_or_eq_of_le hhigh with hlt | rfl
  · have hplace : Binary64.place (place * block + m) = place := by
      unfold Binary64.place block at *
      omega
    have hsplit := place_mul_block_add_mantissa (place * block + m)
    rw [hplace] at hsplit ⊢
    rw [Nat.add_left_cancel hsplit]
  · -- the mantissa has been carried into the next place
    have hplace : Binary64.place (place * block + 2 * block) = place + 1 := by
      unfold Binary64.place block at *
      omega
    have hsplit := place_mul_block_add_mantissa (place * block + 2 * block)
    have hmantissa : mantissa (place * block + 2 * block) = block := by
      rw [hplace, Nat.add_mul] at hsplit
      omega
    rw [hplace, hmantissa, Nat.shiftLeft_eq, Nat.shiftLeft_eq, Nat.pow_succ]
    rw [Nat.mul_comm (2 ^ place), ← Nat.mul_assoc, Nat.mul_comm block]

@[simp]
theorem units_zero : units 0 = 0 :=
  rfl

/-- A finite magnitude is the nearest one to its units. -/
theorem nearestCode_units_one {code : Nat} (h : code ≤ infinity) :
    nearestCode (units code) 1 = code := by
  have hself := nearestCode_units h (d := 1) Nat.one_pos
  rwa [Nat.mul_one] at hself

/-- The place of the magnitude nearest to a quotient. -/
def nearestPlace (n d : Nat) : Nat :=
  (n / d).log2 - 52

/-- The mantissa of the magnitude nearest to a quotient, which may have to be carried. -/
def nearestMantissa (n d : Nat) : Nat :=
  nearestInteger n (d <<< nearestPlace n d)

theorem nearestCode_eq (n d : Nat) :
    nearestCode n d = min (nearestPlace n d * block + nearestMantissa n d) infinity :=
  rfl

section
variable {n d : Nat} (hd : 0 < d)

include hd

theorem shiftLeft_pos (place : Nat) : 0 < d <<< place := by
  rw [Nat.shiftLeft_eq]
  exact Nat.mul_pos hd (Nat.two_pow_pos place)

/-- Above the first place a quotient has at least the smallest mantissa that takes all places. -/
theorem block_mul_le (h : nearestPlace n d ≠ 0) : block * d <<< nearestPlace n d ≤ n := by
  have hlog : nearestPlace n d + 52 ≤ (n / d).log2 := by
    unfold nearestPlace at *
    omega
  have hne : n / d ≠ 0 := by
    intro hzero
    rw [hzero] at hlog
    exact absurd hlog (by simp)
  have hpow : 2 ^ (nearestPlace n d + 52) ≤ n / d := (Nat.le_log2 hne).1 hlog
  have hmul := Nat.le_div_iff_mul_le hd |>.1 hpow
  calc block * d <<< nearestPlace n d = 2 ^ (nearestPlace n d + 52) * d := by
        rw [Nat.shiftLeft_eq, Nat.pow_add, show block = 2 ^ 52 from rfl]
        ring
    _ ≤ n := hmul

theorem lt_block_mul (n : Nat) : n < 2 * block * d <<< nearestPlace n d := by
  have hlog : (n / d).log2 + 1 ≤ nearestPlace n d + 53 := by
    unfold nearestPlace
    omega
  have hlt : n / d < 2 ^ (nearestPlace n d + 53) :=
    Nat.lt_of_lt_of_le Nat.lt_log2_self (Nat.pow_le_pow_right (by decide) hlog)
  calc n < 2 ^ (nearestPlace n d + 53) * d := (Nat.div_lt_iff_lt_mul hd).1 hlt
    _ = 2 * block * d <<< nearestPlace n d := by
        rw [Nat.shiftLeft_eq, Nat.pow_add, show 2 * block = 2 ^ 53 from rfl]
        ring

theorem nearestMantissa_le (n : Nat) : nearestMantissa n d ≤ 2 * block :=
  nearestInteger_le (shiftLeft_pos hd _) (Nat.le_of_lt (lt_block_mul hd n))

theorem le_nearestMantissa (n : Nat) : nearestPlace n d = 0 ∨ block ≤ nearestMantissa n d := by
  rcases Nat.eq_zero_or_pos (nearestPlace n d) with hzero | hpos
  · exact .inl hzero
  · exact .inr (le_nearestInteger (shiftLeft_pos hd _) (block_mul_le hd (Nat.ne_of_gt hpos)))

end

theorem nearestCode_le_nearestCode {n n' d : Nat} (hd : 0 < d) (h : n ≤ n') :
    nearestCode n d ≤ nearestCode n' d := by
  have hplace : nearestPlace n d ≤ nearestPlace n' d := by
    have hlog : (n / d).log2 ≤ (n' / d).log2 := by
      by_cases hzero : n / d = 0
      · rw [hzero]
        exact Nat.zero_le _
      · have hle : n / d ≤ n' / d := Nat.div_le_div_right h
        have hne : n' / d ≠ 0 :=
          Nat.ne_of_gt (Nat.lt_of_lt_of_le (Nat.pos_of_ne_zero hzero) hle)
        exact (Nat.le_log2 hne).2 (Nat.le_trans (Nat.log2_self_le hzero) hle)
    exact Nat.sub_le_sub_right hlog 52
  rw [nearestCode_eq, nearestCode_eq]
  refine min_le_min_right infinity ?_
  rcases Nat.lt_or_eq_of_le hplace with hlt | heq
  · -- the lower place ends where the higher one begins
    have hbelow := nearestMantissa_le hd n
    have habove : block ≤ nearestMantissa n' d :=
      (le_nearestMantissa hd n').resolve_left (by omega)
    calc nearestPlace n d * block + nearestMantissa n d
        ≤ (nearestPlace n d + 1) * block + block := by
          rw [Nat.add_mul]
          omega
      _ ≤ nearestPlace n' d * block + nearestMantissa n' d :=
          Nat.add_le_add (Nat.mul_le_mul_right block hlt) habove
  · unfold nearestMantissa
    rw [heq]
    exact Nat.add_le_add_left (nearestInteger_le_nearestInteger h) _

/-- The order of quotients is kept. -/
theorem nearestCode_mono {n d n' d' : Nat} (hd : 0 < d) (hd' : 0 < d')
    (h : n * d' ≤ n' * d) : nearestCode n d ≤ nearestCode n' d' := by
  rw [← nearestCode_mul_right n d hd', ← nearestCode_mul_right n' d' hd, Nat.mul_comm d' d]
  exact nearestCode_le_nearestCode (Nat.mul_pos hd hd') h

/-- Magnitudes are in the order of their units. -/
theorem units_le_units_iff {a b : Nat} (ha : a ≤ infinity) (hb : b ≤ infinity) :
    units a ≤ units b ↔ a ≤ b := by
  have hmono {a b : Nat} (ha : a ≤ infinity) (hb : b ≤ infinity) (h : units a ≤ units b) :
      a ≤ b := by
    rw [← nearestCode_units_one ha, ← nearestCode_units_one hb]
    exact nearestCode_le_nearestCode Nat.one_pos h
  refine ⟨hmono ha hb, fun h => ?_⟩
  rcases Nat.lt_or_eq_of_le h with hlt | rfl
  · by_contra hgt
    exact absurd (hmono hb ha (Nat.le_of_lt (Nat.lt_of_not_le hgt))) (Nat.not_le.2 hlt)
  · exact Nat.le_refl _

/-- A quotient that is not too large has a finite nearest magnitude. It is off by at most half a unit
or the part `2 ^ -53` of the quotient. -/
theorem units_nearestCode {n d k : Nat} (hd : 0 < d) (hk : k ≤ 1200) (h : n ≤ 2 ^ k * d) :
    nearestCode n d < infinity ∧
      2 ^ 53 * (units (nearestCode n d) * d) ≤ 2 ^ 53 * n + (n + 2 ^ 52 * d) ∧
      2 ^ 53 * n ≤ 2 ^ 53 * (units (nearestCode n d) * d) + (n + 2 ^ 52 * d) := by
  have hplace : nearestPlace n d ≤ 1148 := by
    have hle : n / d ≤ 2 ^ k := Nat.div_le_of_le_mul (by rwa [Nat.mul_comm])
    have hlog : (n / d).log2 < k + 1 := by
      by_cases hzero : n / d = 0
      · rw [hzero]
        exact Nat.succ_pos k
      · exact (Nat.log2_lt hzero).2
          (Nat.lt_of_le_of_lt hle (Nat.pow_lt_pow_succ Nat.one_lt_two))
    unfold nearestPlace
    omega
  have hmantissa := nearestMantissa_le hd n
  have hfinite : nearestPlace n d * block + nearestMantissa n d < infinity := by
    have hmul : nearestPlace n d * block ≤ 1148 * block := Nat.mul_le_mul_right block hplace
    unfold infinity block at *
    omega
  have hcode : nearestCode n d = nearestPlace n d * block + nearestMantissa n d :=
    Nat.min_eq_left (Nat.le_of_lt hfinite)
  have hunits : units (nearestCode n d) * d = nearestMantissa n d * (d <<< nearestPlace n d) := by
    rw [hcode, units_place (le_nearestMantissa hd n) hmantissa, Nat.shiftLeft_eq, Nat.shiftLeft_eq]
    ring
  -- neighbours are one unit apart, or a part of the quotient
  have hstep : 2 ^ 52 * d <<< nearestPlace n d ≤ n + 2 ^ 52 * d := by
    by_cases hzero : nearestPlace n d = 0
    · rw [hzero, Nat.shiftLeft_zero]
      exact Nat.le_add_left _ n
    · exact Nat.le_trans (block_mul_le hd hzero) (Nat.le_add_right n _)
  obtain ⟨hbelow, habove⟩ := nearestInteger_dist n (shiftLeft_pos hd (nearestPlace n d))
  rw [show nearestInteger n (d <<< nearestPlace n d) = nearestMantissa n d from rfl] at hbelow habove
  rw [hunits]
  generalize nearestMantissa n d * (d <<< nearestPlace n d) = value at *
  refine ⟨by rw [hcode]; exact hfinite, ?_, ?_⟩ <;> omega

end Binary64

end Lindenmayer
