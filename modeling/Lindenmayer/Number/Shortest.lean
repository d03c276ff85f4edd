import Lindenmayer.Number.Decimal
import Lindenmayer.Text.Digit

/-!
# The fewest digits that read back

A finite magnitude has an exact decimal expansion. Cutting it after its first digit, its second, and
so on gives ever closer decimals, each with a neighbour just above; the first of them that
`Decimal.code` takes back to the magnitude has the fewest digits. The search ends at the latest at
the full expansion. Whole numbers of up to sixteen digits stand for themselves: no shorter decimal
reads back as one of them unless it is the same number. Magnitudes are given by their codes.
-/

namespace Lindenmayer.Shortest

open Text Binary64

/-- The exact decimal expansion of a finite magnitude. -/
def exact (code : Nat) : Decimal :=
  if unitPlaces ≤ place code then ⟨false, mantissa code <<< (place code - unitPlaces), 0⟩
  else
    let places := unitPlaces - place code
    ⟨false, mantissa code * Nat.pow 5 places, -Int.ofNat places⟩

/-- The decimal for a magnitude after the last `cut` digits of its expansion are gone. If the one
below and the one above both read back, the nearer is taken, and the even one at a tie. -/
def cutTo? (code : Nat) (expansion : Decimal) (cut : Nat) : Option Decimal :=
  let power := Nat.pow 10 cut
  let units := expansion.units / power
  let remainder := expansion.units % power
  let below := Decimal.trimZeros ⟨false, units, expansion.exponent + cut⟩
  let above := Decimal.trimZeros ⟨false, units + 1, expansion.exponent + cut⟩
  match below.code == code, above.code == code with
  | false, false => none
  | true, false => some below
  | false, true => some above
  | true, true =>
    if 2 * remainder < power then some below
    else if power < 2 * remainder then some above
    else if units % 2 = 0 then some below
    else some above

/-- The first decimal that reads back when `cut` digits are cut off, then one fewer, and so on. -/
def search (code : Nat) (expansion : Decimal) : Nat → Decimal
  | 0 => expansion
  | cut + 1 => (cutTo? code expansion (cut + 1)).getD (search code expansion cut)

/-- A finite magnitude as a natural number, if it is one. -/
def whole? (code : Nat) : Option Nat :=
  if unitPlaces ≤ place code then some (mantissa code <<< (place code - unitPlaces))
  else
    let scale := 1 <<< (unitPlaces - place code)
    if mantissa code % scale = 0 then some (mantissa code / scale) else none

/-- A decimal of the fewest digits that reads back as a finite magnitude; a whole number below
`10 ^ 16` is written out in full. -/
def decimal (code : Nat) : Decimal :=
  match (whole? code).filter (· < 10000000000000000) with
  | some n => ⟨false, n, 0⟩
  | none =>
    let expansion := exact code
    search code expansion ((natDigits expansion.units).length - 1)

/-! ## Reading back -/

/-- The expansion of a magnitude reads back. -/
theorem code_exact {code : Nat} (h : code < infinity) : (exact code).code = code := by
  by_cases hm : mantissa code = 0
  · have hu : (exact code).units = 0 := by
      unfold exact
      split <;> simp [hm]
    rw [Decimal.code, if_pos hu, eq_zero_of_mantissa hm]
  · unfold exact
    split
    · rename_i hp
      have hunits : mantissa code <<< (place code - unitPlaces) ≠ 0 := by
        rw [Nat.shiftLeft_eq]
        exact Nat.mul_ne_zero hm (Nat.pos_iff_ne_zero.1 (Nat.two_pow_pos _))
      have hn := nearestCode_units (Nat.le_of_lt h) (d := 1) Nat.one_pos
      rw [Nat.mul_one] at hn
      show Decimal.code ⟨false, _, .ofNat 0⟩ = code
      rw [Decimal.code_of_nonneg hunits (Nat.zero_le _), Nat.pow_eq, Nat.pow_zero, Nat.mul_one,
        ← Nat.shiftLeft_add, Nat.sub_add_cancel hp, hn]
    · rename_i hp
      obtain ⟨k, hk⟩ : ∃ k, unitPlaces = place code + (k + 1) :=
        ⟨unitPlaces - place code - 1, by omega⟩
      have h5 : 0 < 5 ^ (k + 1) := Nat.pow_pos (by decide)
      have hunits : mantissa code * 5 ^ (k + 1) ≠ 0 := Nat.mul_ne_zero hm (by omega)
      have hlog : k ≤ (mantissa code * 5 ^ (k + 1)).log2 + 400 := by
        have : k + 1 ≤ (mantissa code * 5 ^ (k + 1)).log2 := by
          rw [Nat.le_log2 hunits]
          calc 2 ^ (k + 1) ≤ 5 ^ (k + 1) := Nat.pow_le_pow_left (by decide) _
            _ ≤ mantissa code * 5 ^ (k + 1) := Nat.le_mul_of_pos_left _ (Nat.pos_of_ne_zero hm)
        omega
      have hd : 0 < 10 ^ (k + 1) := Nat.pow_pos (by decide)
      have hk' : unitPlaces - place code = k + 1 := by omega
      show Decimal.code ⟨false, mantissa code * 5 ^ (unitPlaces - place code),
        -Int.ofNat (unitPlaces - place code)⟩ = code
      have hnum : (mantissa code * 5 ^ (k + 1)) <<< unitPlaces =
          mantissa code <<< place code * 10 ^ (k + 1) := by
        rw [Nat.shiftLeft_eq, Nat.shiftLeft_eq, hk, Nat.pow_add 2, show (10 : Nat) = 2 * 5 from rfl,
          Nat.mul_pow]
        simp only [Nat.mul_assoc, Nat.mul_left_comm, Nat.mul_comm]
      rw [hk', show -Int.ofNat (k + 1) = Int.negSucc k from rfl, Decimal.code_of_neg hunits hlog,
        Nat.pow_eq, hnum]
      exact nearestCode_units (Nat.le_of_lt h) hd

theorem code_of_cutTo? {code cut : Nat} {expansion d : Decimal}
    (h : cutTo? code expansion cut = some d) : d.code = code := by
  simp only [cutTo?] at h
  split at h
  · exact absurd h (by simp)
  · simp_all
  · simp_all
  · repeat' split at h
    all_goals simp_all

theorem code_search {code : Nat} {expansion : Decimal} (h : expansion.code = code) (cut : Nat) :
    (search code expansion cut).code = code := by
  induction cut with
  | zero => exact h
  | succ cut ih =>
    rw [search]
    cases hc : cutTo? code expansion (cut + 1) with
    | none => exact ih
    | some d => exact code_of_cutTo? hc

/-- A magnitude that is a natural number reads back from it. -/
theorem code_of_whole? {code n : Nat} (h : code < infinity) (hn : whole? code = some n) :
    Decimal.code ⟨false, n, 0⟩ = code := by
  have hself := nearestCode_units (Nat.le_of_lt h) (d := 1) Nat.one_pos
  rw [Nat.mul_one] at hself
  have hval : n <<< unitPlaces = mantissa code <<< place code := by
    unfold whole? at hn
    split at hn
    · rename_i hp
      simp only [Option.some.injEq] at hn
      rw [← hn, ← Nat.shiftLeft_add, Nat.sub_add_cancel hp]
    · rename_i hp
      simp only [Option.ite_none_right_eq_some, Option.some.injEq] at hn
      obtain ⟨hdvd, rfl⟩ := hn
      have hsplit : unitPlaces = (unitPlaces - place code) + place code := by omega
      have hmul := Nat.div_mul_cancel (Nat.dvd_of_mod_eq_zero hdvd)
      rw [Nat.one_shiftLeft] at hmul ⊢
      rw [Nat.shiftLeft_eq, Nat.shiftLeft_eq, hsplit, Nat.pow_add, ← Nat.mul_assoc,
        Nat.add_sub_cancel, hmul]
  by_cases h0 : n = 0
  · subst h0
    have hm : mantissa code = 0 := by
      rw [Nat.zero_shiftLeft] at hval
      by_cases hm : mantissa code = 0
      · exact hm
      · rw [Nat.shiftLeft_eq] at hval
        exact absurd hval.symm (Nat.mul_ne_zero hm (Nat.pos_iff_ne_zero.1 (Nat.two_pow_pos _)))
    rw [eq_zero_of_mantissa hm]
    rfl
  · show Decimal.code ⟨false, n, .ofNat 0⟩ = code
    rw [Decimal.code_of_nonneg h0 (Nat.zero_le _), Nat.pow_eq, Nat.pow_zero, Nat.mul_one, hval,
      hself]

/-- What is written for a finite magnitude reads back. -/
theorem code_decimal {code : Nat} (h : code < infinity) : (decimal code).code = code := by
  unfold decimal
  split
  · rename_i n hn
    exact code_of_whole? h (Option.eq_some_of_filter_eq_some hn)
  · exact code_search (code_exact h) _

end Lindenmayer.Shortest
