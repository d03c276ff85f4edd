import Lindenmayer.RandomGrammar
import Lindenmayer.Proofs.Number.Hundredths

/-!
# Probabilities of random grammars

The probabilities of up to three alternatives are hundredths that add up to a hundred: the shares of
all alternatives but the last, rounded each, leave a remainder for the last one whatever the weights
are. Added up in binary64 arithmetic, such probabilities differ from 1 by less than coverage tolerates.
-/

namespace Lindenmayer

open Binary64

/-! ## Constants -/

theorem isNear_zero : IsNear 0.0 0 0 := by
  have hvalue : value 0.0 = 0 := by
    rw [value_eq (m := 0) (k := 1074) (by decide +kernel) (by decide +kernel)]
    simp
  rw [← hvalue]
  exact isMagnitude_zero.isNear

/-! ## Sums -/

section
variable {α : Type} {f : α → Float} {g : α → ℚ}

/-- Each summand adds its own rounding error and that of the addition. -/
theorem isNear_foldl {items : List α} (hitems : ∀ a ∈ items, IsNear (f a) (g a) 1)
    (hnonneg : ∀ a ∈ items, 0 ≤ g a) {x : Float} {r : ℚ} {m : Nat} (hx : IsNear x r m)
    (hle : r + (items.map g).sum ≤ 3) (herrors : m + 2 * items.length ≤ 2 ^ 50) :
    IsNear ((items.map f).foldl (· + ·) x) (r + (items.map g).sum) (m + 2 * items.length) := by
  induction items generalizing x r m with
  | nil => simpa using hx
  | cons a items ih =>
    simp only [List.map_cons, List.sum_cons, List.foldl_cons, ← add_assoc] at hle ⊢
    rw [List.length_cons] at herrors ⊢
    have hrest : 0 ≤ (items.map g).sum := by
      refine List.sum_nonneg fun r hr => ?_
      obtain ⟨b, hb, rfl⟩ := List.mem_map.1 hr
      exact hnonneg b (List.mem_cons_of_mem a hb)
    have hstep := hx.add (hitems a List.mem_cons_self) (by linarith) (by omega)
    have hsum := ih (fun b hb => hitems b (List.mem_cons_of_mem a hb))
      (fun b hb => hnonneg b (List.mem_cons_of_mem a hb)) hstep hle (by omega)
    rw [show m + 2 * (items.length + 1) = m + 1 + 1 + 2 * items.length by omega]
    exact hsum

/-- A sum of numbers that are near is near. -/
theorem RandomGrammar.isNear_sum {items : List α} (hitems : ∀ a ∈ items, IsNear (f a) (g a) 1)
    (hnonneg : ∀ a ∈ items, 0 ≤ g a) (hle : (items.map g).sum ≤ 3)
    (herrors : 2 * items.length ≤ 2 ^ 50) :
    IsNear (sum (items.map f)) (items.map g).sum (2 * items.length) := by
  have hnear := isNear_foldl hitems hnonneg isNear_zero (by rwa [zero_add]) (by omega)
  rwa [zero_add, Nat.zero_add] at hnear

end

/-- A common denominator can be taken out of a sum. -/
theorem sum_map_div (parts : List Nat) (d : ℚ) :
    (parts.map fun k : Nat => (k : ℚ) / d).sum = (parts.sum : ℚ) / d := by
  simp_rw [div_eq_mul_inv]
  rw [List.sum_map_mul_right, Nat.cast_list_sum]

namespace RandomGrammar

/-- The sum of hundredths is near the sum of their numerators. -/
theorem isNear_sum_hundredths {parts : List Nat} (hsum : parts.sum ≤ 300)
    (hlength : parts.length ≤ 2 ^ 40) :
    IsNear (sum (parts.map hundredth)) (parts.sum / 100) (2 * parts.length) := by
  have hle : (parts.sum : ℚ) ≤ 300 := by exact_mod_cast hsum
  rw [← sum_map_div]
  refine isNear_sum (fun k hk => isNear_hundredth ((List.le_sum_of_mem hk).trans hsum))
    (fun k _ => by positivity) ?_ (by omega)
  rw [sum_map_div]
  linarith

/-- Hundredths that add up to a hundred pass as a sum of 1. -/
theorem not_lt_abs_sum_sub_one {parts : List Nat} (hsum : parts.sum = 100)
    (hlength : parts.length ≤ 2 ^ 10) : ¬1e-9 < (sum (parts.map hundredth) - 1.0).abs := by
  have hnear := isNear_sum_hundredths (by omega) (hlength.trans (by decide))
  rw [hsum, Nat.cast_ofNat, div_self (by norm_num)] at hnear
  have herrors : ((2 * parts.length : Nat) : ℚ) ≤ 2 ^ 11 := by exact_mod_cast (by omega)
  have hdist : |value (sum (parts.map hundredth)) - value 1.0| ≤ 2 ^ 11 / 2 ^ 51 := by
    rw [value_one]
    exact hnear.dist_le.trans (by gcongr)
  have habs := hnear.magnitude.isNear_abs_sub isMagnitude_one (hdist.trans (by norm_num))
  have htolerance : IsMagnitude 1e-9 := ⟨by decide +kernel, by decide +kernel⟩
  rw [htolerance.lt_iff habs.magnitude, not_lt, ← habs.magnitude.value_le_iff htolerance,
    value_eq (x := 1e-9) (m := 4835703278458517) (k := 82) (by decide +kernel) (by decide +kernel)]
  have hnext := (abs_le.1 habs.dist_le).2
  norm_num at hnext hdist ⊢
  linarith

/-! ## Shares -/

/-- Whether a number can be a weight. -/
def IsWeight (w : Float) : Prop :=
  0.2 ≤ w ∧ w ≤ 1.0

namespace IsWeight

variable {w : Float}

theorem isMagnitude_low : IsMagnitude 0.2 :=
  ⟨by decide +kernel, by decide +kernel⟩

/-- A weight is a magnitude. -/
theorem isMagnitude (hw : IsWeight w) : IsMagnitude w :=
  .of_between isMagnitude_low isMagnitude_one hw.1 hw.2 (by decide +kernel)

/-- A weight is not much below 0.2. -/
theorem le_value (hw : IsWeight w) : 19 / 100 ≤ value w := by
  calc (19 / 100 : ℚ) ≤ value 0.2 := by
        rw [value_eq (m := 7205759403792794) (k := 55) (by decide +kernel) (by decide +kernel)]
        norm_num
    _ ≤ value w := (isMagnitude_low.value_le_iff hw.isMagnitude).2
        ((isMagnitude_low.le_iff hw.isMagnitude).1 hw.1)

/-- A weight is at most 1. -/
theorem value_le (hw : IsWeight w) : value w ≤ 1 := by
  rw [← value_one]
  exact (hw.isMagnitude.value_le_iff isMagnitude_one).2
    ((hw.isMagnitude.le_iff isMagnitude_one).1 hw.2)

end IsWeight

section
variable {weights : List Float} (hweights : ∀ w ∈ weights, IsWeight w)

include hweights

theorem sum_value_le : (weights.map value).sum ≤ weights.length := by
  have hsum := List.sum_le_card_nsmul (weights.map value) 1 fun r hr => by
    obtain ⟨w, hw, rfl⟩ := List.mem_map.1 hr
    exact (hweights w hw).value_le
  simpa using hsum

/-- The sum of up to three weights. -/
theorem isNear_sum_weights (hlength : weights.length ≤ 3) :
    IsNear (sum weights) (weights.map value).sum (2 * weights.length) := by
  have hcount : (weights.length : ℚ) ≤ 3 := by exact_mod_cast hlength
  have hitems : ∀ w ∈ weights, IsNear (id w) (value w) 1 := fun w hw =>
    (hweights w hw).isMagnitude.isNear.mono (by decide)
  have hnear := isNear_sum hitems (fun w _ => value_nonneg w)
    ((sum_value_le hweights).trans hcount) (by omega)
  rwa [List.map_id] at hnear

end

/-- The share of a weight in hundredths. -/
def share (total weight : Float) : Nat :=
  hundredths (weight / total)

section
variable {init : List Float} {last : Float} (hinit : ∀ w ∈ init, IsWeight w)
  (hlast : IsWeight last) (hlength : init.length ≤ 2)

include hinit hlast hlength

/-- The sum of up to three weights is near its value. -/
theorem isNear_total : IsNear (sum (init ++ [last])) ((init.map value).sum + value last) 6 := by
  have hweights : ∀ w ∈ init ++ [last], IsWeight w := by
    intro w hw
    rw [List.mem_append, List.mem_singleton] at hw
    exact hw.elim (hinit w) fun heq => heq ▸ hlast
  have hcount : (init ++ [last]).length ≤ 3 := by
    rw [List.length_append, List.length_singleton]
    omega
  have hnear := isNear_sum_weights hweights hcount
  simp only [List.map_append, List.sum_append, List.map_cons, List.map_nil, List.sum_cons,
    List.sum_nil, add_zero, List.length_append, List.length_cons, List.length_nil] at hnear
  exact hnear.mono (by omega)

omit hlast in
theorem sum_value_le_two : (init.map value).sum ≤ 2 := by
  have hcount : (init.length : ℚ) ≤ 2 := by exact_mod_cast hlength
  exact (sum_value_le hinit).trans hcount

/-- The sum of the weights is positive. -/
theorem value_total_pos : 0 < value (sum (init ++ [last])) := by
  have hnonneg : 0 ≤ (init.map value).sum := by
    refine List.sum_nonneg fun r hr => ?_
    obtain ⟨w, -, rfl⟩ := List.mem_map.1 hr
    exact value_nonneg w
  have hdist := (abs_le.1 (isNear_total hinit hlast hlength).dist_le).1
  have hweight := hlast.le_value
  norm_num at hdist
  linarith

/-- The weight of the last alternative keeps the quotients of the others small. -/
theorem sum_value_div_le :
    (init.map value).sum / value (sum (init ++ [last])) ≤ 949 / 1000 := by
  have hdist := (abs_le.1 (isNear_total hinit hlast hlength).dist_le).1
  have hweight := hlast.le_value
  have hsum := sum_value_le_two hinit hlength
  rw [div_le_iff₀ (value_total_pos hinit hlast hlength)]
  norm_num at hdist
  linarith

/-- A weight divided by their sum is near the exact quotient. -/
theorem isNear_quotient {w : Float} (hw : w ∈ init) :
    IsNear (w / sum (init ++ [last])) (value w / value (sum (init ++ [last]))) 1 := by
  have htotal := isNear_total hinit hlast hlength
  have hpos := value_total_pos hinit hlast hlength
  refine (hinit w hw).isMagnitude.isNear_div htotal.magnitude hpos ?_
  have hle : value w ≤ (init.map value).sum :=
    List.single_le_sum (fun r hr => by
      obtain ⟨v, -, rfl⟩ := List.mem_map.1 hr
      exact value_nonneg v) _ (List.mem_map_of_mem hw)
  have hquotients := sum_value_div_le hinit hlast hlength
  exact (div_le_div_of_nonneg_right hle (le_of_lt hpos)).trans (hquotients.trans (by norm_num))

/-- The last alternative is left a share. -/
theorem sum_shares_le : (init.map (share (sum (init ++ [last])))).sum ≤ 96 := by
  have hquotients := sum_value_div_le hinit hlast hlength
  have hnear {w : Float} (hw : w ∈ init) := isNear_quotient hinit hlast hlength hw
  generalize sum (init ++ [last]) = total at *
  have hshare : ((init.map (share total)).map Nat.cast : List ℚ).sum ≤
      (init.map fun w => 100 / value total * value w + 51 / 100).sum := by
    rw [List.map_map]
    refine List.sum_le_sum fun w hw => ?_
    have hshare := hundredths_le (w / total)
    have hdist := (abs_le.1 (hnear hw).dist_le).2
    norm_num at hdist
    rw [div_mul_eq_mul_div, mul_div_assoc]
    show (hundredths (w / total) : ℚ) ≤ _
    linarith
  have hcount : (init.length : ℚ) ≤ 2 := by exact_mod_cast hlength
  rw [List.sum_map_add, List.sum_map_mul_left, div_mul_eq_mul_div, mul_div_assoc, List.map_const',
    List.sum_replicate, nsmul_eq_mul, ← Nat.cast_list_sum] at hshare
  have hsum : ((init.map (share total)).sum : ℚ) < 97 := by linarith
  have hsum : (init.map (share total)).sum < 97 := by exact_mod_cast hsum
  omega

end

/-- The remainder for the last alternative. -/
theorem toPlaces_remainder {parts : List Nat} (hsum : parts.sum ≤ 96) (hlength : parts.length ≤ 2) :
    Rounded.toPlaces 2 (1.0 - sum (parts.map hundredth)) = hundredth (100 - parts.sum) := by
  have hbound : (parts.sum : ℚ) ≤ 96 := by exact_mod_cast hsum
  have herrors : ((2 * parts.length : Nat) : ℚ) / 2 ^ 51 ≤ 4 / 2 ^ 51 :=
    div_le_div_of_nonneg_right (by exact_mod_cast (by omega)) (by positivity)
  have hnear := isNear_sum_hundredths (hsum.trans (by decide)) (hlength.trans (by decide))
  have hdist := (abs_le.1 hnear.dist_le).2
  have horder : value (sum (parts.map hundredth)) ≤ value 1.0 := by
    rw [value_one]
    linarith
  have hone := isMagnitude_one.isNear
  rw [value_one] at hone
  have hdifference := hone.sub hnear horder (by linarith [parts.sum.cast_nonneg (α := ℚ)]) (by omega)
  have hexact : (1 : ℚ) - parts.sum / 100 = ((100 - parts.sum : Nat) : ℚ) / 100 := by
    rw [Nat.cast_sub (by omega), sub_div, Nat.cast_ofNat, div_self (by norm_num)]
  rw [hexact] at hdifference
  exact toPlaces_of_isNear hdifference (by omega)

/-- The probabilities for up to three weights are hundredths that add up to a hundred. -/
theorem probabilities_eq {weights : List Float} (hweights : ∀ w ∈ weights, IsWeight w)
    (hne : weights ≠ []) (hlength : weights.length ≤ 3) :
    ∃ parts : List Nat, probabilities weights = parts.map hundredth ∧
      parts.length = weights.length ∧ parts.sum = 100 := by
  obtain ⟨init, last, rfl⟩ := List.eq_nil_or_concat' weights |>.resolve_left hne
  have hinit : ∀ w ∈ init, IsWeight w := fun w hw => hweights w (List.mem_append_left _ hw)
  have hlast : IsWeight last := hweights last (List.mem_append_right _ (List.mem_singleton_self _))
  have hlength : init.length ≤ 2 := by
    rw [List.length_append, List.length_singleton] at hlength
    omega
  obtain ⟨parts, hparts⟩ : ∃ parts, parts = init.map (share (sum (init ++ [last]))) := ⟨_, rfl⟩
  have hsum : parts.sum ≤ 96 := hparts ▸ sum_shares_le hinit hlast hlength
  have hcount : parts.length = init.length := by rw [hparts, List.length_map]
  have hshares : (init.map fun w => Rounded.toPlaces 2 (w / sum (init ++ [last]))) =
      parts.map hundredth := by
    rw [hparts, List.map_map]
    exact List.map_congr_left fun w hw =>
      toPlaces_two (isNear_quotient hinit hlast hlength hw).magnitude
  refine ⟨parts ++ [100 - parts.sum], ?_, ?_, ?_⟩
  · unfold probabilities
    simp only [List.dropLast_concat]
    rw [hshares, toPlaces_remainder hsum (hcount ▸ hlength), List.map_append]
    rfl
  · rw [List.length_append, List.length_append, hcount]
    rfl
  · rw [List.sum_append, List.sum_singleton]
    omega

end RandomGrammar

end Lindenmayer
