import Lindenmayer.Number.Layout
import Lindenmayer.Proofs.Number.Literal
import Lindenmayer.Proofs.Text.Digits

/-!
# Short texts of numbers are literals

Whatever notation the layout chooses for a decimal, its short text matches the pattern of literals
and stands for a decimal of the same magnitude. With the digits that read back, the short text of
every number but NaN is therefore a literal whose value is that number.
-/

namespace Lindenmayer

open Text Literal

namespace Layout

theorem isRun_natDigits (n : Nat) : IsRun (natDigits n) :=
  ⟨natDigits_ne_nil n, fun _ hc => isDigit_of_isDigit (isDigit_of_mem_natDigits hc)⟩

theorem isRun_of_all {digits : List Char} (hne : digits ≠ []) (h : digits.all Char.isDigit) :
    IsRun digits :=
  ⟨hne, fun c hc => isDigit_of_isDigit (List.all_eq_true.1 h c hc)⟩

theorem isDigit_of_mem_replicate_zero {count : Nat} {c : Char}
    (h : c ∈ List.replicate count '0') : isDigit c := by
  obtain ⟨-, rfl⟩ := List.mem_replicate.1 h
  decide

/-- An exponent is written with a sign and may have a leading zero. -/
theorem isExponent_exponentText (exponent : Int) :
    IsExponent (exponentText exponent) exponent := by
  -- a sign is always written
  have hsign : IsSign [if exponent < 0 then '-' else '+'] (decide (exponent < 0)) := by
    by_cases h : exponent < 0
    · simp only [h, ↓reduceIte, decide_true]
      exact .minus
    · simp only [h, ↓reduceIte, decide_false]
      exact .plus
  have hvalue : (if decide (exponent < 0) = true then -Int.ofNat exponent.natAbs
      else Int.ofNat exponent.natAbs) = exponent := by
    simp only [decide_eq_true_eq, Int.ofNat_eq_natCast]
    omega
  unfold exponentText
  simp only
  generalize hdigits : (if (natDigits exponent.natAbs).length < 2 then
    '0' :: natDigits exponent.natAbs else natDigits exponent.natAbs) = digits
  -- a leading zero changes nothing
  have hrun : IsRun digits ∧ digitsValue digits = exponent.natAbs := by
    rw [← hdigits]
    split
    · refine ⟨⟨List.cons_ne_nil _ _, fun c hc => ?_⟩, ?_⟩
      · rcases List.mem_cons.1 hc with rfl | hc
        · decide
        · exact (isRun_natDigits _).2 c hc
      · rw [← List.singleton_append, digitsValue_append, digitsValue_natDigits]
        exact Nat.zero_add _
    · exact ⟨isRun_natDigits _, digitsValue_natDigits _⟩
  have h := IsExponent.marked (.inl rfl) hsign hrun.1
  rwa [hrun.2, hvalue] at h

theorem code_of_units_eq_zero (negative : Bool) (exponent : Int) :
    Decimal.code ⟨negative, 0, exponent⟩ = 0 := by
  rw [Decimal.code, if_pos rfl]

/-- The magnitude of a decimal does not depend on how many of its zeros at the end are written. -/
theorem code_shift (negative : Bool) (units : Nat) {zeros : Nat} (h : zeros ≤ 400) :
    Decimal.code ⟨negative, 10 ^ zeros * units, 0⟩ = Decimal.code ⟨negative, units, zeros⟩ := by
  by_cases hunits : units = 0
  · rw [hunits, Nat.mul_zero, code_of_units_eq_zero, code_of_units_eq_zero]
  · have hshifted : 10 ^ zeros * units ≠ 0 :=
      Nat.mul_ne_zero (Nat.pos_iff_ne_zero.1 (Nat.pow_pos (by decide))) hunits
    -- `Nat.pow` stays folded: the kernel would work the powers out
    rw [← Int.ofNat_zero, ← Int.ofNat_eq_natCast, ← Int.ofNat_eq_natCast,
      Decimal.code_of_nonneg hshifted (Nat.zero_le _), Decimal.code_of_nonneg hunits h,
      Nat.pow_eq, Nat.pow_eq, Nat.pow_zero, Nat.mul_one, Nat.mul_comm]

section
variable {sign : List Char} {negative : Bool}

/-- Texts of literals with a given sign and a given magnitude. -/
def Denotes (text : List Char) (negative : Bool) (code : Nat) : Prop :=
  ∃ read : Decimal, IsLiteral text read ∧ read.negative = negative ∧ read.code = code

/-- A mantissa and an exponent that stand for the very units and exponent of a decimal. -/
theorem denotes_of_isMantissa {mantissa whole fraction exponent : List Char} {value : Int}
    {d : Decimal} (hsign : IsSign sign negative) (hmantissa : IsMantissa mantissa whole fraction)
    (hexponent : IsExponent exponent value) (hunits : digitsValue (whole ++ fraction) = d.units)
    (hplace : value - fraction.length = d.exponent) :
    Denotes (sign ++ (mantissa ++ exponent)) negative d.code := by
  rw [← List.append_assoc]
  refine ⟨_, .intro hsign hmantissa hexponent, rfl, ?_⟩
  rw [hunits, hplace]
  rfl

theorem denotes_scientific (hsign : IsSign sign negative) (d : Decimal) :
    Denotes (sign ++ scientific (natDigits d.units)
      (d.exponent + (natDigits d.units).length - 1)) negative d.code := by
  have hvalue := digitsValue_natDigits d.units
  have hrun := isRun_natDigits d.units
  cases hdigits : natDigits d.units with
  | nil => exact absurd hdigits hrun.1
  | cons first more =>
    rw [hdigits] at hvalue hrun
    cases more with
    | nil =>
      refine denotes_of_isMantissa hsign (.whole hrun) (isExponent_exponentText _) ?_ ?_
      · rw [List.append_nil, hvalue]
      · simp only [List.length_cons, List.length_nil]
        omega
    | cons second more =>
      have hfirst : IsRun [first] :=
        ⟨by simp, fun c hc => hrun.2 c (List.mem_cons.2 (.inl (List.mem_singleton.1 hc)))⟩
      have hmantissa : IsMantissa (first :: '.' :: second :: more) [first] (second :: more) :=
        .pointed hfirst fun c hc => hrun.2 c (List.mem_cons_of_mem _ hc)
      refine denotes_of_isMantissa hsign hmantissa (isExponent_exponentText _) hvalue ?_
      simp only [List.length_cons]
      omega

section
variable {d : Decimal} {digits : List Char}

/-- Zeros stand between the point and the digits. -/
theorem denotes_leadingPoint (hsign : IsSign sign negative) (hrun : IsRun digits)
    (hvalue : digitsValue digits = d.units) {zeros : Nat}
    (hzeros : d.exponent = -(zeros + digits.length : Nat)) :
    Denotes (sign ++ ('0' :: '.' :: List.replicate zeros '0' ++ digits)) negative d.code := by
  have hfraction : ∀ c ∈ List.replicate zeros '0' ++ digits, isDigit c := by
    intro c hc
    rcases List.mem_append.1 hc with hc | hc
    · exact isDigit_of_mem_replicate_zero hc
    · exact hrun.2 c hc
  have hzero : IsRun ['0'] := isRun_of_all nofun rfl
  have h := denotes_of_isMantissa (d := d) hsign (.pointed hzero hfraction) .absent ?_ ?_
  · simpa using h
  · rw [digitsValue_append, digitsValue_append, digitsValue_replicate_zero, hvalue]
    simp [digitsValue, digitValue?_of_isDigit]
  · rw [hzeros, List.length_append, List.length_replicate]
    omega

/-- Zeros fill the places behind the digits. -/
theorem denotes_wholeZeros (hsign : IsSign sign negative) (hrun : IsRun digits)
    (hvalue : digitsValue digits = d.units) {zeros : Nat} (hzeros : d.exponent = zeros)
    (hmax : zeros ≤ 400) :
    Denotes (sign ++ (digits ++ List.replicate zeros '0')) negative d.code := by
  have hfilled : IsRun (digits ++ List.replicate zeros '0') := by
    refine ⟨by simp [hrun.1], fun c hc => ?_⟩
    rcases List.mem_append.1 hc with hc | hc
    · exact hrun.2 c hc
    · exact isDigit_of_mem_replicate_zero hc
  have hunits : digitsValue (digits ++ List.replicate zeros '0') = 10 ^ zeros * d.units := by
    simp [digitsValue_append, hvalue]
  have h := denotes_of_isMantissa (d := ⟨negative, 10 ^ zeros * d.units, 0⟩) hsign
    (.whole hfilled) .absent (by rw [List.append_nil, hunits]) rfl
  rw [code_shift negative d.units hmax, ← hzeros, List.append_nil] at h
  exact h

/-- The point stands behind some of the digits. -/
theorem denotes_innerPoint (hsign : IsSign sign negative) (hrun : IsRun digits)
    (hvalue : digitsValue digits = d.units) {point : Nat} (hpos : 0 < point)
    (hlt : point < digits.length) (hpoint : d.exponent + digits.length = point) :
    Denotes (sign ++ (digits.take point ++ '.' :: digits.drop point)) negative d.code := by
  have hwhole : IsRun (digits.take point) := by
    refine ⟨fun hnil => ?_, fun c hc => hrun.2 c (List.mem_of_mem_take hc)⟩
    have hlength := congrArg List.length hnil
    rw [List.length_take, List.length_nil] at hlength
    omega
  have hfraction : ∀ c ∈ digits.drop point, isDigit c :=
    fun c hc => hrun.2 c (List.mem_of_mem_drop hc)
  have h := denotes_of_isMantissa (d := d) hsign (.pointed hwhole hfraction) .absent
    (by rw [List.take_append_drop, hvalue]) (by rw [List.length_drop]; omega)
  rwa [List.append_nil] at h

end

theorem denotes_positional (hsign : IsSign sign negative) (d : Decimal)
    (hpoint : d.exponent + (natDigits d.units).length ≤ 16) :
    Denotes (sign ++ positional .short (natDigits d.units)
      (d.exponent + (natDigits d.units).length)) negative d.code := by
  have hvalue := digitsValue_natDigits d.units
  have hrun := isRun_natDigits d.units
  have hlength : 0 < (natDigits d.units).length := List.length_pos_iff.2 hrun.1
  unfold positional
  generalize natDigits d.units = digits at hvalue hrun hlength hpoint ⊢
  split
  · exact denotes_leadingPoint hsign hrun hvalue (by omega)
  · split
    · rename_i hlong
      obtain ⟨zeros, hzeros⟩ : ∃ zeros : Nat, d.exponent = zeros :=
        ⟨d.exponent.toNat, by omega⟩
      have hcount : (d.exponent + digits.length).toNat - digits.length = zeros := by omega
      rw [hcount, show NumberStyle.short.wholeEnding = [] from rfl, List.append_nil]
      exact denotes_wholeZeros hsign hrun hvalue hzeros (by omega)
    · exact denotes_innerPoint hsign hrun hvalue (by omega) (by omega) (by omega)

/-- The short text of an unsigned decimal, after a sign. -/
theorem denotes_unsigned (hsign : IsSign sign negative) (d : Decimal) :
    Denotes (sign ++ unsigned .short d) negative d.code := by
  unfold unsigned
  simp only
  split
  · rename_i hpoint
    exact denotes_positional hsign d hpoint.2
  · exact denotes_scientific hsign d

/-- The short text of an infinity overflows. -/
theorem denotes_infinity (hsign : IsSign sign negative) :
    Denotes (sign ++ NumberStyle.short.infinity) negative Binary64.infinity := by
  have hone : IsRun ['1'] := isRun_of_all nofun rfl
  have hdigits : IsRun ['9', '9', '9'] := isRun_of_all nofun rfl
  have hexponent : IsExponent ['e', '9', '9', '9'] 999 := .marked (.inl rfl) .absent hdigits
  exact @denotes_of_isMantissa _ _ _ ['1'] [] _ _ ⟨negative, 1, 999⟩ hsign (.whole hone)
    hexponent rfl rfl

end

end Layout

/-- The short text of a number that is not NaN is a literal with the number as its value. -/
theorem isLiteral_shortText {x : Float} (h : Binary64.code x ≤ Binary64.infinity) :
    ∃ d, IsLiteral (shortText x) d ∧ d.toFloat = x := by
  -- the magnitude is written in the same way behind either sign
  have hsigned {sign : List Char} (hsign : IsSign sign (Binary64.isNegative x)) :
      Layout.Denotes (sign ++ if Binary64.code x = Binary64.infinity then
          NumberStyle.short.infinity
        else Layout.unsigned .short (Shortest.decimal (Binary64.code x)))
        (Binary64.isNegative x) (Binary64.code x) := by
    split
    · rename_i hinfinite
      rw [hinfinite]
      exact Layout.denotes_infinity hsign
    · have hfinite : Binary64.code x < Binary64.infinity := by omega
      have h := Layout.denotes_unsigned hsign (Shortest.decimal (Binary64.code x))
      rwa [Shortest.code_decimal hfinite] at h
  have htext : Layout.Denotes (shortText x) (Binary64.isNegative x) (Binary64.code x) := by
    rw [shortText, numberText, Layout.signed, if_neg (Nat.not_lt.2 h)]
    simp only
    cases hnegative : Binary64.isNegative x with
    | true =>
      rw [hnegative] at hsigned
      exact hsigned .minus
    | false =>
      rw [hnegative] at hsigned
      exact hsigned .absent
  obtain ⟨d, hliteral, hnegative, hcode⟩ := htext
  refine ⟨d, hliteral, ?_⟩
  rw [Decimal.toFloat, hnegative, hcode, Binary64.ofCode_code h]

end Lindenmayer
