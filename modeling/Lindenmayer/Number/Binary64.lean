/-!
# Binary64 values and their codes

A binary64 value is a sign and a magnitude. The magnitudes have codes, which count them in ascending
order from zero to infinity; a code above that of infinity belongs to NaN. Every finite magnitude is
a whole number of units, the unit being the smallest one above zero, `2 ^ -1074`: it is a mantissa
below `2 ^ 53` times a power of two, whose exponent is its place. Each place above the first has
`2 ^ 52` codes.
-/

namespace Lindenmayer.Binary64

/-- The number of codes with the same place, the first place apart, which has twice as many. -/
def block : Nat := 4503599627370496

/-- The code of infinity. -/
def infinity : Nat := 9218868437227405312

/-- The number of binary places after the point that the unit takes. -/
def unitPlaces : Nat := 1074

/-- What the sign adds to the bits of a negative value. -/
def signWeight : Nat := 9223372036854775808

/-- Whether the sign of a value is negative, which it may be for a zero too. -/
def isNegative (x : Float) : Bool :=
  signWeight ≤ x.toBits.toNat

/-- The code of the magnitude of a value. -/
def code (x : Float) : Nat :=
  x.toBits.toNat % signWeight

/-- The mantissa of a finite magnitude. -/
def mantissa (code : Nat) : Nat :=
  if code < block then code else block + code % block

/-- The place of a finite magnitude. -/
def place (code : Nat) : Nat :=
  code / block - 1

/-! ## From codes to values -/

/-- The bits of a sign and a code. -/
def bits (negative : Bool) (code : Nat) : Nat :=
  (if negative then signWeight else 0) + code

theorem bits_lt (negative : Bool) {code : Nat} (h : code ≤ infinity) :
    bits negative code < 18446744073709551616 := by
  unfold bits signWeight
  unfold infinity at h
  split <;> omega

open Float.Model in
/-- Bits with a code up to that of infinity are not those of a NaN. -/
theorem valid_bits (negative : Bool) {code : Nat} (h : code ≤ infinity) :
    Format.binary64.Valid (UInt64.ofNat (bits negative code)).toBitVec := by
  refine ⟨fun hexponent hmantissa => absurd (BitVec.eq_of_toNat_eq ?_) hmantissa⟩
  have hlt := bits_lt negative h
  have hfield := congrArg BitVec.toNat hexponent
  have hbits : bits negative code = code ∨ bits negative code = signWeight + code := by
    cases negative
    · exact Or.inl (Nat.zero_add code)
    · exact Or.inr rfl
  -- the exponent and the mantissa as parts of the bits
  simp [UnpackedFloat.unpackExponent, UnpackedFloat.unpackMantissa,
    BitVec.extractLsb_toNat] at hfield ⊢
  rw [Nat.shiftRight_eq_div_pow] at hfield
  generalize bits negative code = n at *
  unfold signWeight at hbits
  unfold infinity at h
  omega

/-- The value with a sign and a code; codes above that of infinity stand for infinity. -/
def ofCode (negative : Bool) (code : Nat) : Float :=
  ⟨⟨UInt64.ofNat (bits negative (min code infinity)),
    valid_bits negative (Nat.min_le_right code infinity)⟩⟩

theorem toBits_ofCode (negative : Bool) (code : Nat) :
    (ofCode negative code).toBits = UInt64.ofNat (bits negative (min code infinity)) :=
  rfl

theorem eq_of_toBits {x y : Float} (h : x.toBits = y.toBits) : x = y := by
  obtain ⟨⟨a, ha⟩⟩ := x
  obtain ⟨⟨b, hb⟩⟩ := y
  have hab : a = b := h
  subst hab
  rfl

/-- A value that is not NaN is determined by its sign and its code. -/
theorem ofCode_code {x : Float} (h : code x ≤ infinity) : ofCode (isNegative x) (code x) = x := by
  apply eq_of_toBits
  rw [toBits_ofCode, Nat.min_eq_left h]
  apply UInt64.toNat_inj.1
  have hlt := x.toBits.toNat_lt
  rw [UInt64.toNat_ofNat']
  unfold bits isNegative code signWeight
  by_cases hsign : 9223372036854775808 ≤ x.toBits.toNat
  · simp only [hsign, decide_true, ↓reduceIte]
    omega
  · simp only [hsign, decide_false, Bool.false_eq_true, ↓reduceIte]
    omega

end Lindenmayer.Binary64
