import Mathlib
import Lindenmayer.Text.Digit

/-!
# Written numbers

The digits of a natural number are ASCII digits, and `digitsValue` takes them back to the number.
-/

namespace Lindenmayer.Text

/-- What holds of each character of a fixed text holds of all of them. -/
theorem forall_mem_of_all {p : Char → Prop} [DecidablePred p] {text : List Char}
    (h : text.all (p ·)) : ∀ c ∈ text, p c :=
  fun c hc => of_decide_eq_true (List.all_eq_true.1 h c hc)

/-- An ASCII digit is worth its distance from zero. -/
theorem digitValue?_of_isDigit {c : Char} (h : c.isDigit) :
    digitValue? c = some (c.toNat - '0'.toNat) := by
  have hrange : 48 ≤ c.toNat ∧ c.toNat ≤ 57 := by
    simpa [Char.isDigit, UInt32.le_iff_toNat_le] using h
  have hfirst : (decide (48 ≤ c.toNat) && decide (c.toNat < 48 + 10)) = true := by
    simp only [Bool.and_eq_true, decide_eq_true_eq]
    omega
  rw [digitValue?, zeros, List.find?_cons_of_pos (by exact hfirst)]
  rfl

theorem isDigit_of_isDigit {c : Char} (h : c.isDigit) : isDigit c := by
  rw [isDigit, digitValue?_of_isDigit h]
  rfl

/-- A digit lies in the range of some zero. -/
theorem exists_zero_of_isDigit {c : Char} (h : isDigit c) :
    ∃ first ∈ zeros, first ≤ c.toNat ∧ c.toNat < first + 10 := by
  rw [isDigit, digitValue?, Option.isSome_map, List.find?_isSome] at h
  obtain ⟨first, hfirst, hrange⟩ := h
  rw [Bool.and_eq_true, decide_eq_true_eq, decide_eq_true_eq] at hrange
  exact ⟨first, hfirst, hrange⟩

theorem toNat_of_isAlpha {c : Char} (h : c.isAlpha) :
    (65 ≤ c.toNat ∧ c.toNat ≤ 90) ∨ (97 ≤ c.toNat ∧ c.toNat ≤ 122) := by
  simpa [Char.isAlpha, Char.isUpper, Char.isLower, UInt32.le_iff_toNat_le] using h

theorem not_isDigit_of_isAlpha {c : Char} (h : c.isAlpha) : ¬isDigit c := by
  intro hdigit
  obtain ⟨first, hfirst, hrange⟩ := exists_zero_of_isDigit hdigit
  have hzeros : ∀ first ∈ zeros, first = 48 ∨ 128 ≤ first := by decide
  have := toNat_of_isAlpha h
  have := hzeros first hfirst
  omega

theorem isDigit_of_mem_natDigits {n : Nat} {c : Char} (h : c ∈ natDigits n) : c.isDigit :=
  Nat.isDigit_of_mem_toDigits (by decide) (by decide) h

@[simp]
theorem natDigits_ne_nil (n : Nat) : natDigits n ≠ [] :=
  Nat.toDigits_ne_nil

/-! ## The value of a run of digits -/

/-- Reading goes on from the value of the digits before. -/
theorem foldl_digitsValue (digits : List Char) (start : Nat) :
    digits.foldl (fun value c => 10 * value + (digitValue? c).getD 0) start =
      10 ^ digits.length * start + digitsValue digits := by
  unfold digitsValue
  induction digits generalizing start with
  | nil => simp
  | cons c digits ih =>
    rw [List.foldl_cons, List.foldl_cons, ih, ih (10 * 0 + _), List.length_cons, Nat.pow_succ]
    simp only [Nat.mul_add, Nat.mul_zero, Nat.zero_add, Nat.mul_assoc, Nat.add_assoc]

theorem digitsValue_append (left right : List Char) :
    digitsValue (left ++ right) = 10 ^ right.length * digitsValue left + digitsValue right := by
  conv => lhs; unfold digitsValue
  rw [List.foldl_append, foldl_digitsValue]
  rfl

@[simp]
theorem digitsValue_replicate_zero (count : Nat) :
    digitsValue (List.replicate count '0') = 0 := by
  induction count with
  | zero => rfl
  | succ count ih =>
    rw [List.replicate_succ, ← List.singleton_append, digitsValue_append, ih]
    rfl

/-- On ASCII digits the value is that of the standard reader. -/
theorem digitsValue_eq_ofDigitChars {digits : List Char} (h : ∀ c ∈ digits, c.isDigit) :
    digitsValue digits = Nat.ofDigitChars 10 digits 0 := by
  have hfold : ∀ start, digits.foldl (fun value c => 10 * value + (digitValue? c).getD 0) start =
      digits.foldl (fun value c => 10 * value + (c.toNat - '0'.toNat)) start := by
    induction digits with
    | nil => exact fun _ => rfl
    | cons c digits ih =>
      intro start
      rw [List.foldl_cons, List.foldl_cons, digitValue?_of_isDigit (h c List.mem_cons_self),
        ih fun d hd => h d (List.mem_cons_of_mem c hd)]
      rfl
  rw [Nat.ofDigitChars_eq_foldl]
  exact hfold 0

/-- A number is read back from its digits. -/
theorem digitsValue_natDigits (n : Nat) : digitsValue (natDigits n) = n := by
  rw [digitsValue_eq_ofDigitChars fun c => isDigit_of_mem_natDigits]
  exact Nat.ofDigitChars_ten_toDigits

end Lindenmayer.Text
