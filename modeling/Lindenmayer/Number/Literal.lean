import Lindenmayer.Number.Decimal
import Lindenmayer.Text.Digit

/-!
# Number literals

A literal is an optional sign, digits with at most one point among them, and an optional exponent.
At least one digit stands before the exponent, and an exponent without digits is not part of the
literal. Digits of every script count.
-/

namespace Lindenmayer.Literal

open Text

/-- Takes off a leading sign; `true` stands for minus. -/
def takeSign : List Char → Bool × List Char
  | '-' :: rest => (true, rest)
  | '+' :: rest => (false, rest)
  | rest => (false, rest)

/-- Takes off the digits before and after the point, of which there must be at least one. -/
def takeMantissa (text : List Char) : Option (List Char × List Char × List Char) :=
  let whole := text.takeWhile isDigit
  match text.dropWhile isDigit with
  | '.' :: rest =>
    let fraction := rest.takeWhile isDigit
    if whole.isEmpty && fraction.isEmpty then none
    else some (whole, fraction, rest.dropWhile isDigit)
  | rest => if whole.isEmpty then none else some (whole, [], rest)

/-- Takes off an exponent if a complete one is there. -/
def takeExponent (text : List Char) : Int × List Char :=
  match text with
  | [] => (0, [])
  | c :: rest =>
    if c == 'e' || c == 'E' then
      let (negative, rest) := takeSign rest
      let digits := rest.takeWhile isDigit
      if digits.isEmpty then (0, text)
      else
        let magnitude := Int.ofNat (digitsValue digits)
        (if negative then -magnitude else magnitude, rest.dropWhile isDigit)
    else (0, text)

/-- Reads the longest literal at the front of a text, and gives what follows it. -/
def take? (text : List Char) : Option (Decimal × List Char) := do
  let (negative, unsigned) := takeSign text
  let (whole, fraction, rest) ← takeMantissa unsigned
  let (exponent, rest) := takeExponent rest
  some (⟨negative, digitsValue (whole ++ fraction), exponent - fraction.length⟩, rest)

/-! ## A literal is never empty -/

/-- Behind a sign there is no more text than before it. -/
theorem length_takeSign_le (text : List Char) : (takeSign text).2.length ≤ text.length := by
  unfold takeSign
  split <;> simp

/-- Behind an exponent there is no more text than before it. -/
theorem length_takeExponent_le (text : List Char) :
    (takeExponent text).2.length ≤ text.length := by
  unfold takeExponent
  split
  · simp
  · rename_i c rest
    have hsign := length_takeSign_le rest
    have hdrop := (List.dropWhile_suffix (l := (takeSign rest).2) isDigit).length_le
    simp only
    split
    · split
      · exact Nat.le_refl _
      · simp only [List.length_cons]
        omega
    · exact Nat.le_refl _

theorem length_takeWhile_add_dropWhile (p : Char → Bool) (text : List Char) :
    (text.takeWhile p).length + (text.dropWhile p).length = text.length := by
  rw [← List.length_append, List.takeWhile_append_dropWhile]

/-- A mantissa takes characters, so that scanning goes on. -/
theorem length_lt_of_takeMantissa {text whole fraction rest : List Char}
    (h : takeMantissa text = some (whole, fraction, rest)) : rest.length < text.length := by
  have hlen := length_takeWhile_add_dropWhile isDigit text
  unfold takeMantissa at h
  simp only at h
  split at h
  · rename_i tail hd
    have htail := (List.dropWhile_suffix (l := tail) isDigit).length_le
    split at h
    · simp at h
    · simp only [Option.some.injEq, Prod.mk.injEq] at h
      obtain ⟨-, -, rfl⟩ := h
      rw [hd, List.length_cons] at hlen
      omega
  · split at h
    · simp at h
    · rename_i hw
      simp only [Option.some.injEq, Prod.mk.injEq] at h
      obtain ⟨-, -, rfl⟩ := h
      have : 0 < (text.takeWhile isDigit).length := by
        rw [List.length_pos_iff]
        simpa using hw
      omega

/-- A literal takes at least one character. -/
theorem length_lt_of_take? {text rest : List Char} {d : Decimal}
    (h : take? text = some (d, rest)) : rest.length < text.length := by
  simp only [take?, Option.bind_eq_bind, Option.bind_eq_some_iff, Option.some.injEq] at h
  obtain ⟨⟨whole, fraction, tail⟩, hm, hr⟩ := h
  simp only [Prod.mk.injEq] at hr
  obtain ⟨-, rfl⟩ := hr
  have h₁ := length_lt_of_takeMantissa hm
  have h₂ := length_takeSign_le text
  have h₃ := length_takeExponent_le tail
  omega

end Lindenmayer.Literal
