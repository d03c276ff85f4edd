import Lindenmayer.Number.Nearest

/-!
# Decimals

A decimal is a sign, a natural number of units and a power of ten. Every number that is read goes
through a decimal, and `Decimal.toFloat` rounds it once, to the nearest binary64 value.
-/

namespace Lindenmayer

/-- The number `± units · 10 ^ exponent`. A negative zero keeps its sign. -/
structure Decimal where
  negative : Bool
  units : Nat
  exponent : Int
deriving DecidableEq, Repr

namespace Decimal

/-- The code of the magnitude nearest to a decimal. Powers of ten that are far too large or far too
small to matter are not worked out. -/
def code (d : Decimal) : Nat :=
  if d.units = 0 then 0
  else
    match d.exponent with
    | .ofNat e =>
      if 400 < e then Binary64.infinity
      else Binary64.nearestCode ((d.units * Nat.pow 10 e) <<< Binary64.unitPlaces) 1
    | .negSucc e =>
      if d.units.log2 + 400 < e then 0
      else Binary64.nearestCode (d.units <<< Binary64.unitPlaces) (Nat.pow 10 (e + 1))

/-- A decimal without places behind the point is rounded as a whole number of units. -/
theorem code_of_nonneg {negative : Bool} {units e : Nat} (h : units ≠ 0) (he : e ≤ 400) :
    code ⟨negative, units, .ofNat e⟩ =
      Binary64.nearestCode ((units * Nat.pow 10 e) <<< Binary64.unitPlaces) 1 := by
  simp [code, h, Nat.not_lt.2 he]

/-- A decimal with places behind the point is rounded as a fraction. -/
theorem code_of_neg {negative : Bool} {units e : Nat} (h : units ≠ 0)
    (he : e ≤ units.log2 + 400) :
    code ⟨negative, units, .negSucc e⟩ =
      Binary64.nearestCode (units <<< Binary64.unitPlaces) (Nat.pow 10 (e + 1)) := by
  simp [code, h, Nat.not_lt.2 he]

/-- The binary64 value nearest to a decimal; a half goes to the even neighbour, and what is too
large becomes an infinity. -/
def toFloat (d : Decimal) : Float :=
  Binary64.ofCode d.negative d.code

/-- The same number with as few digits as possible: the zeros at the end go into the exponent. -/
def trimZeros (d : Decimal) : Decimal :=
  if 0 < d.units ∧ d.units % 10 = 0 then
    trimZeros { d with units := d.units / 10, exponent := d.exponent + 1 }
  else d
termination_by d.units
decreasing_by omega

end Decimal

end Lindenmayer
