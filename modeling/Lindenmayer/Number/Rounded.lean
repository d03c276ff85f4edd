import Lindenmayer.Number.Layout

/-!
# Rounded numbers

Rounding to a number of places or of significant digits starts from the exact expansion of a
value, so it rounds once; a half goes to the even neighbour.
-/

namespace Lindenmayer.Rounded

open Text

/-- The number of units `10 ^ exponent` nearest to an unsigned decimal. -/
def unitsAt (d : Decimal) (exponent : Int) : Nat :=
  if exponent ≤ d.exponent then d.units * Nat.pow 10 (d.exponent - exponent).toNat
  else nearestInteger d.units (Nat.pow 10 (exponent - d.exponent).toNat)

/-- A finite value rounded to the given number of places after the point. -/
def toPlaces (places : Nat) (x : Float) : Float :=
  let code := Binary64.code x
  let exponent := -Int.ofNat places
  if code < Binary64.infinity then
    Decimal.toFloat ⟨Binary64.isNegative x, unitsAt (Shortest.exact code) exponent, exponent⟩
  else x

/-- The text of a number with the given positive number of places after the point. -/
def placesText (places : Nat) (x : Float) : List Char :=
  Layout.signed .full x fun code =>
    let digits := natDigits (unitsAt (Shortest.exact code) (-Int.ofNat places))
    let padded := List.replicate (places + 1 - digits.length) '0' ++ digits
    padded.take (padded.length - places) ++ '.' :: padded.drop (padded.length - places)

/-- The text of a number with at most six significant digits. -/
def summaryText (x : Float) : List Char :=
  Layout.signed .summary x fun code =>
    if code = 0 then ['0']
    else
      let expansion := Shortest.exact code
      let exponent := expansion.exponent + (natDigits expansion.units).length - 6
      let rounded : Decimal := ⟨false, unitsAt expansion exponent, exponent⟩
      Layout.unsigned .summary rounded.trimZeros

end Lindenmayer.Rounded
