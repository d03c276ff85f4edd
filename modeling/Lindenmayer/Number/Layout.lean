import Lindenmayer.Number.Shortest

/-!
# The text of a number

A number is written with the fewest digits that read back. Where its decimal point falls decides
between positional notation and an exponent. Three styles differ in a few choices only: the full
style of diagnostics, the short style of formulas and grammars, and the summary style of six
significant digits.
-/

namespace Lindenmayer

open Text

/-- The choices that tell one way of writing numbers from another. -/
structure NumberStyle where
  /-- What follows the digits of a whole number in positional notation. -/
  wholeEnding : List Char
  /-- How an infinity is written, its sign apart. -/
  infinity : List Char
  /-- The largest number of digits before the point in positional notation. -/
  lastPoint : Int

namespace NumberStyle

/-- Whole numbers keep a point, and infinities are named. -/
def full : NumberStyle := ⟨['.', '0'], "inf".toList, 16⟩

/-- Whole numbers lose their point, and an infinity is written as a literal that overflows. -/
def short : NumberStyle := ⟨[], "1e999".toList, 16⟩

/-- Whole numbers lose their point, and an exponent replaces a seventh digit before the point. -/
def summary : NumberStyle := ⟨[], "inf".toList, 6⟩

end NumberStyle

namespace Layout

/-- An exponent: its sign and at least two digits. -/
def exponentText (exponent : Int) : List Char :=
  let digits := natDigits exponent.natAbs
  'e' :: (if exponent < 0 then '-' else '+') ::
    (if digits.length < 2 then '0' :: digits else digits)

/-- One digit, a point if more follow, and an exponent. -/
def scientific (digits : List Char) (exponent : Int) : List Char :=
  match digits with
  | [] => []
  | first :: [] => first :: exponentText exponent
  | first :: more => first :: '.' :: more ++ exponentText exponent

/-- Digits with a point after the first `point` of them; zeros fill the places in between. -/
def positional (style : NumberStyle) (digits : List Char) (point : Int) : List Char :=
  if point ≤ 0 then
    '0' :: '.' :: List.replicate point.natAbs '0' ++ digits
  else if digits.length ≤ point.toNat then
    digits ++ List.replicate (point.toNat - digits.length) '0' ++ style.wholeEnding
  else
    digits.take point.toNat ++ '.' :: digits.drop point.toNat

/-- The text of an unsigned decimal. -/
def unsigned (style : NumberStyle) (d : Decimal) : List Char :=
  let digits := natDigits d.units
  let point := d.exponent + digits.length
  if -4 < point ∧ point ≤ style.lastPoint then positional style digits point
  else scientific digits (point - 1)

/-- The text of a number, given that of its magnitude by `finite` if it is finite. Infinities and
NaN have words of their own, and NaN has no sign. -/
def signed (style : NumberStyle) (x : Float) (finite : Nat → List Char) : List Char :=
  let code := Binary64.code x
  if Binary64.infinity < code then "nan".toList
  else
    let text := if code = Binary64.infinity then style.infinity else finite code
    if Binary64.isNegative x then '-' :: text else text

end Layout

/-- The text of a number in a style that reads back. -/
def numberText (style : NumberStyle) (x : Float) : List Char :=
  Layout.signed style x fun code => Layout.unsigned style (Shortest.decimal code)

/-- The text of a number in formulas, elements and grammars. -/
def shortText (x : Float) : List Char :=
  numberText .short x

/-- The text of a number in diagnostics and summaries. -/
def fullText (x : Float) : List Char :=
  numberText .full x

end Lindenmayer
