import Lindenmayer.Number.Literal
import Lindenmayer.Text.Blank

/-!
# Numbers as people enter them

Probabilities and the numbers of the command line are read more freely than the literals of
formulas: an underscore may stand between two digits, and an infinity or NaN may be named.
-/

namespace Lindenmayer.Entry

open Text

/-- Removes the underscores of a text, each of which must stand between two digits. The digit
before, if there is one, is known from `afterDigit`. -/
def dropUnderscores (afterDigit : Bool) : List Char → Option (List Char)
  | [] => some []
  | '_' :: c :: rest =>
    if afterDigit && isDigit c then (dropUnderscores true rest).map (c :: ·) else none
  | c :: rest =>
    if c == '_' then none else (dropUnderscores (isDigit c) rest).map (c :: ·)

/-- The values that have names, written in any case; NaN has no sign. -/
def named? (negative : Bool) (text : List Char) : Option Float :=
  let lower := text.map Char.toLower
  if lower = "inf".toList || lower = "infinity".toList then
    some (Binary64.ofCode negative Binary64.infinity)
  else if lower = "nan".toList then some (0.0 / 0.0)
  else none

/-- Reads a number that fills the whole text. -/
def float? (text : List Char) : Option Float :=
  let (negative, unsigned) := Literal.takeSign text
  match named? negative unsigned with
  | some x => some x
  | none => do
    let (d, rest) ← Literal.take? (← dropUnderscores false text)
    if rest.isEmpty then some d.toFloat else none

/-- The longest run of digits that is read as an integer. -/
def maxIntegerDigits : Nat := 4300

/-- The blanks that may surround an integer: all but the four separators. -/
def isMargin (c : Char) : Bool :=
  isBlank c && !(28 ≤ c.toNat && c.toNat ≤ 31)

/-- Reads an integer that fills the whole text, its margins apart. -/
def int? (text : List Char) : Option Int := do
  let trimmed := ((text.dropWhile isMargin).reverse.dropWhile isMargin).reverse
  let (negative, unsigned) := Literal.takeSign trimmed
  let digits ← dropUnderscores false unsigned
  if !digits.isEmpty && digits.all isDigit && digits.length ≤ maxIntegerDigits then
    let magnitude := Int.ofNat (digitsValue digits)
    some (if negative then -magnitude else magnitude)
  else none

end Lindenmayer.Entry
