import Lindenmayer.Text.Printable

/-!
# Quoted texts

Diagnostics quote the text they complain about. Single quotes enclose it, or double quotes if it
holds a single quote and no double one. Backslashes, the enclosing quote and all unprintable
characters are escaped, so the quoted form stays on one line.
-/

namespace Lindenmayer.Text

/-- The quote that encloses a text. -/
def quoteMark (text : List Char) : Char :=
  if text.contains '\'' && !text.contains '"' then '"' else '\''

/-- A code point in exactly `width` lower-case hexadecimal digits, if it has no more. -/
def hexDigits (width code : Nat) : List Char :=
  let digits := Nat.toDigits 16 code
  List.replicate (width - digits.length) '0' ++ digits

/-- A character as it stands between two quotes. -/
def escapeChar (mark c : Char) : List Char :=
  if c == mark || c == '\\' then ['\\', c]
  else if c == '\n' then ['\\', 'n']
  else if c == '\r' then ['\\', 'r']
  else if c == '\t' then ['\\', 't']
  else if isPrintable c then [c]
  else if c.toNat < 0x100 then '\\' :: 'x' :: hexDigits 2 c.toNat
  else if c.toNat < 0x10000 then '\\' :: 'u' :: hexDigits 4 c.toNat
  else '\\' :: 'U' :: hexDigits 8 c.toNat

/-- A text between quotes, with escapes. -/
def quoted (text : List Char) : String :=
  let mark := quoteMark text
  String.ofList (mark :: text.flatMap (escapeChar mark) ++ [mark])

end Lindenmayer.Text
