/-!
# Blank characters

The characters that separate the parts of a text: the white space of Unicode together with the
four separators U+001C to U+001F. Formulas, elements and grammar lines all skip the same class.
-/

namespace Lindenmayer.Text

/-- A blank is a white-space character of Unicode or one of the separators U+001C to U+001F. -/
def isBlank (c : Char) : Bool :=
  let n := c.toNat
  (9 ≤ n && n ≤ 13) || (28 ≤ n && n ≤ 32) || n == 0x85 || n == 0xA0 || n == 0x1680 ||
    (0x2000 ≤ n && n ≤ 0x200A) || n == 0x2028 || n == 0x2029 || n == 0x202F || n == 0x205F ||
    n == 0x3000

/-- What is left of a text once its leading blanks are gone. -/
def dropBlanks (text : List Char) : List Char :=
  text.dropWhile isBlank

/-- A text without its leading and trailing blanks. -/
def trim (text : List Char) : List Char :=
  (dropBlanks (dropBlanks text).reverse).reverse

@[simp]
theorem dropBlanks_nil : dropBlanks [] = [] := rfl

/-- A blank in front is dropped. -/
theorem dropBlanks_cons_of_blank {c : Char} (h : isBlank c) (text : List Char) :
    dropBlanks (c :: text) = dropBlanks text := by
  simp [dropBlanks, h]

/-- Nothing is dropped in front of another character. -/
theorem dropBlanks_cons_of_not_blank {c : Char} (h : ¬isBlank c) (text : List Char) :
    dropBlanks (c :: text) = c :: text := by
  simp [dropBlanks, h]

/-- Dropping blanks makes no text longer. -/
theorem length_dropBlanks_le (text : List Char) : (dropBlanks text).length ≤ text.length :=
  (List.dropWhile_suffix isBlank).length_le

end Lindenmayer.Text
