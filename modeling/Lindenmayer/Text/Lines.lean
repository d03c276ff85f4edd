/-!
# Lines

A text is cut at line breaks. A carriage return followed by a line feed is a single break, and a
break at the very end of the text opens no further line.
-/

namespace Lindenmayer.Text

/-- The characters that end a line: the vertical ones of ASCII, the three information separators,
next line, and the two separators of Unicode. -/
def isLineBreak (c : Char) : Bool :=
  let n := c.toNat
  (10 ≤ n && n ≤ 13) || (0x1C ≤ n && n ≤ 0x1E) || n == 0x85 || n == 0x2028 || n == 0x2029

/-- Puts a character in front of the first line. -/
def consLine (c : Char) : List (List Char) → List (List Char)
  | [] => [[c]]
  | line :: lines => (c :: line) :: lines

/-- The lines of a text, without their breaks. -/
def lines : List Char → List (List Char)
  | [] => []
  | '\r' :: '\n' :: rest => [] :: lines rest
  | c :: rest => if isLineBreak c then [] :: lines rest else consLine c (lines rest)

/-- Turns each carriage return, alone or before a line feed, into a line feed. -/
def unifyBreaks : List Char → List Char
  | [] => []
  | '\r' :: '\n' :: rest => '\n' :: unifyBreaks rest
  | c :: rest => (if c == '\r' then '\n' else c) :: unifyBreaks rest

/-- Splits an input after its first line feed; the first part keeps the line feed. -/
def takeLine : List Char → List Char × List Char
  | [] => ([], [])
  | c :: rest =>
    if c == '\n' then ([c], rest)
    else
      let (line, after) := takeLine rest
      (c :: line, after)

/-- The lines of an input, each with its line feed. -/
def inputLines : List Char → List (List Char)
  | [] => []
  | c :: rest => if c == '\n' then [c] :: inputLines rest else consLine c (inputLines rest)

end Lindenmayer.Text
