import Lindenmayer.Json.Basic
import Lindenmayer.Number.Entry
import Lindenmayer.Text.Shorter

/-!
# Reading JSON

A JSON text is one value with blanks around it. Besides the values of the standard, `NaN` and the
two infinities are taken as reals. Strings hold no control characters, and the length of integers is
bounded. Where reading stops, the text left at that place tells where the fault is.
-/

namespace Lindenmayer.Json

open Text

/-- Why reading stopped, and how many characters were left at that place. -/
structure Stop where
  problem : Problem
  remaining : Nat

/-- The blanks of JSON. -/
def isBlank (c : Char) : Bool :=
  c == ' ' || c == '\t' || c == '\n' || c == '\r'

/-- What is left of a text once its leading blanks are gone. -/
def dropBlanks (text : List Char) : List Char :=
  text.dropWhile isBlank

theorem length_dropBlanks_le (text : List Char) : (dropBlanks text).length ≤ text.length :=
  (List.dropWhile_suffix isBlank).length_le

/-! ## Strings -/

/-- The value of a hexadecimal digit. -/
def hexValue? (c : Char) : Option Nat :=
  if '0' ≤ c ∧ c ≤ '9' then some (c.toNat - '0'.toNat)
  else if 'a' ≤ c ∧ c ≤ 'f' then some (c.toNat - 'a'.toNat + 10)
  else if 'A' ≤ c ∧ c ≤ 'F' then some (c.toNat - 'A'.toNat + 10)
  else none

/-- The value of four hexadecimal digits. -/
def hexValue4? (a b c d : Char) : Option Nat := do
  return (((← hexValue? a) * 16 + (← hexValue? b)) * 16 + (← hexValue? c)) * 16 + (← hexValue? d)

/-- The character of an escape with a single letter. -/
def escaped? : Char → Option Char
  | '"' => some '"'
  | '\\' => some '\\'
  | '/' => some '/'
  | 'b' => some '\x08'
  | 'f' => some '\x0c'
  | 'n' => some '\n'
  | 'r' => some '\r'
  | 't' => some '\t'
  | _ => none

/-- Whether a code unit is the first of a pair. -/
def isHighSurrogate (code : Nat) : Bool :=
  0xD800 ≤ code && code < 0xDC00

/-- Whether a code unit is the second of a pair. -/
def isLowSurrogate (code : Nat) : Bool :=
  0xDC00 ≤ code && code < 0xE000

/-- The character of a code unit; a surrogate alone is replaced. -/
def unitChar (code : Nat) : Char :=
  if 0xD800 ≤ code ∧ code < 0xE000 then '\uFFFD' else Char.ofNat code

/-- The character of a pair of code units. -/
def pairChar (high low : Nat) : Char :=
  Char.ofNat (0x10000 + (high - 0xD800) * 0x400 + (low - 0xDC00))

/-- Reads an escape of the second code unit of a pair, if there is one. Something must follow the
digits, if only the closing quote. -/
def lowSurrogate? (text : List Char) : Except Stop (Option (Nat × Shorter text)) :=
  match text with
  | '\\' :: 'u' :: a :: b :: c :: d :: e :: rest =>
    match hexValue4? a b c d with
    | none => .error ⟨.invalidUnicodeEscape, rest.length + 6⟩
    | some code =>
      if isLowSurrogate code then
        .ok (some (code, ⟨e :: rest, by simp only [List.length_cons]; omega⟩))
      else .ok none
  | _ => .ok none

/-- Reads the character of a `\u` escape, given the text after the `u`. The escapes of a pair make
one character. Something must follow the digits, if only the closing quote. -/
def unicodeEscape (text : List Char) : Except Stop (Char × Shorter text) :=
  match text with
  | a :: b :: c :: d :: e :: rest =>
    match hexValue4? a b c d with
    | none => .error ⟨.invalidUnicodeEscape, rest.length + 6⟩
    | some code =>
      if isHighSurrogate code then
        match lowSurrogate? (e :: rest) with
        | .error stop => .error stop
        | .ok (some (low, ⟨after, hafter⟩)) =>
          .ok (pairChar code low, ⟨after, by simp only [List.length_cons] at *; omega⟩)
        | .ok none =>
          .ok (unitChar code, ⟨e :: rest, by simp only [List.length_cons]; omega⟩)
      else .ok (unitChar code, ⟨e :: rest, by simp only [List.length_cons]; omega⟩)
  | _ => .error ⟨.invalidUnicodeEscape, text.length + 1⟩

/-- Reads a string after its opening quote; `opening` is the number of characters from the quote on,
and `done` holds the characters read so far, latest first. -/
def stringFrom (opening : Nat) (done : List Char) (text : List Char) :
    Except Stop (String × Shorter text) :=
  match text with
  | [] => .error ⟨.unterminatedString, opening⟩
  | '"' :: rest => .ok (String.ofList done.reverse, ⟨rest, by simp⟩)
  | '\\' :: [] => .error ⟨.unterminatedString, opening⟩
  | '\\' :: 'u' :: rest =>
    match unicodeEscape rest with
    | .error stop => .error stop
    | .ok (c, ⟨after, hafter⟩) =>
      match stringFrom opening (c :: done) after with
      | .error stop => .error stop
      | .ok (s, ⟨last, hlast⟩) => .ok (s, ⟨last, by simp only [List.length_cons]; omega⟩)
  | '\\' :: c :: rest =>
    match escaped? c with
    | none => .error ⟨.invalidEscape, rest.length + 2⟩
    | some c =>
      match stringFrom opening (c :: done) rest with
      | .error stop => .error stop
      | .ok (s, ⟨last, hlast⟩) => .ok (s, ⟨last, by simp only [List.length_cons]; omega⟩)
  | c :: rest =>
    if c.toNat < 0x20 then .error ⟨.controlCharacter, rest.length + 1⟩
    else
      match stringFrom opening (c :: done) rest with
      | .error stop => .error stop
      | .ok (s, ⟨last, hlast⟩) => .ok (s, ⟨last, by simp only [List.length_cons]; omega⟩)
termination_by text.length

/-! ## Numbers -/

/-- Takes the digits of a fraction, if there is one. -/
def takeFraction (text : List Char) : List Char × List Char :=
  match text with
  | '.' :: rest =>
    let digits := rest.takeWhile Char.isDigit
    if digits.isEmpty then ([], text) else (digits, rest.dropWhile Char.isDigit)
  | _ => ([], text)

/-- Takes an exponent if a complete one is there. -/
def takeExponent (text : List Char) : Int × List Char :=
  match text with
  | [] => (0, [])
  | c :: rest =>
    if c == 'e' || c == 'E' then
      let (negative, rest) := Literal.takeSign rest
      let digits := rest.takeWhile Char.isDigit
      if digits.isEmpty then (0, text)
      else
        let magnitude := Int.ofNat (digitsValue digits)
        (if negative then -magnitude else magnitude, rest.dropWhile Char.isDigit)
    else (0, text)

/-- Takes a number off the front of a text. A leading zero stands alone. -/
def takeNumber? (text : List Char) : Option (Json × List Char) :=
  let (negative, unsigned) := match text with
    | '-' :: rest => (true, rest)
    | _ => (false, text)
  let whole := match unsigned with
    | '0' :: _ => ['0']
    | _ => unsigned.takeWhile Char.isDigit
  if whole.isEmpty then none
  else
    let afterWhole := unsigned.drop whole.length
    let (fraction, afterFraction) := takeFraction afterWhole
    let (exponent, rest) := takeExponent afterFraction
    if fraction.isEmpty && rest.length == afterWhole.length then
      let magnitude := Int.ofNat (digitsValue whole)
      some (integer (if negative then -magnitude else magnitude), rest)
    else
      let d : Decimal := ⟨negative, digitsValue (whole ++ fraction), exponent - fraction.length⟩
      some (real d.toFloat, rest)

/-- Takes a value that is not a string, an array or an object. -/
def takeScalar? : List Char → Option (Json × List Char)
  | 'n' :: 'u' :: 'l' :: 'l' :: rest => some (null, rest)
  | 't' :: 'r' :: 'u' :: 'e' :: rest => some (bool true, rest)
  | 'f' :: 'a' :: 'l' :: 's' :: 'e' :: rest => some (bool false, rest)
  | 'N' :: 'a' :: 'N' :: rest => some (real (0.0 / 0.0), rest)
  | 'I' :: 'n' :: 'f' :: 'i' :: 'n' :: 'i' :: 't' :: 'y' :: rest =>
    some (real (Binary64.ofCode false Binary64.infinity), rest)
  | '-' :: 'I' :: 'n' :: 'f' :: 'i' :: 'n' :: 'i' :: 't' :: 'y' :: rest =>
    some (real (Binary64.ofCode true Binary64.infinity), rest)
  | text => takeNumber? text

/-- The number of digits of a value that was read from `length` characters, if it is an integer with
more digits than are read. -/
def excessDigits? (v : Json) (length : Nat) : Option Nat :=
  match v with
  | integer i =>
    let digits := if i < 0 then length - 1 else length
    if Entry.maxIntegerDigits < digits then some digits else none
  | _ => none

/-! ## Values -/

mutual

/-- Reads a value at the front of a text. -/
def value (text : List Char) : Except Stop (Json × Shorter text) :=
  match text with
  | '"' :: rest =>
    match stringFrom (rest.length + 1) [] rest with
    | .error stop => .error stop
    | .ok (s, ⟨after, hafter⟩) =>
      .ok (string s, ⟨after, by simp only [List.length_cons]; omega⟩)
  | '[' :: rest =>
    have hrest := length_dropBlanks_le rest
    match hitems : dropBlanks rest with
    | ']' :: after => .ok (array [], ⟨after, by
        simp only [hitems, List.length_cons] at *; omega⟩)
    | first =>
      match items [] first with
      | .error stop => .error stop
      | .ok (v, ⟨after, hafter⟩) => .ok (v, ⟨after, by
          simp only [hitems, List.length_cons] at *; omega⟩)
  | '\x7b' :: rest =>
    have hrest := length_dropBlanks_le rest
    match hmembers : dropBlanks rest with
    | '\x7d' :: after => .ok (object [], ⟨after, by
        simp only [hmembers, List.length_cons] at *; omega⟩)
    | first =>
      match members [] first with
      | .error stop => .error stop
      | .ok (v, ⟨after, hafter⟩) => .ok (v, ⟨after, by
          simp only [hmembers, List.length_cons] at *; omega⟩)
  | text =>
    match takeScalar? text with
    | some (v, after) =>
      if h : after.length < text.length then
        match excessDigits? v (text.length - after.length) with
        | none => .ok (v, ⟨after, h⟩)
        | some digits => .error ⟨.integerLength digits, text.length⟩
      else .error ⟨.expectingValue, text.length⟩
    | none => .error ⟨.expectingValue, text.length⟩
termination_by (text.length, 0)

/-- Reads the items of an array up to its end; `done` holds those read so far, latest first. -/
def items (done : List Json) (text : List Char) : Except Stop (Json × Shorter text) :=
  match value text with
  | .error stop => .error stop
  | .ok (item, ⟨after, hafter⟩) =>
    have hblanks := length_dropBlanks_le after
    match hnext : dropBlanks after with
    | ']' :: rest => .ok (array (item :: done).reverse, ⟨rest, by
        simp only [hnext, List.length_cons] at hblanks; omega⟩)
    | ',' :: rest =>
      have hrest := length_dropBlanks_le rest
      have : (dropBlanks rest).length < text.length := by
        simp only [hnext, List.length_cons] at hblanks; omega
      match items (item :: done) (dropBlanks rest) with
      | .error stop => .error stop
      | .ok (v, ⟨last, hlast⟩) => .ok (v, ⟨last, by omega⟩)
    | rest => .error ⟨.expectingComma, rest.length⟩
termination_by (text.length, 1)

/-- Reads the members of an object up to its end; `done` holds those read so far, latest first. -/
def members (done : List (String × Json)) (text : List Char) :
    Except Stop (Json × Shorter text) :=
  match text with
  | '"' :: start =>
    match stringFrom (start.length + 1) [] start with
    | .error stop => .error stop
    | .ok (name, ⟨afterName, hname⟩) =>
      have hblanks := length_dropBlanks_le afterName
      match hcolon : dropBlanks afterName with
      | ':' :: rest =>
        have hrest := length_dropBlanks_le rest
        have : (dropBlanks rest).length < start.length + 1 := by
          simp only [hcolon, List.length_cons] at hblanks; omega
        match value (dropBlanks rest) with
        | .error stop => .error stop
        | .ok (member, ⟨after, hafter⟩) =>
          have hblanks' := length_dropBlanks_le after
          match hnext : dropBlanks after with
          | '\x7d' :: rest' => .ok (object ((name, member) :: done).reverse, ⟨rest', by
              simp only [hnext, List.length_cons] at *; omega⟩)
          | ',' :: rest' =>
            have hrest' := length_dropBlanks_le rest'
            have : (dropBlanks rest').length < start.length + 1 := by
              simp only [hnext, List.length_cons] at hblanks'; omega
            match members ((name, member) :: done) (dropBlanks rest') with
            | .error stop => .error stop
            | .ok (v, ⟨last, hlast⟩) => .ok (v, ⟨last, by
                simp only [List.length_cons] at *; omega⟩)
          | rest' => .error ⟨.expectingComma, rest'.length⟩
      | rest => .error ⟨.expectingColon, rest.length⟩
  | _ => .error ⟨.expectingName, text.length⟩
termination_by (text.length, 1)

end

/-- Reads the value that a text consists of. -/
def parse (text : List Char) : Except Fault Json :=
  let fault (problem : Problem) (remaining : Nat) :=
    Fault.ofPosition problem text (text.length - remaining)
  if text.head? == some '\uFEFF' then .error (fault .byteOrderMark text.length)
  else
    match value (dropBlanks text) with
    | .error stop => .error (fault stop.problem stop.remaining)
    | .ok (v, ⟨after, _⟩) =>
      match dropBlanks after with
      | [] => .ok v
      | rest => .error (fault .extraData rest.length)

end Lindenmayer.Json
