/-!
# JSON values

The values of a run configuration, and what can be wrong with their text. A number without a
fraction and without an exponent is an integer, of any size; all other numbers are reals.
-/

namespace Lindenmayer

/-- A JSON value. The members of an object stay in the order in which they were written. -/
inductive Json where
  | null
  | bool (value : Bool)
  | integer (value : Int)
  | real (value : Float)
  | string (value : String)
  | array (items : List Json)
  | object (members : List (String × Json))

namespace Json

/-- The value of the last member with the given name. -/
def member? (members : List (String × Json)) (name : String) : Option Json :=
  members.reverse.lookup name

/-- What can be wrong with a JSON text. -/
inductive Problem where
  | expectingValue
  | expectingName
  | expectingColon
  | expectingComma
  | unterminatedString
  | controlCharacter
  | invalidEscape
  | invalidUnicodeEscape
  | extraData
  | byteOrderMark
  /-- An integer has more digits than are read. -/
  | integerLength (digits : Nat)
deriving DecidableEq, Repr

/-- The wording of a problem. -/
def Problem.message : Problem → String
  | expectingValue => "Expecting value"
  | expectingName => "Expecting property name enclosed in double quotes"
  | expectingColon => "Expecting ':' delimiter"
  | expectingComma => "Expecting ',' delimiter"
  | unterminatedString => "Unterminated string starting at"
  | controlCharacter => "Invalid control character at"
  | invalidEscape => "Invalid \\escape"
  | invalidUnicodeEscape => "Invalid \\uXXXX escape"
  | extraData => "Extra data"
  | byteOrderMark => "Unexpected UTF-8 BOM (decode using utf-8-sig)"
  | integerLength digits =>
    s!"Exceeds the limit (4300 digits) for integer string conversion: value has {digits} " ++
      "digits; use sys.set_int_max_str_digits() to increase the limit"

/-- A problem and its place: the characters before it, and its line and column from one. -/
structure Fault where
  problem : Problem
  position : Nat
  line : Nat
  column : Nat
deriving DecidableEq, Repr

/-- The fault of a problem after the first `position` characters of a text. -/
def Fault.ofPosition (problem : Problem) (text : List Char) (position : Nat) : Fault :=
  let before := text.take position
  { problem, position
    line := before.count '\n' + 1
    column := (before.reverse.takeWhile (· != '\n')).length + 1 }

/-- The wording of a fault. -/
def Fault.message (fault : Fault) : String :=
  let problem := fault.problem.message
  s!"{problem}: line {fault.line} column {fault.column} (char {fault.position})"

end Json

end Lindenmayer
