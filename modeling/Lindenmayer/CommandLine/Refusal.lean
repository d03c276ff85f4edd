import Lindenmayer.Text.Quoted

/-!
# Refused command lines

What can be wrong with the arguments of a program, and how it is worded. An option is known by all
its names, an operand by a single one.
-/

namespace Lindenmayer.CommandLine

open Text

/-- What is wrong with arguments. -/
inductive Refusal where
  /-- An abbreviation stands for several options. -/
  | ambiguous (argument : String) (names : List String)
  /-- An option is not followed by its value. -/
  | missingValue (option : List String)
  /-- An option that takes no value is given one. -/
  | needlessValue (option : List String) (value : String)
  /-- The value of an option is not an integer. -/
  | notInteger (option : List String) (value : String)
  /-- An operand is none of the values it may have. -/
  | notChoice (operand value : String) (choices : List String)
  /-- A required operand is missing. -/
  | missingOperand (operand : String)
  /-- Arguments that mean nothing. -/
  | unrecognized (arguments : List String)
deriving DecidableEq, Repr

/-- All names of an option. -/
def optionText (names : List String) : String :=
  "/".intercalate names

/-- The wording of a refusal. -/
def Refusal.message : Refusal → String
  | ambiguous argument names =>
    "ambiguous option: " ++ argument ++ " could match " ++ ", ".intercalate names
  | missingValue option => "argument " ++ optionText option ++ ": expected one argument"
  | needlessValue option value =>
    "argument " ++ optionText option ++ ": ignored explicit argument " ++ quoted value.toList
  | notInteger option value =>
    "argument " ++ optionText option ++ ": invalid int value: " ++ quoted value.toList
  | notChoice operand value choices =>
    let listed := ", ".intercalate (choices.map fun choice => quoted choice.toList)
    "argument " ++ operand ++ ": invalid choice: " ++ quoted value.toList ++
      s!" (choose from {listed})"
  | missingOperand operand => "the following arguments are required: " ++ operand
  | unrecognized arguments => "unrecognized arguments: " ++ " ".intercalate arguments

/-- Why the arguments of a program lead to no request. -/
inductive Halt where
  | refused (program : String) (refusal : Refusal)
  | help (program : String)
deriving DecidableEq, Repr

end Lindenmayer.CommandLine
