import Lindenmayer.Production.Basic

/-!
# Grammars

A grammar is an axiom, productions in the order of their declaration, and settings for whoever
draws the words. Its text is the settings, the axiom and the productions, one to a line.
-/

namespace Lindenmayer

/-- The value of a setting. -/
inductive Setting where
  | number (value : Float)
  | list (values : List Float)
deriving DecidableEq

/-- The settings of a grammar. A name that is set again keeps its place. -/
abbrev Settings := List (String × Setting)

/-- Sets a name, at its old place if it has one and at the end otherwise. -/
def Settings.set (name : String) (value : Setting) : Settings → Settings
  | [] => [(name, value)]
  | (other, old) :: rest =>
    if other == name then (name, value) :: rest else (other, old) :: Settings.set name value rest

/-- Numbers in brackets, separated by commas. -/
def bracketed (write : Float → List Char) (values : List Float) : List Char :=
  '[' :: [',', ' '].intercalate (values.map write) ++ [']']

/-- The text of a setting, given the text of a number. -/
def Setting.text (write : Float → List Char) : Setting → List Char
  | number value => write value
  | list values => bracketed write values

/-- A grammar. -/
structure Grammar where
  initial : Word
  productions : List Production := []
  settings : Settings := []
deriving DecidableEq

namespace Grammar

/-- The line of a setting. -/
def settingLine (name : String) (value : Setting) : List Char :=
  '#' :: name.toList ++ [' ', '=', ' '] ++ value.text shortText

/-- The lines of a grammar. -/
def lines (g : Grammar) : List (List Char) :=
  g.settings.map (fun (name, value) => settingLine name value) ++
    g.initial.text :: g.productions.map (·.text)

/-- The text of a grammar; a line feed ends each line. -/
def text (g : Grammar) : List Char :=
  g.lines.flatMap (· ++ ['\n'])

end Grammar

end Lindenmayer
