import Lindenmayer.Grammar.Basic
import Lindenmayer.Production.Reader
import Lindenmayer.Text.Lines
import Lindenmayer.Text.WordChar

/-!
# Reading grammars

A grammar is read line by line. A comment begins with two slashes at the start of a line or after a
blank; two slashes inside a word are symbols. A line of the form `#name = value` is a setting, the
first other line is the axiom, and all further ones are productions, whose variables are checked.
The first line that cannot be read decides the error, which carries its number.
-/

namespace Lindenmayer.Grammar

open Text

/-- What is left of a line after the first character that begins or precedes a comment. -/
def stripInner : List Char → List Char
  | [] => []
  | c :: rest =>
    match isBlank c, rest with
    | true, '/' :: '/' :: _ => []
    | _, _ => c :: stripInner rest

/-- A line without its comment. -/
def stripComment (line : List Char) : List Char :=
  match line with
  | '/' :: '/' :: _ => []
  | _ => stripInner line

/-- Splits a setting into its name and the text of its value. The name begins with an ASCII letter
or an underscore, and points may stand in it. -/
def splitSetting? (line : List Char) : Option (List Char × List Char) :=
  match line with
  | '#' :: rest =>
    match dropBlanks rest with
    | c :: rest =>
      if c.isAlpha || c == '_' then
        let inName (c : Char) := isWordChar c || c == '.'
        match dropBlanks (rest.dropWhile inName) with
        | '=' :: value =>
          if value.isEmpty then none else some (c :: rest.takeWhile inName, value)
        | _ => none
      else none
    | [] => none
  | _ => none

/-- The pieces of a text between commas. -/
def splitCommas : List Char → List (List Char)
  | [] => [[]]
  | c :: rest => if c == ',' then [] :: splitCommas rest else consLine c (splitCommas rest)

/-- Reads the value of a setting: a constant, or constants in brackets. -/
def readSetting (text : List Char) : Except Error Setting := do
  let text := trim text
  if text.head? == some '[' && text.getLast? == some ']' then
    let inner := trim (text.drop 1).dropLast
    if inner.isEmpty then return .list []
    return .list (← (splitCommas inner).mapM fun value => readConstant (trim value))
  return .number (← readConstant text)

/-- What has been read so far. -/
structure Draft where
  initial : Option Word := none
  productions : List Production := []
  settings : Settings := []

/-- Reads a line without a comment, without blanks around it, and not empty. -/
def Draft.readLine (draft : Draft) (line : List Char) : Except Error Draft := do
  match splitSetting? line, draft.initial with
  | some (name, value), _ =>
    let value ← readSetting value
    return { draft with settings := draft.settings.set (String.ofList name) value }
  | none, none => return { draft with initial := some (← Word.parse line) }
  | none, some _ =>
    let production ← Production.parse line
    production.validate
    return { draft with productions := draft.productions ++ [production] }

/-- Reads lines, the first of which has the given number. -/
def Draft.readLines (draft : Draft) (number : Nat) : List (List Char) → Except Error Draft
  | [] => .ok draft
  | raw :: rest =>
    let line := trim (stripComment raw)
    if line.isEmpty then draft.readLines (number + 1) rest
    else
      match draft.readLine line with
      | .ok draft => draft.readLines (number + 1) rest
      | .error e => .error (.atLine number e)

/-- The grammar that has been read, which needs an axiom. -/
def Draft.finish (draft : Draft) : Except Error Grammar :=
  match draft.initial with
  | some initial =>
    .ok { initial, productions := draft.productions, settings := draft.settings }
  | none => .error (.grammar .missingAxiom)

/-- Reads a grammar. -/
def parse (text : List Char) : Except Error Grammar := do
  (← Draft.readLines {} 1 (Text.lines text)).finish

end Lindenmayer.Grammar
