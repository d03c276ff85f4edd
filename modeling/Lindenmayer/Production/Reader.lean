import Lindenmayer.Element.Scanner
import Lindenmayer.Expr.Parser
import Lindenmayer.Number.Entry
import Lindenmayer.Production.Basic

/-!
# Reading axioms and productions

A production is written `left < predecessor > right : condition ~ probability = successor`, where
everything but the predecessor and the separator may be missing. The separator is the first equals
sign outside parentheses; inside the condition, the signs of the comparisons `==`, `>=` and `<=` do
not count.
-/

namespace Lindenmayer

open Text

/-- The value of a formula without variables. -/
def readConstant (text : List Char) : Except Error Float := do
  (← Expr.parse text).evaluate []

/-- Reads a word with at least one element. -/
def Word.parse (text : List Char) : Except Error Word := do
  let word ← Element.scan readConstant text
  if word.isEmpty then throw (.grammar .emptyAxiom)
  return word

namespace Production

/-- Splits a line at the separator, which is left out. `depth` is the number of parentheses that
are open, and `inCondition` tells whether comparisons may occur. -/
def splitAtSeparator (depth : Int) (inCondition : Bool) :
    List Char → Option (List Char × List Char)
  | [] => none
  | c :: rest =>
    let skip (depth : Int) (inCondition : Bool) :=
      (splitAtSeparator depth inCondition rest).map fun (head, body) => (c :: head, body)
    if c == '(' then skip (depth + 1) inCondition
    else if c == ')' then skip (depth - 1) inCondition
    else if depth != 0 then skip depth inCondition
    else if c == ':' then skip depth true
    else if c == '~' then skip depth false
    else
      let comparison := inCondition && (c == '=' || c == '<' || c == '>')
      match comparison, rest with
      | true, '=' :: after =>
        (splitAtSeparator depth inCondition after).map fun (head, body) => (c :: '=' :: head, body)
      | _, _ => if c == '=' then some ([], rest) else skip depth inCondition

/-- The texts before and after the first occurrence of a character. -/
def splitFirst? (c : Char) (text : List Char) : Option (List Char × List Char) :=
  match text.dropWhile (· != c) with
  | [] => none
  | _ :: after => some (text.takeWhile (· != c), after)

/-- The texts before and after the last occurrence of a character. -/
def splitLast? (c : Char) (text : List Char) : Option (List Char × List Char) :=
  (splitFirst? c text.reverse).map fun (after, before) => (before.reverse, after.reverse)

/-- Reads the name of a formal parameter. -/
def readFormalName (text : List Char) : Except Error String :=
  let name := String.ofList text
  if isFormalName name then .ok name else .error (.grammar (.formalName text))

/-- Reads a predecessor or a context: exactly one element. -/
def readFormal (text : List Char) : Except Error (Element String) := do
  match ← Element.scan readFormalName text with
  | [e] => return e
  | _ => throw (.grammar (.notOneElement (trim text)))

/-- Reads a successor, which may be empty. -/
def readSuccessor (text : List Char) : Except Error (List (Element Expr)) :=
  Element.scan Expr.parse text

/-- Takes the probability off the end of a head; it is 1 if none is written. -/
def readProbability (head : List Char) : Except Error (List Char × Float) :=
  match splitLast? '~' head with
  | none => .ok (head, 1.0)
  | some (before, text) =>
    match Entry.float? (trim text) with
    | some probability => .ok (before, probability)
    | none => .error (.grammar (.probabilityText (trim text)))

/-- Takes the condition off the end of a head. -/
def readCondition (head : List Char) : Except Error (List Char × Option Expr) :=
  match splitFirst? ':' head with
  | none => .ok (head, none)
  | some (before, text) => (Expr.parse text).map fun condition => (before, some condition)

/-- Takes the left context off the front of a head. -/
def readLeft (head : List Char) : Except Error (List Char × Option (Element String)) :=
  match Element.splitOutside '<' 0 head with
  | [left, rest] => (readFormal left).map fun context => (rest, some context)
  | [rest] => .ok (rest, none)
  | _ => .error (.grammar (.severalLeftContexts (trim head)))

/-- Takes the right context off the end of what follows the left context; `head` is the whole
head, for the report. -/
def readRight (head text : List Char) : Except Error (List Char × Option (Element String)) :=
  match Element.splitOutside '>' 0 text with
  | [rest, right] => (readFormal right).map fun context => (rest, some context)
  | [rest] => .ok (rest, none)
  | _ => .error (.grammar (.severalRightContexts (trim head)))

/-- Reads a production. Its variables are not checked. -/
def parse (line : List Char) : Except Error Production := do
  let some (head, body) := splitAtSeparator 0 false line
    | throw (.grammar (.missingSeparator (trim line)))
  let (head, probability) ← readProbability head
  let (head, condition) ← readCondition head
  let (middle, left) ← readLeft head
  let (middle, right) ← readRight head middle
  let predecessor ← readFormal middle
  let successor ← readSuccessor body
  ofParts { predecessor, successor, condition, probability, left, right }

end Production

end Lindenmayer
