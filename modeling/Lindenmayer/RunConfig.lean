import Lindenmayer.GrammarFile

/-!
# Run configurations

A run configuration is a JSON object that says which grammar to grow, for how many generations, with
which seed, how far, and where the result goes. Its members are checked in a fixed order, and the
first one that is not as it should be decides the error. Paths are seen from a base directory.
-/

namespace Lindenmayer

/-- What to run. -/
structure RunConfig where
  name : String
  grammar : Grammar
  iterations : Nat
  seed : Option Int
  maxLength : Option Nat
  output : Option String

namespace RunConfig

open Host

/-! ## Members -/

/-- The members of an object. -/
def asObject (field : String) : Json → Except ConfigFault (List (String × Json))
  | .object members => .ok members
  | _ => .error (.notObject field)

/-- The text of a string. -/
def asString (field : String) : Json → Except ConfigFault String
  | .string s => .ok s
  | _ => .error (.notString field)

/-- The value of an integer. -/
def asInteger (field : String) : Json → Except ConfigFault Int
  | .integer i => .ok i
  | _ => .error (.notInteger field)

/-- A member that may be missing; a null counts as missing. -/
def optional {α : Type} (read : String → Json → Except ConfigFault α) (field : String)
    (members : List (String × Json)) : Except ConfigFault (Option α) :=
  match Json.member? members field with
  | none | some .null => .ok none
  | some value => some <$> read field value

/-- A member with a value that is taken if it is missing. -/
def withDefault {α : Type} (read : String → Json → Except ConfigFault α) (field : String)
    (default : α) (members : List (String × Json)) : Except ConfigFault α :=
  match Json.member? members field with
  | none => .ok default
  | some value => read field value

/-! ## The grammar -/

/-- Where the grammar comes from. -/
inductive GrammarSource where
  | text (text : List Char)
  | file (path : String)

/-- The lines of a grammar, the first of which has the given position. -/
def asLines (position : Nat) : List Json → Except ConfigFault (List String)
  | [] => .ok []
  | item :: rest => do
    let line ← asString s!"grammar[{position}]" item
    return line :: (← asLines (position + 1) rest)

/-- The text of a grammar: a string, or an array of lines. -/
def asGrammarText (field : String) : Json → Except ConfigFault String
  | .array items => "\n".intercalate <$> asLines 0 items
  | value => asString field value

/-- Where the grammar comes from; exactly one source must be given. -/
def grammarSource (members : List (String × Json)) : Except ConfigFault GrammarSource := do
  let given (field : String) : Option Json :=
    (Json.member? members field).filter fun
      | .null => false
      | _ => true
  match given "grammar", given "grammar_file" with
  | some value, none => return .text (← asGrammarText "grammar" value).toList
  | none, some value => return .file (← asString "grammar_file" value)
  | _, _ => throw .grammarSource

/-! ## The configuration -/

/-- A number of generations. -/
def asIterations (field : String) (value : Json) : Except ConfigFault Nat := do
  match ← asInteger field value with
  | .ofNat n => return n
  | .negSucc _ => throw .negativeIterations

/-- A bound on the length of words. -/
def asLengthBound (field : String) (value : Json) : Except ConfigFault Nat := do
  match ← asInteger field value with
  | .ofNat (n + 1) => return n + 1
  | _ => throw (.lengthBound field)

variable {m : Type → Type} [Monad m] [Host m]

/-- Goes on with a member or fails with what is wrong with it. -/
def orFault {α : Type} (result : Except ConfigFault α) : Attempt m α :=
  orFail (result.mapError .config)

/-- Reads the grammar from its source. -/
def readGrammar (base : String) : GrammarSource → Attempt m Grammar
  | .text text => GrammarFile.readText text
  | .file path => GrammarFile.load (Path.join base path)

/-- Reads a configuration whose paths are seen from the directory `base`. -/
def read (base : String) (value : Json) : Attempt m RunConfig := do
  let members ← orFault (asObject "root" value)
  let name ← orFault (withDefault asString "name" "L-System" members)
  let grammar ← readGrammar base (← orFault (grammarSource members))
  let iterations ← orFault (withDefault asIterations "iterations" 0 members)
  let seed ← orFault (optional asInteger "seed" members)
  let maxLength ← orFault (optional asLengthBound "max_length" members)
  let output ← orFault (optional asString "output" members)
  return { name, grammar, iterations, seed, maxLength, output := output.map (Path.join base) }

end RunConfig

end Lindenmayer
