import Lindenmayer.Json.Basic
import Lindenmayer.Number.Layout
import Lindenmayer.Text.Quoted
import Lindenmayer.Text.Utf8

/-!
# Errors

Everything that can go wrong is a cause with the facts its report needs; the wording of all causes
is in one place, `Error.message`. An error met while a grammar line is read is wrapped with the
number of the line and keeps its kind.
-/

namespace Lindenmayer

open Text

/-- Why a text is not a formula. -/
inductive FormulaFault where
  /-- The text ends where a term should begin. -/
  | missingTerm
  /-- A parenthesis is not closed. -/
  | missingClose
  /-- A character that cannot stand where it does. -/
  | unexpected (c : Char)
deriving DecidableEq, Repr

/-- Why a text is not a grammar, or the parts of a production do not make one. -/
inductive GrammarFault where
  | unexpectedSymbol (symbol : Char) (text : List Char)
  | unclosedGroup (symbol : Char)
  | emptyParameter (symbol : Char) (group : List Char)
  | symbolLength (symbol : List Char)
  | formalName (name : List Char)
  | repeatedFormals (production : List Char)
  | probabilityRange (probability : Float)
  | probabilityText (text : List Char)
  | emptyAxiom
  | notOneElement (text : List Char)
  | missingSeparator (line : List Char)
  | severalLeftContexts (head : List Char)
  | severalRightContexts (head : List Char)
  | missingAxiom
  | undecodable (path : String) (fault : Utf8.Fault)
deriving DecidableEq, Repr

/-- Why a run cannot be set up. -/
inductive ConfigFault where
  | notInteger (field : String)
  | notString (field : String)
  | notObject (field : String)
  | grammarSource
  | negativeIterations
  | lengthBound (field : String)
  | invalidJson (path : String) (fault : Json.Fault)
  | undecodable (path : String) (fault : Utf8.Fault)
  | noGrammars (directory : String)
  | notGrammarNumber (answer : List Char)
  | grammarNumberRange (count : Nat)
  | grammarAndDirectory
deriving DecidableEq, Repr

/-- A request that no state of the library can meet. -/
inductive Misuse where
  /-- Both a source of draws and a seed were given. -/
  | sourceAndSeed
  /-- A negative number of steps. -/
  | negativeSteps (steps : Int)
  /-- A number of generations outside the range that can be counted. -/
  | generationRange
  /-- A file name with a null character. -/
  | nullInPath
  /-- A number whose text is too long to be read. -/
  | integerLength (digits : Nat)
  /-- A number of generations was asked for and left blank. -/
  | blankIterations
  /-- A bound on the length of words was asked for and left blank. -/
  | blankLengthBound
  /-- A directory was asked for and left blank. -/
  | blankDirectory
  /-- A seed was asked for and left blank. -/
  | blankSeed
deriving DecidableEq, Repr

/-- What can go wrong. -/
inductive Error where
  | formula (fault : FormulaFault) (column : Nat) (text : List Char)
  | unbound (name : String)
  | unboundIn (production : List Char) (names : List String)
  | capacity (count : Nat)
  | grammar (fault : GrammarFault)
  | config (fault : ConfigFault)
  | misuse (fault : Misuse)
  | elementIndex
  | atLine (line : Nat) (error : Error)
deriving DecidableEq, Repr

/-- The kinds of errors that a caller may want to tell apart. -/
inductive ErrorKind where
  | formula
  | unbound
  | capacity
  | grammar
  | config
  | value
  | blank
  | index
deriving DecidableEq, Repr

/-- The kind of a misuse. -/
def Misuse.kind : Misuse → ErrorKind
  | blankIterations | blankLengthBound | blankDirectory | blankSeed => .blank
  | _ => .value

/-- The kind of an error; the line number in front of it does not matter. -/
def Error.kind : Error → ErrorKind
  | formula .. => .formula
  | unbound .. | unboundIn .. => .unbound
  | capacity .. => .capacity
  | grammar .. => .grammar
  | config .. => .config
  | misuse fault => fault.kind
  | elementIndex => .index
  | atLine _ error => error.kind

/-- Whether an error is about the system: its formulas, grammar or configuration. -/
def ErrorKind.isSystem : ErrorKind → Bool
  | value | blank | index => false
  | _ => true

/-- The error for a fault in the JSON text of a file. A number that is too long is no fault of the
configuration. -/
def Error.ofJson (path : String) (fault : Json.Fault) : Error :=
  match fault.problem with
  | .integerLength digits => .misuse (.integerLength digits)
  | _ => .config (.invalidJson path fault)

/-! ## Wording -/

/-- The wording of a fault in a formula. -/
def FormulaFault.message : FormulaFault → String
  | missingTerm => "expected a term but reached the end"
  | missingClose => "expected ')'"
  | unexpected c => "unexpected " ++ quoted [c]

/-- The wording of a fault in a grammar. -/
def GrammarFault.message : GrammarFault → String
  | unexpectedSymbol symbol text => "unexpected " ++ quoted [symbol] ++ " in " ++ quoted text
  | unclosedGroup symbol => "unbalanced parentheses after " ++ quoted [symbol]
  | emptyParameter symbol group =>
    "empty parameter in " ++ String.ofList (symbol :: '(' :: group ++ [')'])
  | symbolLength symbol => "symbol must be a single character, got " ++ quoted symbol
  | formalName name => "formal parameter must be a single letter, got " ++ quoted name
  | repeatedFormals production =>
    "formal parameter names must be distinct in '" ++ String.ofList production ++ "'"
  | probabilityRange p =>
    "probability must be within [0, 1], got " ++ String.ofList (fullText p)
  | probabilityText text => "invalid probability " ++ quoted text
  | emptyAxiom => "axiom must be non-empty"
  | notOneElement text => "expected exactly one element, got " ++ quoted text
  | missingSeparator line => "production needs '=': " ++ quoted line
  | severalLeftContexts head => "more than one left context in " ++ quoted head
  | severalRightContexts head => "more than one right context in " ++ quoted head
  | missingAxiom => "grammar has no axiom line"
  | undecodable path fault => path ++ " is not valid UTF-8: " ++ fault.message

/-- The wording of a fault in a configuration. -/
def ConfigFault.message : ConfigFault → String
  | notInteger field => field ++ " must be an integer"
  | notString field => field ++ " must be a string"
  | notObject field => field ++ " must be an object"
  | grammarSource => "exactly one of grammar or grammar_file must be given"
  | negativeIterations => "iterations must be >= 0"
  | lengthBound field => field ++ " must be > 0"
  | invalidJson path fault => "Invalid JSON in " ++ path ++ ": " ++ fault.message
  | undecodable path fault => path ++ " is not valid UTF-8: " ++ fault.message
  | noGrammars directory => "no .lsys files in " ++ directory
  | notGrammarNumber answer => "not a grammar number: " ++ quoted answer
  | grammarNumberRange count => s!"grammar number must be 1..{count}"
  | grammarAndDirectory => "give either a grammar file or --dir"

/-- The wording of a misuse. -/
def Misuse.message : Misuse → String
  | sourceAndSeed => "pass either rng or seed, not both"
  | negativeSteps steps => s!"cannot move back {steps.natAbs} generation(s)"
  | generationRange =>
    "Stop argument for islice() must be None or an integer: 0 <= x <= sys.maxsize."
  | nullInPath => "embedded null byte"
  | integerLength digits => (Json.Problem.integerLength digits).message
  | blankIterations => "'>=' not supported between instances of 'list' and 'int'"
  | blankLengthBound => "'>' not supported between instances of 'list' and 'int'"
  | blankDirectory =>
    "listdir: path should be string, bytes, os.PathLike, integer or None, not list"
  | blankSeed =>
    "The only supported seed types are: None,\nint, float, str, bytes, and bytearray."

/-- The wording of an error. -/
def Error.message : Error → String
  | formula fault column text =>
    let problem := fault.message
    s!"{problem} at column {column} in " ++ quoted text
  | unbound name => "variable '" ++ name ++ "' is not bound"
  | unboundIn production names =>
    "production '" ++ String.ofList production ++ "' uses unbound variable(s): " ++
      ", ".intercalate names
  | capacity count => s!"at most 3 parameters are allowed, got {count}"
  | grammar fault => fault.message
  | config fault => fault.message
  | misuse fault => fault.message
  | elementIndex => "tuple index out of range"
  | atLine line error => s!"line {line}: " ++ error.message

end Lindenmayer
