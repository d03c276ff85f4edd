import Lindenmayer.CommandLine.Request
import Lindenmayer.Grammar.Summary
import Lindenmayer.Json.Parser
import Lindenmayer.RandomGrammar
import Lindenmayer.Derivation.Generations
import Lindenmayer.RunConfig

/-!
# Commands

What the commands do, in any host. Results go to the output; prompts, warnings, the journal and
reports of failures go to the diagnostic output.
-/

namespace Lindenmayer.CommandLine

open Text Host

variable {m : Type → Type} [Monad m] [Host m]

/-- Goes on with the value of an option, which must not be blank. -/
def orBlank {α : Type} (fault : Misuse) : Given α → Attempt m α
  | .value a => pure a
  | .blank => fail (.misuse fault)

/-! ## Systems -/

/-- The generator for a seed, or one that nobody can foresee. -/
def generatorFor (seed : Option Int) : Attempt m Twister := do
  match seed with
  | some seed => return .ofSeed seed
  | none =>
    let number ← (entropy : m Nat)
    return .ofSeed number

/-- A system at the axiom of a grammar. -/
def systemFor (grammar : Grammar) (seed : Option Int) : Attempt m (LSystem Twister) := do
  let generator ← (generatorFor seed : Attempt m _)
  orFail (LSystem.ofGrammar grammar generator)

/-- Goes on with the answer of a system, whose steps are noted in the journal. -/
def orFailNoted {α : Type} (before : LSystem Twister) (answer : Answer Twister α) :
    Attempt m (α × LSystem Twister) := do
  let (result, after) := answer
  note (m := m) fun _ => before.journal (after.generation - before.generation)
  return (← orFail result, after)

/-- The warning that growth stopped early. -/
def truncationWarning (limit : Int) (generation : Nat) : String :=
  s!"warning: string exceeded {limit} symbols; stopped at generation {generation}"

/-- Grows a grammar, warns if growth stopped early, and answers the line of the last word. -/
def growNoted (system : LSystem Twister) (iterations : Int) (limit : Option Int) :
    Attempt m String := do
  let ((word, truncated), after) ← orFailNoted system (system.grow iterations limit)
  match truncated, limit with
  | true, some limit => warnLine (m := m) (truncationWarning limit after.generation)
  | _, _ => pure ()
  return String.ofList word.text

/-! ## Growing a grammar -/

/-- The names of the grammars in a directory, sorted. -/
def grammarNames (directory : String) : Attempt m (List String) := do
  checkPath directory
  let names ← orFileFailure directory (← (listDirectory directory : m _))
  let files ← names.filterM fun name =>
    if name.endsWith ".lsys" then (isFile (Path.join directory name) : m Bool) else pure false
  return files.mergeSort fun a b => !(b < a)

/-- Asks for one of the grammars in a directory and answers its path. -/
def chooseGrammar (directory : String) : Attempt m String := do
  let names ← (grammarNames directory : Attempt m _)
  require (!names.isEmpty) (.noGrammars directory)
  for (name, i) in names.zipIdx 1 do
    warnLine (m := m) s!"{i}) {name}"
  warn (m := m) "grammar number: "
  let answer := trim (← (readLine : m String)).toList
  match Entry.int? answer with
  | none => fail (.config (.notGrammarNumber answer))
  | some number =>
    match if 1 ≤ number then names[number.toNat - 1]? else none with
    | some name => return Path.join directory name
    | none => fail (.config (.grammarNumberRange names.length))

/-- Reads a grammar from a file, or from the input if the path is a single dash. -/
def readGrammar (path : String) : Attempt m Grammar := do
  if path == "-" then
    let text ← (readInput : m String)
    GrammarFile.readText text.toList
  else GrammarFile.load path

/-- The line of a generation. -/
def generationLine (generation : Nat) (word : Word) : String :=
  let text := String.ofList word.text
  s!"{generation}: {text}"

/-- Whether a line of the input ends an interactive session. -/
def isQuit (line : List Char) : Bool :=
  let word := (trim line).map Char.toLower
  word == ['q'] || word == ['q', 'u', 'i', 't']

/-- Answers a line of the input with the next generation, unless it is a request to stop. A word
that is too long ends the session. -/
def interactiveStep (limit : Option Int) (system : LSystem Twister) (line : String) :
    Attempt m (Option (LSystem Twister)) := do
  if isQuit line.toList then return none
  let (word, system) ← orFailNoted system system.next
  printLine (m := m) (generationLine system.generation word)
  match limit with
  | some bound =>
    if bound < word.length then
      warnLine (m := m) (truncationWarning bound system.generation)
      return none
    else return some system
  | none => return some system

/-- Shows the axiom, and a further generation for each line of the input. -/
def interact (system : LSystem Twister) (limit : Option Int) : Attempt m Unit := do
  warnLine (m := m) "[enter] next generation, q to quit"
  let (word, system) ← orFailNoted system system.next
  printLine (m := m) (generationLine system.generation word)
  forLines (interactiveStep limit) system

/-- The path of the grammar to grow. -/
def grammarPath (options : GenerateOptions) : Attempt m String := do
  match options.directory, options.grammar with
  | some _, some _ => fail (.config .grammarAndDirectory)
  | some directory, none => chooseGrammar (← (orBlank .blankDirectory directory : Attempt m _))
  | none, path => return path.getD "-"

/-- Grows a grammar. -/
def generate (options : GenerateOptions) : Attempt m Unit := do
  let iterations ← (orBlank .blankIterations options.iterations : Attempt m _)
  require (0 ≤ iterations) .negativeIterations
  let limit ← (options.maxLength.mapM (orBlank .blankLengthBound) : Attempt m _)
  require (limit.all (0 < ·)) (.lengthBound "max-length")
  let grammar ← readGrammar (← (grammarPath options : Attempt m _))
  let system ← systemFor grammar (← (options.seed.mapM (orBlank .blankSeed) : Attempt m _))
  if options.verbose then print (m := m) (String.ofList grammar.text)
  if options.interactive then interact system limit
  else
    let line ← growNoted system iterations limit
    printLine (m := m) line

/-! ## The other commands -/

/-- Prints the summary of a grammar and the length of its first generation. -/
def validate (path : String) : Attempt m Unit := do
  let grammar ← (readGrammar path : Attempt m _)
  for line in grammar.summary do
    printLine (m := m) line
  let system ← systemFor grammar (some 0)
  let (word, _) ← orFailNoted system (system.advance 1)
  printLine (m := m) s!"generation 1 length: {word.length}"

/-- Reads a JSON file. -/
def loadJson (path : String) : Attempt m Json := do
  match Utf8.decode (← fileOctets path) with
  | .error fault => fail (.config (.undecodable path fault))
  | .ok text =>
    match Json.parse (unifyBreaks text) with
    | .error fault => fail (.ofJson path fault)
    | .ok value => return value

/-- Runs a configuration, whose paths are seen from the directory of its file. -/
def runConfig (path : String) : Attempt m Unit := do
  let value ← (loadJson path : Attempt m _)
  let base := Path.ofParts (Path.resolved (← (workingDirectory : m _)) path).dropLast
  let config ← RunConfig.read base value
  note (m := m) fun _ => [.runBegins config.name config.iterations]
  let system ← systemFor config.grammar config.seed
  let line ← growNoted system config.iterations (config.maxLength.map Int.ofNat)
  match config.output with
  | none => printLine (m := m) line
  | some output => saveText output (line ++ "\n")

/-- Writes a random grammar to a file. -/
def writeRandom (output : String) (seed : Option (Given Int)) : Attempt m Unit := do
  let seed ← (seed.mapM (orBlank .blankSeed) : Attempt m _)
  let generator ← (generatorFor seed : Attempt m _)
  let (text, grammar) ← orFail (RandomGrammar.generate generator)
  note (m := m) fun _ => [.grammarRead grammar]
  saveText output (String.ofList text)

/-! ## Runs of the program -/

/-- Does what a command asks for. -/
def Command.perform : Command → Attempt m Unit
  | generate options => CommandLine.generate options
  | validate grammar => CommandLine.validate grammar
  | run config => runConfig config
  | random output seed => writeRandom output seed

/-- The report of a failure, if it is one that users are to expect. -/
def failureReport? (failure : Failure) : Option String :=
  match failure with
  | .file .. => some ("File error: " ++ failure.message)
  | .error e =>
    if e.kind == .config then some ("Config error: " ++ e.message)
    else if e.kind.isSystem then some ("Grammar error: " ++ e.message)
    else none

/-- How the program is used. -/
def usage (program : String) : String :=
  s!"usage: {program} [-h] [--debug] generate | validate | run | random ..."

/-- Runs the program and answers its exit status, or the failure that nobody is to expect. -/
def runProgram (arguments : List String) : m (Except Failure Nat) := do
  match Request.ofArguments arguments with
  | .error (.help program) =>
    printLine (usage program)
    return .ok 0
  | .error (.refused program refusal) =>
    let message := refusal.message
    warnLine s!"{program}: error: {message}"
    return .ok 2
  | .ok request =>
    setJournal request.journal
    match ← request.command.perform.run with
    | .ok () => return .ok 0
    | .error failure =>
      match failureReport? failure with
      | some report =>
        warnLine report
        return .ok 2
      | none => return .error failure

end Lindenmayer.CommandLine
