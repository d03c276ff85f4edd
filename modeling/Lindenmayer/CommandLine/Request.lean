import Lindenmayer.CommandLine.Arguments

/-!
# Requests

What the program can be asked to do, and the options and operands that say so.
-/

namespace Lindenmayer.CommandLine

/-- How to grow a grammar. -/
structure GenerateOptions where
  /-- The path of the grammar; a single dash is the input. -/
  grammar : Option String := none
  /-- A directory with grammars to choose from. -/
  directory : Option (Given String) := none
  iterations : Given Int := .value 0
  seed : Option (Given Int) := none
  maxLength : Option (Given Int) := none
  /-- Whether to print the grammar first. -/
  verbose : Bool := false
  /-- Whether to go on by one generation for each line of input. -/
  interactive : Bool := false
deriving DecidableEq, Repr

/-- What to do. -/
inductive Command where
  | generate (options : GenerateOptions)
  | validate (grammar : String)
  | run (config : String)
  | random (output : String) (seed : Option (Given Int))
deriving DecidableEq, Repr

/-- A request. -/
structure Request where
  /-- Whether to keep a journal. -/
  journal : Bool
  command : Command
deriving DecidableEq, Repr

namespace Request

/-- The name of the program. -/
def programName : String := "lsystem_generator.py"

/-- The name of the program with a command. -/
def commandName (command : String) : String :=
  programName ++ " " ++ command

/-- The arguments of the command that grows a grammar. -/
def generateProgram : Program GenerateOptions where
  name := commandName "generate"
  switches := [
    .help,
    ⟨["-d", "--dir"], .text fun path options => { options with directory := some path }⟩,
    ⟨["-n", "--iterations"], .integer fun n options => { options with iterations := n }⟩,
    ⟨["--seed"], .integer fun n options => { options with seed := some n }⟩,
    ⟨["--max-length"], .integer fun n options => { options with maxLength := some n }⟩,
    ⟨["-v", "--verbose"], .flag fun options => { options with verbose := true }⟩,
    ⟨["-i", "--interactive"], .flag fun options => { options with interactive := true }⟩]
  operand := .optional fun path options => { options with grammar := some path }

/-- The arguments of a command with a path only. -/
def pathProgram (command operand : String) : Program String where
  name := commandName command
  switches := [.help]
  operand := .required operand fun path _ => path

/-- The arguments of the command that makes a random grammar. -/
def randomProgram : Program (String × Option (Given Int)) where
  name := commandName "random"
  switches := [.help, ⟨["--seed"], .integer fun n (output, _) => (output, some n)⟩]
  operand := .required "output" fun path (_, seed) => (path, seed)

/-- What is known of a request while arguments are read. -/
structure Draft where
  journal : Bool := false
  command : Option Command := none

/-- A command, given by its arguments and what they amount to. -/
def choice {σ : Type} (program : Program σ) (settings : σ) (command : σ → Command)
    (arguments : List String) (draft : Draft) : Except Halt (Draft × List String) := do
  let (settings, leftover) ← program.run arguments settings
  return ({ draft with command := some (command settings) }, leftover)

/-- The arguments of the program. -/
def mainProgram : Program Draft where
  name := programName
  switches := [.help, ⟨["--debug"], .flag fun draft => { draft with journal := true }⟩]
  operand := .command "cmd" [
    ("generate", choice generateProgram {} .generate),
    ("validate", choice (pathProgram "validate" "grammar") "" .validate),
    ("run", choice (pathProgram "run" "config") "" .run),
    ("random", choice randomProgram ("", none) fun (output, seed) => .random output seed)]

/-- The request that arguments make. -/
def ofArguments (arguments : List String) : Except Halt Request := do
  let draft ← mainProgram.parse arguments {}
  match draft.command with
  | some command => return { journal := draft.journal, command }
  | none => throw (.refused programName (.missingOperand "cmd"))

end Request

end Lindenmayer.CommandLine
