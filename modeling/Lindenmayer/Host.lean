import Lindenmayer.Files.Failure
import Lindenmayer.Files.Path
import Lindenmayer.Journal

/-!
# Hosts

A host is what a run happens in: files, an input of lines, two outputs and a supply of entropy.
Commands are written for any host, so the same command runs on a machine and in a `Session`, a host
that is a value.
-/

namespace Lindenmayer

/-- The services of a host. -/
class Host (m : Type → Type) where
  /-- The absolute path of the working directory. -/
  workingDirectory : m String
  /-- The octets of a file. -/
  readFile : String → m (Except FileProblem ByteArray)
  /-- Puts a text into a file. -/
  writeFile : String → String → m (Except FileProblem Unit)
  /-- Makes a directory and those above it, given by the parts of its absolute path; a failure names
  the place where it arises. -/
  makeDirectories : List String → m (Except (FileProblem × List String) Unit)
  /-- The names of the entries of a directory. -/
  listDirectory : String → m (Except FileProblem (List String))
  /-- Whether a path names a file. -/
  isFile : String → m Bool
  /-- The next line of the input with its line feed; empty at the end. -/
  readLine : m String
  /-- The rest of the input. -/
  readInput : m String
  /-- Goes through the lines of the rest of the input as long as `step` gives a next state. -/
  forLines {β : Type} (step : β → String → ExceptT Failure m (Option β)) (initial : β) :
    ExceptT Failure m Unit
  /-- Writes to the output. -/
  print : String → m Unit
  /-- Writes to the diagnostic output. -/
  warn : String → m Unit
  /-- Says whether a journal is kept on the diagnostic output. -/
  setJournal : Bool → m Unit
  /-- Whether a journal is kept. -/
  keepsJournal : m Bool
  /-- A number nobody can foresee. -/
  entropy : m Nat

namespace Host

variable {m : Type → Type} [Monad m] [Host m]

/-- A part of a run that may fail. -/
abbrev Attempt (m : Type → Type) (α : Type) := ExceptT Failure m α

/-- Writes a line to the output. -/
def printLine (line : String) : m Unit :=
  print (line ++ "\n")

/-- Writes a line to the diagnostic output. -/
def warnLine (line : String) : m Unit :=
  warn (line ++ "\n")

/-- Writes entries of the journal, which are worked out only if one is kept. -/
def note (entries : Unit → List JournalEntry) : m Unit := do
  if ← (keepsJournal : m Bool) then
    (entries ()).forM fun entry => warnLine entry.text

/-- Goes on with a result or fails with its error. -/
def orFail {α : Type} (result : Except Error α) : Attempt m α :=
  match result with
  | .ok a => pure a
  | .error e => throw (.error e)

/-- Fails with an error. -/
def fail {α : Type} (e : Error) : Attempt m α :=
  throw (.error e)

/-- Fails unless a requirement on the configuration is met. -/
def require (condition : Bool) (fault : ConfigFault) : Attempt m Unit :=
  if condition then pure () else fail (.config fault)

/-- Whether a text contains a null character, which no path may. -/
def hasNull (text : String) : Bool :=
  text.toList.contains '\x00'

/-- Fails if a path cannot be one. -/
def checkPath (path : String) : Attempt m Unit :=
  if hasNull path then fail (.misuse .nullInPath) else pure ()

/-- Goes on with the result of an operation on a file, or fails with the name of the file. -/
def orFileFailure {α : Type} (path : String) (result : Except FileProblem α) : Attempt m α :=
  match result with
  | .ok a => pure a
  | .error problem => throw (.file problem path)

/-- The octets of a file, or a failure. -/
def fileOctets (path : String) : Attempt m ByteArray := do
  checkPath path
  orFileFailure path (← (readFile path : m _))

/-- Makes a directory. One below a place that cannot be named is never made, so it does not matter
there whether a file stands in the way. -/
def makeDirectory (directory : List String) : Attempt m Unit := do
  let above := directory.takeWhile (!hasNull ·)
  match ← (makeDirectories above : m _) with
  | .ok () => pure ()
  | .error (problem, place) =>
    unless problem == .exists && above != directory do
      throw (.file problem (Path.ofParts place))
  if above != directory then fail (.misuse .nullInPath)

/-- Puts a text into a file, whose directory is made if it is missing. -/
def saveText (path text : String) : Attempt m Unit := do
  makeDirectory (Path.resolved (← (workingDirectory : m _)) path).dropLast
  checkPath path
  orFileFailure path (← (writeFile path text : m _))

end Host

end Lindenmayer
