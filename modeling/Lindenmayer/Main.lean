import Lindenmayer.CommandLine.Commands

/-!
# The program

The commands on a machine: its files, its standard streams and its random numbers.
-/

namespace Lindenmayer

open Text

/-- What a run on a machine remembers. -/
structure Terminal where
  keepsJournal : Bool := false
  /-- Input that has been received and not yet read. -/
  pending : List Char := []

/-- A run on a machine. -/
abbrev OnMachine := StateT Terminal IO

/-- The reason with a number of the operating system, of either sign. -/
def FileProblem.ofNumber (number : UInt32) (wording : String) : FileProblem :=
  match number.toInt32.toInt.natAbs with
  | 2 => .notFound
  | 17 => .exists
  | 20 => .notDirectory
  | 21 => .isDirectory
  | 36 => .nameTooLong
  | n => .other n wording

/-- The reason of an error. -/
def FileProblem.ofError : IO.Error → FileProblem
  | .noFileOrDirectory _ number wording | .alreadyExists _ number wording
  | .inappropriateType _ number wording | .permissionDenied _ number wording
  | .resourceExhausted _ number wording | .invalidArgument _ number wording =>
    ofNumber number wording
  | .otherError number wording => ofNumber number wording
  | error => .other 5 error.toString

namespace OnMachine

/-- The result of an action on files, or the reason why it fails. -/
def attempt {α : Type} (action : IO α) : OnMachine (Except FileProblem α) := do
  match ← action.toBaseIO with
  | .ok a => return .ok a
  | .error e => return .error (.ofError e)

/-- Whether a path names a directory. -/
def isDirectory (path : String) : IO Bool := do
  let place ← IO.FS.realPath path
  place.isDir

/-- Makes the directories below one that is there; `names` are those still to be made. -/
def makeBelow (above : List String) :
    List String → OnMachine (Except (FileProblem × List String) Unit)
  | [] => return .ok ()
  | name :: names => do
    let place := above ++ [name]
    let path := Path.ofParts place
    match ← attempt (IO.FS.createDir path) with
    | .ok () => makeBelow place names
    | .error problem =>
      let passable ← match ← attempt (isDirectory path) with
        | .ok isDirectory => pure (isDirectory || !names.isEmpty)
        | .error _ => pure false
      if passable then makeBelow place names else return .error (problem, place)

/-- The next line of the input, which is received if need be. -/
def nextLine : OnMachine String := do
  let pending := (← get).pending
  let received ← if pending.isEmpty
    then (fun line => unifyBreaks line.toList) <$> (do (← IO.getStdin).getLine : IO String)
    else pure pending
  let (line, rest) := takeLine received
  modify fun terminal => { terminal with pending := rest }
  return String.ofList line

/-- Goes through the lines of the input. -/
partial def eachLine {β : Type} (step : β → String → ExceptT Failure OnMachine (Option β))
    (state : β) : ExceptT Failure OnMachine Unit := do
  let line ← nextLine
  unless line.isEmpty do
    if let some state ← step state line then eachLine step state

instance : Host OnMachine where
  workingDirectory := return (← IO.currentDir).toString
  readFile path := attempt (IO.FS.readBinFile path)
  writeFile path text := attempt (IO.FS.writeFile path text)
  makeDirectories names := makeBelow [] names
  listDirectory path := attempt do
    let place ← IO.FS.realPath path
    return (← place.readDir).toList.map (·.fileName)
  isFile path := do
    match ← attempt (isDirectory path) with
    | .ok isDirectory => return !isDirectory
    | .error _ => return false
  readLine := nextLine
  readInput := do
    let pending := (← get).pending
    modify fun terminal => { terminal with pending := [] }
    let rest ← (do (← IO.getStdin).readToEnd : IO String)
    return String.ofList (pending ++ unifyBreaks rest.toList)
  forLines step state := eachLine step state
  print text := (do (← IO.getStdout).putStr text : IO Unit)
  warn text := (do (← IO.getStderr).putStr text : IO Unit)
  setJournal keeps := modify fun terminal => { terminal with keepsJournal := keeps }
  keepsJournal := return (← get).keepsJournal
  entropy := do
    let octets ← IO.getRandomBytes 8
    return octets.toList.foldl (fun n octet => n * 256 + octet.toNat) 0

end OnMachine

end Lindenmayer

open Lindenmayer in
/-- Runs the program with the given arguments. -/
def main (arguments : List String) : IO UInt32 := do
  let run : OnMachine (Except Failure Nat) := CommandLine.runProgram arguments
  match (← run.run {}).1 with
  | .ok status => return UInt32.ofNat status
  | .error failure =>
    IO.eprintln failure.message
    return 1
