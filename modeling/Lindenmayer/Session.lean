import Lindenmayer.Files.Volume
import Lindenmayer.Host
import Lindenmayer.Text.Lines

/-!
# Sessions

A session is a host that is a value: a volume with a working directory, the input that has not been
read, and everything that has been written so far. A run in a session is a function from sessions to
sessions.
-/

namespace Lindenmayer

open Text

/-- A host as a value. -/
structure Session where
  volume : Volume := .empty
  /-- The parts of the working directory's path. -/
  directory : List String := []
  input : List Char := []
  output : String := ""
  diagnostics : String := ""
  keepsJournal : Bool := false
  entropy : Nat := 0

namespace Session

/-- Goes through lines as long as there is a next state. -/
def forLines {β : Type} (step : β → String → ExceptT Failure (StateM Session) (Option β))
    (state : β) : List (List Char) → ExceptT Failure (StateM Session) Unit
  | [] => pure ()
  | line :: rest => do
    modify fun session => { session with input := rest.flatten }
    match ← step state (String.ofList line) with
    | some state => forLines step state rest
    | none => pure ()

instance : Host (StateM Session) where
  workingDirectory := return Path.ofParts (← get).directory
  readFile path := return (← get).volume.read (← get).directory path
  writeFile path text := do
    let session ← get
    match session.volume.write session.directory path text.toUTF8 with
    | .ok volume =>
      set { session with volume }
      return .ok ()
    | .error problem => return .error problem
  makeDirectories place := do
    let session ← get
    match session.volume.makeDirectories place.reverse with
    | .ok volume =>
      set { session with volume }
      return .ok ()
    | .error problem => return .error problem
  listDirectory path := return (← get).volume.list (← get).directory path
  isFile path := return (← get).volume.isFile (← get).directory path
  readLine := do
    let (line, rest) := takeLine (← get).input
    modify fun session => { session with input := rest }
    return String.ofList line
  readInput := do
    let input := (← get).input
    modify fun session => { session with input := [] }
    return String.ofList input
  forLines step state := do
    let session ← get
    forLines step state (inputLines session.input)
  print text := modify fun session => { session with output := session.output ++ text }
  warn text := modify fun session => { session with diagnostics := session.diagnostics ++ text }
  setJournal keeps := modify fun session => { session with keepsJournal := keeps }
  keepsJournal := return (← get).keepsJournal
  entropy := return (← get).entropy

end Session

end Lindenmayer
