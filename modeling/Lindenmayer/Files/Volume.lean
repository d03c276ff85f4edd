import Lindenmayer.Files.Failure
import Lindenmayer.Files.Path

/-!
# Volumes

A volume is a tree of directories and files held as a value. Each entry is known by the names on the
way from the root; the root itself is always there.
-/

namespace Lindenmayer

/-- An entry of a volume. -/
inductive Node where
  | file (octets : ByteArray)
  | directory

/-- A tree of directories and files. -/
structure Volume where
  entries : List (List String × Node)

namespace Volume

/-- No entries but the root. -/
def empty : Volume := ⟨[]⟩

/-- The entry at a place. -/
def find? (volume : Volume) : List String → Option Node
  | [] => some .directory
  | place => volume.entries.lookup place

/-- Puts an entry at a place, instead of what is there. -/
def put (volume : Volume) (place : List String) (entry : Node) : Volume :=
  ⟨volume.entries.filter (·.1 != place) ++ [(place, entry)]⟩

/-- Whether a place is a directory. -/
def isDirectoryAt (volume : Volume) (place : List String) : Bool :=
  match volume.find? place with
  | some .directory => true
  | _ => false

/-- The longest name of an entry, in octets. -/
def maxName : Nat := 255

/-- The longest path, in octets. -/
def maxPath : Nat := 4095

/-- Walks from a place, given backwards, along the parts of a path. Only the last part may be
missing, and what stands before a part must be a directory. -/
def walk (volume : Volume) (place : List String) :
    List String → Except FileProblem (List String)
  | [] => .ok place.reverse
  | part :: rest =>
    if part == "" then walk volume place rest
    else
      match volume.find? place.reverse with
      | none => .error .notFound
      | some (.file _) => .error .notDirectory
      | some .directory =>
        if part == "." then walk volume place rest
        else if part == ".." then walk volume (place.drop 1) rest
        else if maxName < part.utf8ByteSize then .error .nameTooLong
        else walk volume (part :: place) rest

/-- Where the walk along a path begins, given backwards. -/
def start (directory : List String) (path : String) : Except FileProblem (List String) :=
  if path.isEmpty then .error .notFound
  else if maxPath < path.utf8ByteSize then .error .nameTooLong
  else .ok (if Path.isAbsolute path then [] else directory.reverse)

/-- The place that a path names, seen from a directory. -/
def locate (volume : Volume) (directory : List String) (path : String) :
    Except FileProblem (List String) := do
  walk volume (← start directory path) (Path.parts path)

/-- Whether a path ends in a slash, which asks for a directory. -/
def asksDirectory (path : String) : Bool :=
  path.endsWith "/"

/-- The octets of a file. -/
def read (volume : Volume) (directory : List String) (path : String) :
    Except FileProblem ByteArray := do
  match volume.find? (← locate volume directory path) with
  | none => throw .notFound
  | some .directory => throw .isDirectory
  | some (.file octets) => if asksDirectory path then throw .notDirectory else return octets

/-- The parts of a path before its last one. -/
def partsAbove (path : String) : List String :=
  ((Path.parts path).reverse.dropWhile String.isEmpty).tail.reverse

/-- Writes a file, which is created if its directory is there. A path that asks for a directory is
refused before its last part is looked at. -/
def write (volume : Volume) (directory : List String) (path : String) (octets : ByteArray) :
    Except FileProblem Volume := do
  if asksDirectory path then
    let _ ← walk volume (← start directory path) (partsAbove path ++ ["."])
    throw .isDirectory
  let place ← locate volume directory path
  if volume.isDirectoryAt place then throw .isDirectory
  match volume.find? place.dropLast with
  | none => throw .notFound
  | some (.file _) => throw .notDirectory
  | some .directory => return volume.put place (.file octets)

/-- Whether a path names a file. -/
def isFile (volume : Volume) (directory : List String) (path : String) : Bool :=
  (volume.read directory path).isOk

/-- The names of the entries of a directory. -/
def list (volume : Volume) (directory : List String) (path : String) :
    Except FileProblem (List String) := do
  let place ← locate volume directory path
  match volume.find? place with
  | none => throw .notFound
  | some (.file _) => throw .notDirectory
  | some .directory =>
    return volume.entries.filterMap fun (other, _) =>
      if other.dropLast == place then other.getLast? else none

/-- Makes the directory at a place, given backwards, and all those above it that are missing. A
failure names the place where it arises. -/
def makeDirectories (volume : Volume) : List String → Except (FileProblem × List String) Volume
  | [] => .ok volume
  | name :: above => do
    let place := (name :: above).reverse
    match volume.find? place with
    | some .directory => return volume
    | some (.file _) => throw (.exists, place)
    | none =>
      match volume.find? above.reverse with
      | some (.file _) => throw (.notDirectory, place)
      | _ =>
        let volume ← volume.makeDirectories above
        if maxName < name.utf8ByteSize || maxPath < (Path.ofParts place).utf8ByteSize then
          throw (.nameTooLong, place)
        return volume.put place .directory

end Volume

end Lindenmayer
