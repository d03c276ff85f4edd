/-!
# Paths

A path is a text whose parts are separated by slashes; one that begins with a slash is absolute.
-/

namespace Lindenmayer.Path

/-- The parts of a path, empty ones included. -/
def parts (path : String) : List String :=
  path.splitOn "/"

/-- Whether a path begins at the root. -/
def isAbsolute (path : String) : Bool :=
  path.startsWith "/"

/-- A path as seen from the directory `base`. -/
def join (base path : String) : String :=
  if isAbsolute path then path
  else if base.isEmpty || base.endsWith "/" then base ++ path
  else base ++ "/" ++ path

/-- Goes on to a part from the parts of an absolute path, latest first. -/
def step (walked : List String) (part : String) : List String :=
  if part == "" || part == "." then walked
  else if part == ".." then walked.drop 1
  else part :: walked

/-- The parts of the absolute path without empty parts and dots. -/
def resolved (directory path : String) : List String :=
  ((parts (join directory path)).foldl step []).reverse

/-- The absolute path with the given parts. -/
def ofParts (names : List String) : String :=
  "/" ++ "/".intercalate names

end Lindenmayer.Path
