import Lindenmayer.Error

/-!
# Failures of file operations

An operation on a file fails for a reason that has a number and a wording; the report names the
file. A run fails because of a file or because of an error of the system itself.
-/

namespace Lindenmayer

open Text

/-- Why an operation on a file fails. -/
inductive FileProblem where
  | notFound
  | exists
  | notDirectory
  | isDirectory
  | nameTooLong
  /-- A reason of the operating system's own. -/
  | other (number : Nat) (wording : String)
deriving DecidableEq, Repr

/-- The number of a reason. -/
def FileProblem.number : FileProblem → Nat
  | notFound => 2
  | «exists» => 17
  | notDirectory => 20
  | isDirectory => 21
  | nameTooLong => 36
  | other number _ => number

/-- The wording of a reason. -/
def FileProblem.message : FileProblem → String
  | notFound => "No such file or directory"
  | «exists» => "File exists"
  | notDirectory => "Not a directory"
  | isDirectory => "Is a directory"
  | nameTooLong => "File name too long"
  | other _ wording => wording

/-- Why a run fails. -/
inductive Failure where
  | file (problem : FileProblem) (path : String)
  | error (error : Error)
deriving DecidableEq, Repr

/-- The wording of a failure. -/
def Failure.message : Failure → String
  | file problem path =>
    let wording := problem.message
    s!"[Errno {problem.number}] {wording}: " ++ quoted path.toList
  | error e => e.message

end Lindenmayer
