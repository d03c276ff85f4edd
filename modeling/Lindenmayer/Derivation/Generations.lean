import Lindenmayer.Derivation.LSystem

/-!
# Sequences of generations

A sequence of generations gives out the items of a system one by one and can be left and resumed at
any time; several of them may take turns on one system. A sequence with a limit ends after the first
word that is longer. Growing a system means taking a number of items from such a sequence.
-/

namespace Lindenmayer

/-- How far a sequence of generations has come. -/
inductive Progress where
  /-- Nothing has been given out yet. -/
  | fresh
  /-- The word given out last had this length. -/
  | paused (length : Nat)
  /-- The sequence is over. -/
  | over
deriving DecidableEq, Repr

/-- A sequence of generations. -/
structure Generations where
  limit : Option Int
  progress : Progress := .fresh
deriving DecidableEq, Repr

namespace Generations

variable {σ : Type} [DrawSource σ]

/-- Whether a length is beyond a limit. -/
def exceeds (limit : Option Int) (length : Nat) : Bool :=
  match limit with
  | some bound => bound < length
  | none => false

/-- Whether no further item will come. -/
def isOver (sequence : Generations) : Bool :=
  match sequence.progress with
  | .fresh => false
  | .paused length => exceeds sequence.limit length
  | .over => true

/-- The next item, or nothing if the sequence is over; a failing step ends it. -/
def resume (sequence : Generations) (system : LSystem σ) :
    Except Error (Option Word) × Generations × LSystem σ :=
  if sequence.isOver then (.ok none, { sequence with progress := .over }, system)
  else
    match system.next with
    | (.ok word, system) =>
      (.ok (some word), { sequence with progress := .paused word.length }, system)
    | (.error e, system) => (.error e, { sequence with progress := .over }, system)

/-- Combines up to `count` items from the front of a sequence with `step`. -/
def fold {β : Type} (step : β → Word → β) (initial : β) (sequence : Generations)
    (system : LSystem σ) : Nat → Answer σ β
  | 0 => (.ok initial, system)
  | count + 1 =>
    match sequence.resume system with
    | (.ok (some word), sequence, system) =>
      fold step (step initial word) sequence system count
    | (.ok none, _, system) => (.ok initial, system)
    | (.error e, _, system) => (.error e, system)

end Generations

namespace LSystem

variable {σ : Type} [DrawSource σ]

/-- The words of the first `count` items of a new sequence of generations. -/
def firstGenerations (system : LSystem σ) (limit : Option Int) (count : Nat) :
    Answer σ (List Word) :=
  let collect (words : List Word) (word : Word) := word :: words
  let (answer, system) := Generations.fold collect [] { limit } system count
  (answer.map List.reverse, system)

/-- The largest number of items that can be counted. -/
def maxCount : Int := 9223372036854775807

/-- Grows a system by up to `iterations` generations, but not beyond the first word that is longer
than the limit. Answers the last word and whether growth stopped early. -/
def grow (system : LSystem σ) (iterations : Int) (limit : Option Int) : Answer σ (Word × Bool) :=
  let count := iterations + 1
  if 0 ≤ count ∧ count ≤ maxCount then
    let target := system.generation + iterations
    match Generations.fold (fun _ word => word) system.current { limit } system count.toNat with
    | (.ok last, system) => (.ok (last, decide (system.generation < target)), system)
    | (.error e, system) => (.error e, system)
  else (.error (.misuse .generationRange), system)

end LSystem

end Lindenmayer
