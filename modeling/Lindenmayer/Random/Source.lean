/-!
# Sources of draws

A derivation takes its draws, numbers in `[0, 1)`, from a source, one after another; drawing gives a
number and the source of the remaining draws. Building a random grammar also needs uniform choices
among finitely many things. Nothing else is known about a source, so what holds for all sources
holds for every sequence of draws.
-/

namespace Lindenmayer

/-- A source of draws. -/
class DrawSource (σ : Type) where
  /-- The next draw and the source of those after it. -/
  draw : σ → Float × σ

/-- A source that can also choose one of finitely many things. -/
class ChoiceSource (σ : Type) extends DrawSource σ where
  /-- One of the numbers below `n + 1`, and the source of what comes after it. -/
  below : (n : Nat) → σ → Fin (n + 1) × σ

/-- A computation that takes draws. -/
abbrev Drawing (σ α : Type) := StateM σ α

namespace Drawing

variable {σ α : Type}

/-- Takes the next draw. -/
def draw [DrawSource σ] : Drawing σ Float :=
  modifyGet DrawSource.draw

/-- A uniform number between two bounds. -/
def uniform [DrawSource σ] (low high : Float) : Drawing σ Float := do
  return low + (high - low) * (← draw)

/-- A uniform integer between two bounds, both included. -/
def integer [ChoiceSource σ] (low high : Nat) : Drawing σ Nat := do
  let offset ← modifyGet (ChoiceSource.below (high - low))
  return low + offset.val

/-- One of the given things. -/
def choose [ChoiceSource σ] (first : α) (others : List α) : Drawing σ α := do
  let i ← modifyGet (ChoiceSource.below others.length)
  return (first :: others)[i]

end Drawing

end Lindenmayer
