import Lindenmayer.Random.Source

/-!
# Recorded draws

A recording gives the same draws each time, and starts over when it is used up.
-/

namespace Lindenmayer

/-- Recorded draws and how many have been taken. -/
structure Replay where
  draws : Array Float
  taken : Nat := 0

namespace Replay

/-- The draw at a position of the endless repetition of the recording. -/
def at? (draws : Array Float) (position : Nat) : Option Float :=
  draws[position % draws.size]?

instance : DrawSource Replay where
  draw replay :=
    ((at? replay.draws replay.taken).getD 0.0, { replay with taken := replay.taken + 1 })

end Replay

end Lindenmayer
