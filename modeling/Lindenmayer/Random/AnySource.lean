import Lindenmayer.Error
import Lindenmayer.Random.Replay
import Lindenmayer.Random.Twister

/-!
# Where a system takes its draws from

A system is given a recording, or a seed, or neither; given both, it would have to ignore one.
-/

namespace Lindenmayer

/-- The sources a system may be given. -/
inductive AnySource where
  | recorded (replay : Replay)
  | generated (twister : Twister)

namespace AnySource

instance : DrawSource AnySource where
  draw
    | recorded replay =>
      let (x, replay) := DrawSource.draw replay
      (x, recorded replay)
    | generated twister =>
      let (x, twister) := DrawSource.draw twister
      (x, generated twister)

/-- The source for a recording or a seed; if there is neither, `entropy` serves as the seed. -/
def select (replay : Option Replay) (seed : Option Int) (entropy : Nat) :
    Except Error AnySource :=
  match replay, seed with
  | some _, some _ => .error (.misuse .sourceAndSeed)
  | some replay, none => .ok (recorded replay)
  | none, some seed => .ok (generated (.ofSeed seed))
  | none, none => .ok (generated (.ofSeed entropy))

end AnySource

end Lindenmayer
