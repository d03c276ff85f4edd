import Lindenmayer.Random.Source

/-!
# The Mersenne Twister

The generator MT19937: a state of 624 words of 32 bits, which is replaced as a whole once its words
are used up, and a tempering of each word that is given out. A seed of any size is cut into words
that are mixed into the state. Two words make a draw of 53 bits.
-/

namespace Lindenmayer

/-- A state of the generator and the number of its words that have been given out. -/
structure Twister where
  words : Array UInt32
  used : Nat

namespace Twister

/-- The number of words of a state. -/
def size : Nat := 624

/-- The distance at which words are combined. -/
def shift : Nat := 397

/-- The word at a position of the state. -/
def word (words : Array UInt32) (i : Nat) : UInt32 :=
  words.getD i 0

/-- The state that a single word determines. -/
def expand (seed : UInt32) : Array UInt32 :=
  (List.range (size - 1)).foldl
    (fun words i =>
      let last := word words i
      words.push ((1812433253 : UInt32) * (last ^^^ (last >>> 30)) + UInt32.ofNat (i + 1)))
    #[seed]

/-- One round of mixing: a word is combined with its predecessor, multiplied by `factor`, and a
number derived from it by `finish`. The first word takes over the last one at the end of a pass. -/
def mix (factor : UInt32) (finish : UInt32 → UInt32) (words : Array UInt32) (i : Nat) :
    Array UInt32 × Nat :=
  let last := word words (i - 1)
  let mixed := finish (word words i ^^^ ((last ^^^ (last >>> 30)) * factor))
  let words := words.set! i mixed
  if i + 1 < size then (words, i + 1) else (words.set! 0 (word words (size - 1)), 1)

/-- The state that a key of at least one word determines. -/
def ofKey (key : Array UInt32) : Twister :=
  let rounds := max size key.size
  let (words, i) := (List.range rounds).foldl
    (fun (words, i) j =>
      let k := j % key.size
      mix 1664525 (· + word key k + UInt32.ofNat k) words i)
    (expand 19650218, 1)
  let (words, _) := (List.range (size - 1)).foldl
    (fun (words, i) _ => mix 1566083941 (· - UInt32.ofNat i) words i)
    (words, i)
  ⟨words.set! 0 0x80000000, size⟩

/-- The number of different words. -/
def wordCount : Nat := 4294967296

/-- The words of a number, the lowest first, at most `fuel` of them. -/
def keyWords (n : Nat) : Nat → List UInt32
  | 0 => []
  | fuel + 1 => UInt32.ofNat n :: if n < wordCount then [] else keyWords (n / wordCount) fuel

/-- The generator for a seed, whose sign does not matter. -/
def ofSeed (seed : Int) : Twister :=
  let n := seed.natAbs
  ofKey (keyWords n (n.log2 / 32 + 1)).toArray

/-- The next state. -/
def twist (words : Array UInt32) : Array UInt32 :=
  (List.range size).foldl
    (fun words i =>
      let joined := (word words i &&& 0x80000000) ||| (word words ((i + 1) % size) &&& 0x7FFFFFFF)
      let shifted := joined >>> 1
      let shifted := if joined &&& 1 == 0 then shifted else shifted ^^^ 0x9908B0DF
      words.set! i (word words ((i + shift) % size) ^^^ shifted))
    words

/-- Spreads the bits of a word. -/
def temper (y : UInt32) : UInt32 :=
  let y := y ^^^ (y >>> 11)
  let y := y ^^^ ((y <<< 7) &&& 0x9D2C5680)
  let y := y ^^^ ((y <<< 15) &&& 0xEFC60000)
  y ^^^ (y >>> 18)

/-- The next word of 32 bits. -/
def next (t : Twister) : UInt32 × Twister :=
  if t.used < size then (temper (word t.words t.used), { t with used := t.used + 1 })
  else
    let words := twist t.words
    (temper (word words 0), ⟨words, 1⟩)

/-- The next draw, made of the upper bits of two words. -/
def draw (t : Twister) : Float × Twister :=
  let (high, t) := t.next
  let (low, t) := t.next
  let units := (high >>> 5).toNat * Nat.pow 2 26 + (low >>> 6).toNat
  (Float.ofNat units / Float.ofNat (Nat.pow 2 53), t)

/-- The number of bits of a number. -/
def bitLength (n : Nat) : Nat :=
  if n = 0 then 0 else n.log2 + 1

/-- How often a number that is too large is drawn again. Each time more than half of the numbers
would do, so this many failures in a row do not happen. -/
def retries : Nat := 1024

/-- Draws numbers of as many bits as `n + 1` has until one is at most `n`. -/
def below (n : Nat) (t : Twister) : Nat → Fin (n + 1) × Twister
  | 0 => (0, t)
  | fuel + 1 =>
    let (bits, t) := t.next
    let value := bits.toNat / Nat.pow 2 (32 - bitLength (n + 1))
    if h : value < n + 1 then (⟨value, h⟩, t) else below n t fuel

instance : ChoiceSource Twister where
  draw := draw
  below n t := below n t retries

end Twister

end Lindenmayer
