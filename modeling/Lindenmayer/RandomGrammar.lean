import Lindenmayer.Grammar.Reader
import Lindenmayer.Number.Rounded
import Lindenmayer.Random.Twister

/-!
# Random grammars

A random grammar has an axiom of one symbol and up to three productions for it, whose successors are
words with balanced brackets. Grammars over `F` and `X` are symbolic; those over `A` pass on a
parameter that shrinks from generation to generation.
-/

namespace Lindenmayer.RandomGrammar

open Text

variable {σ : Type}

/-! ## Words with balanced brackets -/

/-- The deepest nesting of brackets. -/
def maxDepth : Nat := 3

/-- A symbol other than a bracket, for a draw. -/
def symbolFor (grower : Char) (draw : Float) : Char :=
  if draw < 0.45 then 'F'
  else if draw < 0.6 then grower
  else if draw < 0.8 then '+'
  else '-'

/-- Draws symbols where `depth` brackets are open, and closes all that are open at the end. With
the probability `branch` a bracket is opened or closed rather than a symbol put. -/
def bracketedSymbols [DrawSource σ] (branch : Float) (grower : Char) (depth : Nat) :
    Nat → Drawing σ (List Char)
  | 0 => return List.replicate depth ']'
  | length + 1 => do
    let draw ← Drawing.draw
    if draw < branch && depth < maxDepth then
      return '[' :: (← bracketedSymbols branch grower (depth + 1) length)
    else if draw < branch * 2.0 && 0 < depth then
      return ']' :: (← bracketedSymbols branch grower (depth - 1) length)
    else
      let symbol := symbolFor grower (← Drawing.draw)
      return symbol :: (← bracketedSymbols branch grower depth length)

/-- A word with balanced brackets in which the growing symbol occurs. -/
def balancedWord [DrawSource σ] (branch : Float) (grower : Char) (length : Nat) :
    Drawing σ (List Char) := do
  let symbols ← bracketedSymbols branch grower 0 length
  return if symbols.contains grower then symbols else symbols ++ [grower]

/-- How often brackets are put into the successors of random grammars. -/
def branching : Float := 0.2

/-! ## Probabilities -/

/-- The sum of numbers, from left to right. -/
def sum (values : List Float) : Float :=
  values.foldl (· + ·) 0.0

/-- Weights for alternatives. -/
def weights [DrawSource σ] : Nat → Drawing σ (List Float)
  | 0 => return []
  | count + 1 => do
    let weight ← Drawing.uniform 0.2 1.0
    return weight :: (← weights count)

/-- Probabilities in hundredths, in proportion to the weights; the last one takes what is left. -/
def probabilities (weights : List Float) : List Float :=
  let total := sum weights
  let parts := weights.dropLast.map fun weight => Rounded.toPlaces 2 (weight / total)
  parts ++ [Rounded.toPlaces 2 (1.0 - sum parts)]

/-! ## Lines -/

/-- The probability of one of several alternatives; a single one needs none. -/
def probabilityText (alternatives : Nat) (probability : Float) : List Char :=
  if 1 < alternatives then ' ' :: '~' :: shortText probability else []

/-- One line for each probability. -/
def alternativeLines (line : Float → Drawing σ (List Char)) :
    List Float → Drawing σ (List (List Char))
  | [] => return []
  | probability :: rest => do
    let first ← line probability
    return first :: (← alternativeLines line rest)

variable [ChoiceSource σ]

/-- Lines of up to three alternatives, each made for its probability. -/
def alternatives (line : Nat → Float → Drawing σ (List Char)) : Drawing σ (List (List Char)) := do
  let count ← Drawing.integer 1 3
  alternativeLines (line count) (probabilities (← weights count))

/-- A successor in which `F` carries the parameter and `A` passes on a fraction of it. -/
def withParameter (ratio : Float) (word : List Char) : List Char :=
  word.flatMap fun c =>
    if c == 'F' then "F(l)".toList
    else if c == 'A' then "A(l*".toList ++ fullText ratio ++ [')']
    else [c]

/-- The axiom and the productions of a grammar whose elements shrink and stop below 1. -/
def parametricLines : Drawing σ (List (List Char)) := do
  let ratio ← Drawing.choose 0.5 [0.6, 0.7, 0.8]
  let start ← Drawing.integer 4 12
  let productions ← alternatives fun count probability => do
    let word ← balancedWord branching 'A' (← Drawing.integer 4 10)
    return "A(l) : l >= 1".toList ++ probabilityText count probability ++ " = ".toList ++
      withParameter ratio word
  return ("A(".toList ++ natDigits start ++ [')']) :: productions ++
    ["A(l) : l < 1 = F(l)".toList]

/-- The axiom and the productions of a grammar without parameters. -/
def symbolicLines (symbol : Char) : Drawing σ (List (List Char)) := do
  let productions ← alternatives fun count probability => do
    let word ← balancedWord branching symbol (← Drawing.integer 8 18)
    return symbol :: probabilityText count probability ++ " = ".toList ++ word
  return [symbol] :: productions ++ if symbol == 'X' then ["F = FF".toList] else []

/-- The lines of a random grammar. -/
def lines : Drawing σ (List (List Char)) := do
  let angle ← Drawing.choose 15 [20, 22.5, 25, 30, 36, 45, 60, 90]
  let step ← Drawing.choose 5 [8, 10, 12, 15]
  let symbol ← Drawing.choose 'F' ['X', 'A']
  let body ← if symbol == 'A' then parametricLines else symbolicLines symbol
  return ["// Random stochastic L-system".toList, "#angle = ".toList ++ shortText angle,
    "#step = ".toList ++ natDigits step] ++ body

/-- The text of a random grammar. -/
def text : Drawing σ (List Char) := do
  return (← lines).flatMap (· ++ ['\n'])

/-- The text of a random grammar together with the grammar that is read from it. -/
def generate (source : σ) : Except Error (List Char × Grammar) := do
  let (text, _) := text.run source
  return (text, ← Grammar.parse text)

end Lindenmayer.RandomGrammar
