import Lindenmayer.Grammar.Basic
import Lindenmayer.Derivation.Step

/-!
# L-systems

An L-system holds the current word, its productions and the source of the draws to come. It only
moves forward: each step puts together the next generation element by element and then replaces the
word by it. A step that fails drops what it has put together and leaves everything but the draws as
it was.
-/

namespace Lindenmayer

/-- A running L-system. -/
structure LSystem (σ : Type) where
  current : Word
  productions : List Production
  source : σ
  /-- The number of steps behind the current word. -/
  generation : Nat := 0
  /-- Whether the current word has been given out as an item of the sequence of generations. -/
  started : Bool := false
  /-- What a step has put together of the next word; between steps there is nothing. -/
  pending : Array (Element Float) := #[]

/-- What an operation answers, and the system it leaves behind. -/
abbrev Answer (σ α : Type) := Except Error α × LSystem σ

/-- Checks the variables of productions; the first production with an unbound one is reported. -/
def validateAll (productions : List Production) : Except Error Unit :=
  productions.forM Production.validate

namespace LSystem

variable {σ : Type}

/-- A system at its axiom, whose productions are checked unless `validate` is turned off. -/
def create (initial : Word) (productions : List Production) (source : σ)
    (validate : Bool := true) : Except Error (LSystem σ) := do
  if validate then validateAll productions
  return { current := initial, productions, source }

/-- A system for a grammar. -/
def ofGrammar (grammar : Grammar) (source : σ) (validate : Bool := true) :
    Except Error (LSystem σ) :=
  create grammar.initial grammar.productions source validate

/-- The lines that describe a system: its word and its productions. -/
def text (system : LSystem σ) : List Char :=
  (system.current.text :: system.productions.map (·.text)).flatMap (· ++ ['\n'])

variable [DrawSource σ]

/-- Adds what takes the place of elements to what is pending, from left to right until one fails.
`previous` is the element in front of them. -/
def rewrite (system : LSystem σ) (previous : Option (Element Float)) : Word → Answer σ Unit
  | [] => (.ok (), system)
  | item :: rest =>
    let site := { previous, item, following := rest.head? }
    match (deriveAt system.productions site).run system.source with
    | (.error e, source) => (.error e, { system with source })
    | (.ok outcome, source) =>
      rewrite { system with source, pending := system.pending ++ outcome.word } (some item) rest

/-- Moves on by one generation and answers the new word. -/
def generate (system : LSystem σ) : Answer σ Word :=
  match system.rewrite none system.current with
  | (.error e, system) => (.error e, { system with pending := #[] })
  | (.ok (), system) =>
    let current := system.pending.toList
    (.ok current, { system with current, pending := #[], generation := system.generation + 1 })

/-- Moves on by exactly `steps` generations, or until one fails. -/
def advance (system : LSystem σ) : Nat → Answer σ Word
  | 0 => (.ok system.current, { system with started := true })
  | steps + 1 =>
    match system.generate with
    | (.ok _, next) => next.advance steps
    | (.error e, next) => (.error e, next)

/-- Moves on by a number of generations that must not be negative. -/
def advanceBy (system : LSystem σ) (steps : Int) : Answer σ Word :=
  match steps with
  | .ofNat n => system.advance n
  | .negSucc _ => (.error (.misuse (.negativeSteps steps)), system)

/-- The next item of the sequence of generations: the current word to begin with, and afterwards
the word one generation on. -/
def next (system : LSystem σ) : Answer σ Word :=
  if system.started then system.generate
  else (.ok system.current, { system with started := true })

/-- What happens to the elements of the current word in the next step, as far as it succeeds. -/
def outcomes (system : LSystem σ) : List Outcome :=
  match (derive system.productions system.current).run system.source with
  | (.ok outcomes, _) => outcomes
  | (.error _, _) => []

end LSystem

end Lindenmayer
