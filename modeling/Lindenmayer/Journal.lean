import Lindenmayer.Number.Rounded
import Lindenmayer.Derivation.LSystem

/-!
# Journals

A journal tells what happens inside a run: which grammars are read, which draws leave an element as
it is, how long the words become. Each entry names the part of the library it comes from.
-/

namespace Lindenmayer

open Text

/-- How much an entry matters. -/
inductive Severity where
  | debug
  | info
deriving DecidableEq, Repr

/-- The part of the library that an entry comes from. -/
inductive Origin where
  | grammar
  | engine
  | generator
deriving DecidableEq, Repr

/-- An entry of a journal. -/
structure JournalEntry where
  severity : Severity
  origin : Origin
  message : String
deriving DecidableEq, Repr

/-- The name of a severity. -/
def Severity.text : Severity → String
  | debug => "DEBUG"
  | info => "INFO"

/-- The name of an origin. -/
def Origin.text : Origin → String
  | grammar => "lsystem_grammar"
  | engine => "lsystem_engine"
  | generator => "lsystem_generator"

namespace JournalEntry

/-- The line of an entry. -/
def text (entry : JournalEntry) : String :=
  let severity := entry.severity.text
  let origin := entry.origin.text
  s!"{severity} {origin}: {entry.message}"

/-- A grammar has been read. -/
def grammarRead (g : Grammar) : JournalEntry :=
  let elements := g.initial.length
  let productions := g.productions.length
  let settings := g.settings.length
  ⟨.debug, .grammar, s!"read grammar: axiom of {elements} element(s), " ++
    s!"{productions} production(s), {settings} setting(s)"⟩

/-- A run begins. -/
def runBegins (name : String) (iterations : Nat) : JournalEntry :=
  ⟨.info, .generator, s!"running {name} for {iterations} generation(s)"⟩

/-- A draw is not exceeded by the probabilities of the productions that apply, if so. -/
def ofOutcome? : Outcome → Option JournalEntry
  | .uncovered element draw total =>
    let draw := String.ofList (Rounded.placesText 6 draw)
    let total := String.ofList (Rounded.placesText 6 total)
    let element := String.ofList element.text
    some ⟨.debug, .engine,
      s!"draw {draw} exceeds total probability {total} for {element}; keeping it"⟩
  | _ => none

/-- A generation is complete. -/
def generationComplete (generation length : Nat) : JournalEntry :=
  ⟨.debug, .engine, s!"generation {generation}: {length} elements"⟩

end JournalEntry

/-- What happens to a system in a number of steps, or until one fails. -/
def LSystem.journal {σ : Type} [DrawSource σ] (system : LSystem σ) : Nat → List JournalEntry
  | 0 => []
  | steps + 1 =>
    system.outcomes.filterMap JournalEntry.ofOutcome? ++
      match system.generate with
      | (.ok word, next) =>
        JournalEntry.generationComplete next.generation word.length :: next.journal steps
      | (.error _, _) => []

end Lindenmayer
