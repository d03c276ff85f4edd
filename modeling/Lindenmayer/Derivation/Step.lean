import Lindenmayer.Production.Basic
import Lindenmayer.Random.Source

/-!
# One step of a derivation

All elements of a word are replaced at once: what is put in the place of an element depends on its
site in the word before the step and on the draws. An element to which productions apply takes one
draw, which selects the first of them at which the running total of the probabilities exceeds it.
An element to which none applies takes no draw and stays; so does one whose draw is not exceeded.
-/

namespace Lindenmayer

/-- What happens to an element in a step. -/
inductive Outcome where
  /-- No production applies. -/
  | unmatched (element : Element Float)
  /-- The draw is not exceeded by the total of the probabilities. -/
  | uncovered (element : Element Float) (draw total : Float)
  /-- A production replaces the element. -/
  | replaced (word : Word)
deriving DecidableEq

/-- The elements that take the place of the element. -/
def Outcome.word : Outcome → Word
  | unmatched element => [element]
  | uncovered element _ _ => [element]
  | replaced word => word

/-- What a draw leads to among productions that apply. -/
inductive Selection where
  /-- The production that is selected. -/
  | selected (production : Production)
  /-- The draw is not exceeded by the total of the probabilities. -/
  | beyond (total : Float)

/-- Goes through productions until the total of the probabilities exceeds the draw. -/
def select (draw total : Float) : List Production → Selection
  | [] => .beyond total
  | p :: rest =>
    let total := total + p.probability
    if draw < total then .selected p else select draw total rest

/-- The productions that apply at a site, in the order of declaration. -/
def candidates (site : Site (Element Float)) : List Production → Except Error (List Production)
  | [] => .ok []
  | p :: rest => do
    let applies ← p.applies site
    let others ← candidates site rest
    return if applies then p :: others else others

variable {σ : Type} [DrawSource σ]

/-- What happens to the element at a site. -/
def deriveAt (productions : List Production) (site : Site (Element Float)) :
    ExceptT Error (Drawing σ) Outcome := do
  match ← liftExcept (candidates site productions) with
  | [] => return .unmatched site.item
  | matching =>
    let draw ← (Drawing.draw : Drawing σ Float)
    match select draw 0.0 matching with
    | .selected p => return .replaced (← liftExcept (p.replace site))
    | .beyond total => return .uncovered site.item draw total

/-- What happens to all elements of a word, from left to right. -/
def derive (productions : List Production) (word : Word) :
    ExceptT Error (Drawing σ) (List Outcome) :=
  (sites word).mapM (deriveAt productions)

end Lindenmayer
