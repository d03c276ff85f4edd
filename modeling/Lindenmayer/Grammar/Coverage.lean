import Lindenmayer.Grammar.Basic

/-!
# Coverage of a grammar

The unconditional productions without contexts of one predecessor should have probabilities that
add up to 1. Coverage adds them up in the order of declaration, group by group. Other productions
are left out, since whether they apply depends on the word.
-/

namespace Lindenmayer

/-- A group of productions: the symbol and the number of parameters of their predecessor. -/
abbrev PredecessorKey := Char × Nat

/-- The key of a production. -/
def Production.key (p : Production) : PredecessorKey :=
  (p.predecessor.symbol, p.predecessor.arity)

/-- Whether a production applies wherever its predecessor fits. -/
def Production.isUnconditional (p : Production) : Bool :=
  p.condition.isNone && p.left.isNone && p.right.isNone

namespace Grammar

/-- The text of a key: the symbol, a slash and the number of parameters. -/
def keyText (key : PredecessorKey) : List Char :=
  key.1 :: '/' :: Text.natDigits key.2

/-- Adds a probability to the sum of its group, which is opened at the end if it is new. -/
def addTo (key : PredecessorKey) (probability : Float) :
    List (PredecessorKey × Float) → List (PredecessorKey × Float)
  | [] => [(key, 0.0 + probability)]
  | (other, sum) :: rest =>
    if other == key then (other, sum + probability) :: rest
    else (other, sum) :: addTo key probability rest

/-- The sums of probabilities of all groups, in the order in which the groups are declared. -/
def groupSums (g : Grammar) : List (PredecessorKey × Float) :=
  (g.productions.filter (·.isUnconditional)).foldl
    (fun sums p => addTo p.key p.probability sums) []

/-- The groups whose probabilities do not add up to 1, with their sums. -/
def unbalancedGroups (g : Grammar) : List (PredecessorKey × Float) :=
  g.groupSums.filter fun (_, sum) => 1e-9 < (sum - 1.0).abs

end Grammar

end Lindenmayer
