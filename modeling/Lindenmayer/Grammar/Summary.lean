import Lindenmayer.Grammar.Coverage
import Lindenmayer.Number.Rounded

/-!
# Summaries of grammars

A summary counts what is in a grammar, lists its settings, and warns of groups of productions whose
probabilities do not add up to 1.
-/

namespace Lindenmayer.Grammar

open Text

/-- The number of productions that may leave an element as it is or give way to another one. -/
def stochasticCount (g : Grammar) : Nat :=
  g.productions.countP fun p => p.probability != 1.0

/-- What follows from probabilities that do not add up to 1. -/
def coverageNote (total : Float) : String :=
  if total < 1.0 then "remaining draws keep the symbol unchanged"
  else "later productions are partly unreachable"

/-- The warning about a group of productions. -/
def coverageWarning (key : PredecessorKey) (total : Float) : String :=
  let group := String.ofList (keyText key)
  let sum := String.ofList (Rounded.summaryText total)
  let note := coverageNote total
  s!"warning: probabilities for {group} sum to {sum}; {note}"

/-- The line of a setting, whose numbers are given in full. -/
def settingSummary (name : String) (value : Setting) : String :=
  let value := String.ofList (value.text fullText)
  s!"  {name} = {value}"

/-- The lines of a summary. -/
def summary (g : Grammar) : List String :=
  let initial := String.ofList g.initial.text
  [s!"axiom: {initial}", s!"axiom length: {g.initial.length}",
    s!"productions: {g.productions.length}", s!"stochastic productions: {g.stochasticCount}",
    s!"settings: {g.settings.length}"] ++
    g.settings.map (fun (name, value) => settingSummary name value) ++
    g.unbalancedGroups.map fun (key, total) => coverageWarning key total

end Lindenmayer.Grammar
