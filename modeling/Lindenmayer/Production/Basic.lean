import Lindenmayer.Element.Basic
import Lindenmayer.Site

/-!
# Productions

A production says what an element may be replaced by. Its predecessor, and its contexts if it has
any, name the parameters of the element and of its neighbours; the condition and the formulas of the
successor are evaluated with those names. The names are distinct single letters and the probability
lies between 0 and 1: a `Production` carries the proof.
-/

namespace Lindenmayer

/-- The parts of a production, which need not fit together. -/
structure Production.Parts where
  predecessor : Element String
  successor : List (Element Expr) := []
  condition : Option Expr := none
  probability : Float := 1.0
  left : Option (Element String) := none
  right : Option (Element String) := none
deriving DecidableEq

/-- Whether a name can be a formal parameter: one ASCII letter. -/
def isFormalName (name : String) : Bool :=
  match name.toList with
  | [c] => c.isAlpha
  | _ => false

namespace Production.Parts

/-- The formal parameters of the left context, the predecessor and the right context. -/
def formals (p : Parts) : List String :=
  let names (e : Option (Element String)) := (e.map (·.params.values)).getD []
  names p.left ++ p.predecessor.params.values ++ names p.right

/-- The text of a production. A condition directly before the separator is kept apart from a
successor that begins with an equals sign by a blank. -/
def text (p : Parts) : List Char :=
  let left := match p.left with
    | some e => e.text ++ ['<']
    | none => []
  let right := match p.right with
    | some e => '>' :: e.text
    | none => []
  let condition := match p.condition with
    | some e => ':' :: e.text
    | none => []
  let probability := if p.probability == 1.0 then [] else '~' :: shortText p.probability
  let body := elementsText p.successor
  let gap := if p.condition.isSome && p.probability == 1.0 && body.head? == some '=' then [' ']
    else []
  left ++ p.predecessor.text ++ right ++ condition ++ probability ++ '=' :: gap ++ body

/-- What makes parts a production. -/
structure WellFormed (p : Parts) : Prop where
  probability_nonneg : 0.0 ≤ p.probability
  probability_le_one : p.probability ≤ 1.0
  formals_letters : ∀ name ∈ p.formals, isFormalName name
  formals_nodup : p.formals.Nodup

end Production.Parts

/-- A production: parts that fit together. -/
structure Production extends Production.Parts where
  wellFormed : toParts.WellFormed
deriving DecidableEq

namespace Production

/-- The production with the given parts, or the first fault that keeps them from being one. -/
def ofParts (parts : Parts) : Except Error Production :=
  if hp : 0.0 ≤ parts.probability ∧ parts.probability ≤ 1.0 then
    match hn : parts.formals.find? (!isFormalName ·) with
    | some name => .error (.grammar (.formalName name.toList))
    | none =>
      if hd : parts.formals.Nodup then
        .ok ⟨parts, hp.1, hp.2, by simpa using hn, hd⟩
      else .error (.grammar (.repeatedFormals parts.text))
  else .error (.grammar (.probabilityRange parts.probability))

/-- The variables of the condition and of the successor, once for every occurrence. -/
def vars (p : Production) : List String :=
  let condition := (p.condition.map Expr.vars).getD []
  condition ++ p.successor.flatMap fun e => e.params.values.flatMap Expr.vars

/-- The variables that no formal parameter binds, in ascending order. -/
def unboundVariables (p : Production) : List String :=
  sortedNames (p.vars.filter (· ∉ p.formals))

/-- Checks that every variable is a formal parameter. -/
def validate (p : Production) : Except Error Unit :=
  match p.unboundVariables with
  | [] => .ok ()
  | names => .error (.unboundIn p.text names)

/-- The values of the formal parameters at a site, from left to right. Names without a value and
values without a name are left out. -/
def context (p : Production) (site : Site (Element Float)) : Context :=
  let bind (formal : Option (Element String)) (actual : Option (Element Float)) : Context :=
    match formal, actual with
    | some f, some a => f.params.values.zip a.params.values
    | _, _ => []
  bind p.left site.previous ++ p.predecessor.params.values.zip site.item.params.values ++
    bind p.right site.following

/-- Whether a neighbour is what a context asks for; without a context every neighbour is. -/
def contextFits (context : Option (Element String)) (neighbour : Option (Element Float)) : Bool :=
  match context, neighbour with
  | none, _ => true
  | some _, none => false
  | some c, some n => c.compatible n

/-- Whether the symbols and the numbers of parameters at a site are those of the production. -/
def fits (p : Production) (site : Site (Element Float)) : Bool :=
  p.predecessor.compatible site.item && contextFits p.left site.previous &&
    contextFits p.right site.following

/-- Whether the production applies at a site: it fits and its condition holds. -/
def applies (p : Production) (site : Site (Element Float)) : Except Error Bool :=
  if p.fits site then
    match p.condition with
    | none => .ok true
    | some condition => condition.holds (p.context site)
  else .ok false

/-- What the production puts in the place of the item of a site. -/
def replace (p : Production) (site : Site (Element Float)) : Except Error Word :=
  p.successor.mapM fun e => do
    let params ← e.params.traverse (Expr.evaluate (p.context site))
    return ⟨e.symbol, params⟩

end Production

end Lindenmayer
