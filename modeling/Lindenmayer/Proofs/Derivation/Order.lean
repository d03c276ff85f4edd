import Lindenmayer.Grammar.Coverage
import Lindenmayer.Proofs.Derivation.History
import Lindenmayer.Proofs.Derivation.Simulation
import Mathlib.Data.List.Sort
import Mathlib.Logic.Equiv.Basic

/-!
# The order of productions

Productions compete for an element only if their predecessors have its symbol and its number of
parameters; all others are passed over before anything is evaluated. So what is declared between
two competing productions makes no difference: lists of productions that agree on the order within
each group of competitors lead to the same words, draws and errors.
-/

namespace Lindenmayer

/-! ## Rearranging productions -/

/-- The second list has the productions of the first in places of their own, and keeps the order of
those with the same predecessor symbol and number of parameters. -/
structure Rearrangement (P Q : List Production) where
  place : Fin P.length ≃ Fin Q.length
  getElem_place (i : Fin P.length) : Q[place i] = P[i]
  place_lt {i j : Fin P.length} : i < j → P[i].key = P[j].key → place i < place j

/-- The positions at which productions have a key, in ascending order. -/
def positions (P : List Production) (key : PredecessorKey) : List (Fin P.length) :=
  (List.finRange P.length).filter fun i => P[i].key = key

@[simp]
theorem mem_positions {P : List Production} {key : PredecessorKey} {i : Fin P.length} :
    i ∈ positions P key ↔ P[i].key = key := by
  simp [positions]

theorem pairwise_positions (P : List Production) (key : PredecessorKey) :
    (positions P key).Pairwise (· < ·) :=
  (List.sortedLT_finRange P.length).pairwise.filter _

/-- The productions with a key are those at its positions. -/
theorem filter_key_eq_map (P : List Production) (key : PredecessorKey) :
    P.filter (·.key = key) = (positions P key).map fun i => P[i] := by
  conv_lhs => rw [← List.map_getElem_finRange P]
  rw [List.filter_map]
  rfl

namespace Rearrangement

variable {P Q : List Production} (r : Rearrangement P Q)

/-- The new places of the positions with a key are the positions with that key: both are the same
set in ascending order. -/
theorem map_positions (key : PredecessorKey) :
    (positions P key).map r.place = positions Q key := by
  have hsorted : ((positions P key).map r.place).Pairwise (· < ·) := by
    rw [List.pairwise_map]
    apply (pairwise_positions P key).imp_of_mem
    intro i j hi hj hlt
    apply r.place_lt hlt
    rw [mem_positions.1 hi, mem_positions.1 hj]
  -- lists in ascending order are equal as soon as they have the same members
  apply hsorted.eq_of_mem_iff (pairwise_positions Q key)
  intro j
  rw [List.mem_map, mem_positions]
  constructor
  · rintro ⟨i, hi, rfl⟩
    rw [r.getElem_place]
    exact mem_positions.1 hi
  · intro hj
    obtain ⟨i, rfl⟩ := r.place.surjective j
    rw [r.getElem_place] at hj
    exact ⟨i, mem_positions.2 hj, rfl⟩

include r in
theorem filter_key_eq (key : PredecessorKey) :
    P.filter (·.key = key) = Q.filter (·.key = key) := by
  rw [filter_key_eq_map, filter_key_eq_map, ← r.map_positions, List.map_map]
  apply List.map_congr_left
  intro i _
  exact (r.getElem_place i).symm

end Rearrangement

/-! ## Competition -/

/-- The key of the productions that compete for an element. -/
def Element.key (e : Element Float) : PredecessorKey :=
  (e.symbol, e.arity)

/-- A production with another key does not apply, and nothing of it is evaluated. -/
theorem Production.applies_of_key_ne {p : Production} {site : Site (Element Float)}
    (h : p.key ≠ site.item.key) : p.applies site = .ok false := by
  have hincompatible : p.predecessor.compatible site.item = false := by
    rw [← Bool.not_eq_true, Element.compatible, Bool.and_eq_true, beq_iff_eq, beq_iff_eq]
    rintro ⟨hsymbol, harity⟩
    exact h (Prod.ext hsymbol harity)
  rw [applies, fits, hincompatible]
  rfl

/-- Only competitors are found at a site, and only they can fail. -/
theorem candidates_filter_key (site : Site (Element Float)) (P : List Production) :
    candidates site (P.filter (·.key = site.item.key)) = candidates site P := by
  induction P with
  | nil => rfl
  | cons p rest ih =>
    by_cases hkey : p.key = site.item.key
    · rw [List.filter_cons_of_pos (by simpa using hkey), candidates, candidates, ih]
    · rw [List.filter_cons_of_neg (by simpa using hkey), candidates, ih,
        p.applies_of_key_ne hkey]
      cases candidates site rest with
      | error e => rfl
      | ok found => rfl

theorem Rearrangement.deriveAt_eq {σ : Type} [DrawSource σ] {P Q : List Production}
    (r : Rearrangement P Q) (site : Site (Element Float)) :
    deriveAt (σ := σ) P site = deriveAt Q site := by
  have hcandidates : candidates site P = candidates site Q := by
    rw [← candidates_filter_key, r.filter_key_eq, candidates_filter_key]
  rw [deriveAt, hcandidates, deriveAt]

/-! ## Runs -/

variable {σ : Type} [DrawSource σ]

theorem Rearrangement.isSimulation {P Q : List Production} (r : Rearrangement P Q) :
    IsSimulation (Resembles P Q (Eq (α := σ))) := by
  apply isSimulation_resembles
  rintro site source _ rfl
  rw [r.deriveAt_eq]
  exact ⟨rfl, rfl⟩

namespace LSystem

/-- Where two new systems have the same axiom and the same source, and the productions of one are a
rearrangement of those of the other, no operation tells them apart: the answers agree, failures
included, and so do the words, the generations and the sources with the draws taken from them. -/
theorem run_of_rearrangement {initial : Word} {P Q : List Production} (r : Rearrangement P Q)
    {source : σ} {validate : Bool} {system other : LSystem (Counted σ)}
    (hcreate : create initial P ({ source } : Counted σ) validate = .ok system)
    (hother : create initial Q ({ source } : Counted σ) validate = .ok other)
    (operations : List Operation) :
    let (answers, bench) := Bench.run { system } operations
    let (answers', bench') := Bench.run { system := other } operations
    answers = answers' ∧
      bench.system.current = bench'.system.current ∧
      bench.system.generation = bench'.system.generation ∧
      bench.system.source.taken = bench'.system.source.taken ∧
      bench'.system = { bench.system with productions := Q } := by
  have hnew : Resembles P Q Eq system other := resembles_of_create hcreate hother rfl
  obtain ⟨hanswers, hrun⟩ := r.isSimulation.run_new hnew operations
  exact ⟨hanswers, hrun.current_eq, hrun.generation_eq, congrArg Counted.taken hrun.source,
    hrun.eq_with_productions⟩

/-- The production `A ~ 0.5 = AB`. -/
def growing : Production where
  predecessor := .plain 'A'
  probability := 0.5
  successor := [.plain 'A', .plain 'B']
  wellFormed := ⟨by decide, by decide, by decide, by decide⟩

/-- The production `A = BB`, which competes with `growing`. -/
def dissolving : Production where
  predecessor := .plain 'A'
  successor := [.plain 'B', .plain 'B']
  wellFormed := ⟨by decide, by decide, by decide, by decide⟩

/-- The production `B : y > 1 = A`, whose condition cannot be evaluated. -/
def unbound : Production where
  predecessor := .plain 'B'
  condition := some (.binary .gt (.var "y") (.number 1.0))
  successor := [.plain 'A']
  wellFormed := ⟨by decide, by decide, by decide, by decide⟩

/-- The production for `B` may stand before the competitors or between them. -/
def moved : Rearrangement [unbound, growing, dissolving] [growing, unbound, dissolving] where
  place := Equiv.swap (0 : Fin 3) 1
  getElem_place := by
    show ∀ i : Fin 3, _
    decide
  place_lt {i j} := by
    revert i j
    show ∀ i j : Fin 3, _
    decide

/-- Both become `AB` and then fail at the `B`, having taken two draws. -/
theorem run_of_rearrangement_moved :
    let initial := Word.ofSymbols ['A']
    let source : Replay := { draws := #[0.25, 0.75] }
    let operations := [Operation.generate, .advance 3]
    ∃ system other,
      create initial [unbound, growing, dissolving] ({ source } : Counted Replay) false =
        .ok system ∧
      create initial [growing, unbound, dissolving] ({ source } : Counted Replay) false =
        .ok other ∧
      (Bench.run { system } operations).1 =
        [.ok (some (Word.ofSymbols ['A', 'B'])), .error (.unbound "y")] ∧
      (Bench.run { system } operations).1 = (Bench.run { system := other } operations).1 ∧
      (Bench.run { system } operations).2.system.source.taken = 2 ∧
      (Bench.run { system := other } operations).2.system.source.taken = 2 := by
  have hcreate (productions : List Production) :
      create (Word.ofSymbols ['A']) productions
          ({ source := { draws := #[0.25, 0.75] } } : Counted Replay) false =
        .ok { current := Word.ofSymbols ['A'], productions,
              source := { source := { draws := #[0.25, 0.75] } } } :=
    rfl
  have hrun := run_of_rearrangement moved (hcreate _) (hcreate _) [.generate, .advance 3]
  exact ⟨_, _, hcreate _, hcreate _, by rfl, hrun.1, by rfl, hrun.2.2.2.1.symm.trans (by rfl)⟩

end LSystem

end Lindenmayer
