import Lindenmayer.Grammar.Coverage

/-!
# Sums of groups

Productions with one predecessor make up one group, whose sum is that of their probabilities from
left to right.
-/

namespace Lindenmayer.Grammar

@[simp]
theorem addTo_self (key : PredecessorKey) (probability sum : Float)
    (rest : List (PredecessorKey × Float)) :
    addTo key probability ((key, sum) :: rest) = (key, sum + probability) :: rest := by
  rw [addTo, if_pos (beq_self_eq_true key)]

theorem addTo_of_ne {key other : PredecessorKey} (h : other ≠ key) (probability sum : Float)
    (rest : List (PredecessorKey × Float)) :
    addTo key probability ((other, sum) :: rest) = (other, sum) :: addTo key probability rest := by
  rw [addTo, if_neg (by simpa using h)]

/-- Probabilities of one group are added to its sum one after another. -/
theorem foldl_addTo {key : PredecessorKey} {productions : List Production}
    (h : ∀ p ∈ productions, p.key = key) (sum : Float) :
    productions.foldl (fun sums p => addTo p.key p.probability sums) [(key, sum)] =
      [(key, (productions.map (·.probability)).foldl (· + ·) sum)] := by
  induction productions generalizing sum with
  | nil => rfl
  | cons p productions ih =>
    rw [List.foldl_cons, h p List.mem_cons_self, addTo_self]
    exact ih (fun q hq => h q (List.mem_cons_of_mem p hq)) (sum + p.probability)

/-- Unconditional productions with one predecessor are a single group. -/
theorem foldl_addTo_nil {key : PredecessorKey} {productions : List Production}
    (h : ∀ p ∈ productions, p.key = key) (hne : productions ≠ []) :
    productions.foldl (fun sums p => addTo p.key p.probability sums) [] =
      [(key, (productions.map (·.probability)).foldl (· + ·) 0.0)] := by
  obtain ⟨p, rest, rfl⟩ := List.exists_cons_of_ne_nil hne
  rw [List.foldl_cons, h p List.mem_cons_self]
  exact foldl_addTo (fun q hq => h q (List.mem_cons_of_mem p hq)) (0.0 + p.probability)

/-- Conditional productions belong to no group. -/
theorem unbalancedGroups_of_conditional {g : Grammar}
    (h : ∀ p ∈ g.productions, p.isUnconditional = false) : g.unbalancedGroups = [] := by
  have hnone : g.productions.filter (·.isUnconditional) = [] :=
    List.filter_eq_nil_iff.2 fun p hp => by simp [h p hp]
  rw [unbalancedGroups, groupSums, hnone]
  rfl

/-- Unconditional productions are all counted. -/
theorem groupSums_of_unconditional {g : Grammar}
    (h : ∀ p ∈ g.productions, p.isUnconditional = true) :
    g.groupSums = g.productions.foldl (fun sums p => addTo p.key p.probability sums) [] := by
  rw [groupSums, List.filter_eq_self.2 h]

end Lindenmayer.Grammar
