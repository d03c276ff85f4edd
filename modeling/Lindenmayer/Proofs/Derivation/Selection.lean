import Lindenmayer.Proofs.Derivation.History
import Lindenmayer.Proofs.Number.Total

/-!
# How a draw selects a production

The running totals of the productions that apply at a site cut the numbers from 0 to 1 into parts, one
for each production in the order of declaration. Totals never go down, so the place of the production
that a draw falls to is found by comparing the draw with single totals.
-/

namespace Lindenmayer

open Binary64 (IsNonneg IsTotal)

/-! ## Running totals -/

@[simp]
theorem runningTotal_append (total : Float) (left right : List Production) :
    runningTotal total (left ++ right) = runningTotal (runningTotal total left) right :=
  List.foldl_append

theorem runningTotal_take_succ {total : Float} {productions : List Production} {i : Nat}
    {p : Production} (h : productions[i]? = some p) :
    runningTotal total (productions.take (i + 1)) =
      runningTotal total (productions.take i) + p.probability := by
  rw [List.take_add_one, h, runningTotal_append]
  rfl

section
variable {total : Float} (htotal : IsTotal total) (productions : List Production)

include htotal

theorem isTotal_runningTotal :
    IsTotal (runningTotal total productions) ∧ total ≤ runningTotal total productions := by
  induction productions generalizing total with
  | nil => exact ⟨htotal, htotal.magnitude.isNonneg.le_refl⟩
  | cons p rest ih =>
    obtain ⟨hnext, hle⟩ :=
      htotal.add p.wellFormed.probability_nonneg p.wellFormed.probability_le_one
    obtain ⟨hlast, hle'⟩ := ih hnext
    exact ⟨hlast, htotal.magnitude.isNonneg.le_trans hnext.magnitude.isNonneg
      hlast.magnitude.isNonneg hle hle'⟩

theorem isNonneg_runningTotal : IsNonneg (runningTotal total productions) :=
  (isTotal_runningTotal htotal productions).1.magnitude.isNonneg

end

/-! ## The place that a draw falls to -/

/-- The number of productions that a draw passes before it falls to one; it passes all of them if it
falls to none. -/
def passed (draw total : Float) : List Production → Nat
  | [] => 0
  | p :: rest =>
    if draw < total + p.probability then 0 else passed draw (total + p.probability) rest + 1

theorem passed_le_length (draw total : Float) (productions : List Production) :
    passed draw total productions ≤ productions.length := by
  induction productions generalizing total with
  | nil => exact Nat.le_refl 0
  | cons p rest ih =>
    rw [passed]
    split
    · exact Nat.zero_le _
    · exact Nat.succ_le_succ (ih _)

/-- What is selected is the production behind those that are passed. -/
theorem select_eq_passed (draw total : Float) (productions : List Production) :
    select draw total productions =
      match productions[passed draw total productions]? with
      | some p => .selected p
      | none => .beyond (runningTotal total productions) := by
  induction productions generalizing total with
  | nil => rfl
  | cons p rest ih =>
    rw [select, passed]
    by_cases h : draw < total + p.probability
    · simp only [if_pos h]
      rfl
    · simp only [if_neg h]
      exact ih _

section
variable {draw total : Float} (hdraw : IsNonneg draw) (htotal : IsTotal total)
  (productions : List Production)

include hdraw htotal

/-- A draw passes no more productions than up to some place just if the total there exceeds it. -/
theorem passed_le_iff {i : Nat} (hi : i < productions.length) :
    passed draw total productions ≤ i ↔
      draw < runningTotal total (productions.take (i + 1)) := by
  induction productions generalizing total i with
  | nil => exact absurd hi (Nat.not_lt_zero i)
  | cons p rest ih =>
    obtain ⟨hnext, -⟩ :=
      htotal.add p.wellFormed.probability_nonneg p.wellFormed.probability_le_one
    rw [passed, List.take_succ_cons]
    change _ ↔ draw < runningTotal (total + p.probability) (rest.take i)
    split
    · -- once the draw is exceeded, it stays so
      rename_i habove
      refine ⟨fun _ => ?_, fun _ => Nat.zero_le i⟩
      exact hdraw.lt_of_lt_of_le hnext.magnitude.isNonneg
        (isNonneg_runningTotal hnext _) habove (isTotal_runningTotal hnext _).2
    · rename_i hbelow
      cases i with
      | zero => exact ⟨fun h => absurd h (Nat.not_succ_le_zero _), fun h => absurd h hbelow⟩
      | succ i => rw [Nat.succ_le_succ_iff, ih hnext (Nat.lt_of_succ_lt_succ hi)]

/-- A draw falls to none just if it is at least the total of all productions. -/
theorem passed_eq_length_iff (hne : productions ≠ []) :
    passed draw total productions = productions.length ↔
      runningTotal total productions ≤ draw := by
  have hpos := List.length_pos_iff.2 hne
  have hle := passed_le_length draw total productions
  have hlast := passed_le_iff hdraw htotal productions (i := productions.length - 1) (by omega)
  rw [Nat.sub_add_cancel hpos, List.take_length] at hlast
  rw [← hdraw.not_lt (isNonneg_runningTotal htotal productions), ← hlast]
  omega

end

/-- A production of probability 0 leaves no room between two totals. -/
theorem probability_ne_zero_of_passed {draw : Float} (hdraw : IsNonneg draw)
    {productions : List Production} {p : Production}
    (h : productions[passed draw 0.0 productions]? = some p) : ¬p.probability == 0.0 := by
  intro hzero
  have hlt := (List.getElem?_eq_some_iff.1 h).1
  have htotal := Binary64.isTotal_zero
  have habove := (passed_le_iff hdraw htotal productions hlt).1 (Nat.le_refl _)
  have hbefore := isTotal_runningTotal htotal (productions.take (passed draw 0.0 productions))
  have hprobability := Binary64.isNonneg_of_range Binary64.isMagnitude_one
    p.wellFormed.probability_nonneg p.wellFormed.probability_le_one
  have hcode := (hprobability.beq_iff Binary64.isMagnitude_zero.isNonneg).1 hzero
  rw [runningTotal_take_succ h, hbefore.1.magnitude.add_zero hprobability hcode] at habove
  cases hplace : passed draw 0.0 productions with
  | zero =>
    -- no draw is below 0
    rw [hplace] at habove
    exact absurd ((hdraw.lt_iff Binary64.isMagnitude_zero.isNonneg).1 habove) (Nat.not_lt_zero _)
  | succ i =>
    rw [hplace] at habove
    have hle := (passed_le_iff hdraw htotal productions (by omega)).2 habove
    omega

/-- The higher a draw, the later the production that it falls to. -/
theorem passed_mono {draw draw' : Float} (hdraw : IsNonneg draw) (hdraw' : IsNonneg draw')
    (hle : draw ≤ draw') (productions : List Production) :
    passed draw 0.0 productions ≤ passed draw' 0.0 productions := by
  have htotal := Binary64.isTotal_zero
  rcases Nat.lt_or_ge (passed draw' 0.0 productions) productions.length with hlt | hge
  · have habove := (passed_le_iff hdraw' htotal productions hlt).1 (Nat.le_refl _)
    rw [passed_le_iff hdraw htotal productions hlt]
    exact hdraw.lt_of_le_of_lt hdraw' (isNonneg_runningTotal htotal _) hle habove
  · exact Nat.le_trans (passed_le_length draw 0.0 productions) hge

/-! ## Steps -/

variable {σ : Type} [DrawSource σ]

/-- A step at a site at which all conditions have values, with the place that the draw falls to. -/
theorem deriveAt_run_passed {productions : List Production} {site : Site (Element Float)}
    (hdecided : ∀ p ∈ productions, ∃ applies, p.applies site = .ok applies) (source : σ) :
    (deriveAt productions site).run source =
      let found := matching productions site
      let draw := (DrawSource.draw source).1
      if found = [] then (.ok (.unmatched site.item), source)
      else
        match found[passed draw 0.0 found]? with
        | some p => ((p.replace site).map .replaced, (DrawSource.draw source).2)
        | none => (.ok (.uncovered site.item draw (runningTotal 0.0 found)),
            (DrawSource.draw source).2) := by
  rw [deriveAt_run, candidates_eq_ok.2 ⟨hdecided, rfl⟩]
  simp only
  generalize matching productions site = found
  cases found with
  | nil => rfl
  | cons p rest =>
    simp only [select_eq_passed, reduceCtorEq, ↓reduceIte]
    split <;> split <;> simp_all

/-- A number from 0 to 1 that is not 1. -/
structure IsDraw (draw : Float) : Prop where
  nonneg : 0.0 ≤ draw
  lt_one : draw < 1.0

theorem IsDraw.isNonneg {draw : Float} (h : IsDraw draw) : IsNonneg draw :=
  Binary64.isNonneg_of_range Binary64.isMagnitude_one h.nonneg (Binary64.le_of_lt h.lt_one)

/-- How the running totals of the productions that apply decide on the place of a draw among them. -/
structure IsPlace (found : List Production) (draw : Float) (place : Nat) : Prop where
  le_length : place ≤ found.length
  /-- A production of probability 0 is not selected. -/
  probability_ne_zero : ∀ p, found[place]? = some p → ¬p.probability == 0.0
  /-- One of the productions up to the first total that reaches 1 is selected. -/
  lt_of_one_le : ∀ i, 1 ≤ i → i ≤ found.length →
    1.0 ≤ runningTotal 0.0 (found.take i) → place < i
  /-- None is selected just if the draw is at least the total of all. -/
  eq_length_iff : 1 ≤ found.length → (place = found.length ↔ runningTotal 0.0 found ≤ draw)

/-- What a step does at a site if the draw falls to a place among the productions that apply. -/
structure IsStepTo (productions : List Production) (site : Site (Element Float))
    (source : Counted σ) (place : Nat) : Prop where
  /-- A draw is taken just if productions apply. -/
  taken_eq : ((deriveAt productions site).run source).2.taken =
    source.taken + if 1 ≤ (matching productions site).length then 1 else 0
  selected : ∀ p, (matching productions site)[place]? = some p →
    ((deriveAt productions site).run source).1 = (p.replace site).map .replaced
  beyond : (matching productions site)[place]? = none →
    ((deriveAt productions site).run source).1 = .ok (
      if matching productions site = [] then .unmatched site.item
      else .uncovered site.item (DrawSource.draw source).1
        (runningTotal 0.0 (matching productions site)))

theorem isPlace_passed {draw : Float} (hdraw : IsDraw draw) (found : List Production) :
    IsPlace found draw (passed draw 0.0 found) where
  le_length := passed_le_length draw 0.0 found
  probability_ne_zero := fun _ => probability_ne_zero_of_passed hdraw.isNonneg
  lt_of_one_le := by
    intro i hi hlength hone
    have htotal := Binary64.isTotal_zero
    have hplace := passed_le_iff hdraw.isNonneg htotal found (i := i - 1) (by omega)
    rw [Nat.sub_add_cancel hi] at hplace
    have habove := hdraw.isNonneg.lt_of_lt_of_le Binary64.isMagnitude_one.isNonneg
      (isNonneg_runningTotal htotal (found.take i)) hdraw.lt_one hone
    have hle := hplace.2 habove
    omega
  eq_length_iff := fun hlength =>
    passed_eq_length_iff hdraw.isNonneg Binary64.isTotal_zero found
      (List.length_pos_iff.1 hlength)

theorem isStepTo_passed {productions : List Production} {site : Site (Element Float)}
    (hdecided : ∀ p ∈ productions, ∃ applies, p.applies site = .ok applies) (source : Counted σ) :
    IsStepTo productions site source
      (passed (DrawSource.draw source).1 0.0 (matching productions site)) := by
  have hrun := deriveAt_run_passed hdecided source
  simp only at hrun
  by_cases hnil : matching productions site = []
  · rw [if_pos hnil] at hrun
    refine ⟨?_, fun p hp => ?_, fun _ => ?_⟩
    · rw [hrun, hnil]
      rfl
    · rw [hnil] at hp
      exact absurd hp nofun
    · rw [hrun, if_pos hnil]
  · have hpos : 1 ≤ (matching productions site).length := List.length_pos_iff.2 hnil
    rw [if_neg hnil] at hrun
    refine ⟨?_, fun p hp => ?_, fun hnone => ?_⟩
    · rw [hrun, if_pos hpos]
      split <;> rfl
    · rw [hrun, hp]
    · rw [hrun, hnone, if_neg hnil]

/-- At a site at which all conditions have values, the running totals of the productions that apply
partition the draws: each falls to the first production whose total exceeds it, and a higher one to
no earlier production. -/
theorem draws_are_partitioned {productions : List Production} {site : Site (Element Float)}
    (hdecided : ∀ p ∈ productions, ∃ applies, p.applies site = .ok applies)
    {source source' : Counted σ} (hdraw : IsDraw (DrawSource.draw source).1)
    (hdraw' : IsDraw (DrawSource.draw source').1)
    (hle : (DrawSource.draw source).1 ≤ (DrawSource.draw source').1) :
    let found := matching productions site
    let place := passed (DrawSource.draw source).1 0.0 found
    let place' := passed (DrawSource.draw source').1 0.0 found
    IsStepTo productions site source place ∧ IsPlace found (DrawSource.draw source).1 place ∧
      place ≤ place' :=
  ⟨isStepTo_passed hdecided source, isPlace_passed hdraw _,
    passed_mono hdraw.isNonneg hdraw'.isNonneg hle _⟩

/-- The productions `A~0 = B`, `A~0.25 = C`, `A~0.75 = D` and `A = E`, of which only the second and the
third are ever selected. -/
def weighted : List Production := [
  { predecessor := .plain 'A'
    successor := [.plain 'B']
    probability := 0.0
    wellFormed := ⟨by decide, by decide, by decide, by decide⟩ },
  { predecessor := .plain 'A'
    successor := [.plain 'C']
    probability := 0.25
    wellFormed := ⟨by decide, by decide, by decide, by decide⟩ },
  { predecessor := .plain 'A'
    successor := [.plain 'D']
    probability := 0.75
    wellFormed := ⟨by decide, by decide, by decide, by decide⟩ },
  { predecessor := .plain 'A'
    successor := [.plain 'E']
    wellFormed := ⟨by decide, by decide, by decide, by decide⟩ }]

/-- The draw 0.25 is not below the total 0.25, so it falls to the third production like 0.875. -/
theorem draws_are_partitioned_weighted :
    let site : Site (Element Float) := ⟨none, .plain 'A', none⟩
    let low : Counted Replay := { source := { draws := #[0.25] } }
    let high : Counted Replay := { source := { draws := #[0.875] } }
    (∀ p ∈ weighted, ∃ applies, p.applies site = .ok applies) ∧
      IsDraw (DrawSource.draw low).1 ∧ IsDraw (DrawSource.draw high).1 ∧
      (DrawSource.draw low).1 ≤ (DrawSource.draw high).1 ∧
      ((deriveAt weighted site).run low).1 = .ok (.replaced (Word.ofSymbols ['D'])) ∧
      ((deriveAt weighted site).run low).2.taken = 1 ∧
      passed (DrawSource.draw low).1 0.0 weighted < 3 ∧
      passed (DrawSource.draw low).1 0.0 weighted ≤
        passed (DrawSource.draw high).1 0.0 weighted := by
  intro site low high
  have hdecided : ∀ p ∈ weighted, ∃ applies, p.applies site = .ok applies := by
    refine List.forall_mem_cons.2 ⟨⟨true, rfl⟩, List.forall_mem_cons.2 ⟨⟨true, rfl⟩,
      List.forall_mem_cons.2 ⟨⟨true, rfl⟩, List.forall_mem_singleton.2 ⟨true, rfl⟩⟩⟩⟩
  have hlow : IsDraw (DrawSource.draw low).1 := ⟨by decide, by decide⟩
  have hhigh : IsDraw (DrawSource.draw high).1 := ⟨by decide, by decide⟩
  have hle : (DrawSource.draw low).1 ≤ (DrawSource.draw high).1 := by decide
  obtain ⟨hstep, hplace, hmono⟩ := draws_are_partitioned hdecided hlow hhigh hle
  have hselected := hstep.selected weighted[2] (by decide +kernel)
  refine ⟨hdecided, hlow, hhigh, hle, hselected, hstep.taken_eq, ?_, hmono⟩
  exact hplace.lt_of_one_le 3 (by decide) (by decide) (by decide)

end Lindenmayer
