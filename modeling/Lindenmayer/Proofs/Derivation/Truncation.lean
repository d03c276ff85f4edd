import Lindenmayer.Proofs.Derivation.History

/-!
# Growth as a truncated run

Growing a new system is the run of steps cut off behind the first word beyond the limit: it leaves
the system where these steps leave it, and has stopped early just if they are fewer than the steps
asked for. Without a limit growing, advancing and taking items come to the same.
-/

namespace Lindenmayer.LSystem

variable {σ : Type} [DrawSource σ] {system : LSystem σ}

namespace Validated

/-- Each further item takes one step. -/
theorem iterate_next (h : system.Validated) (hstarted : system.started = true) (count : Nat) :
    (fun system : LSystem σ => system.next.2)^[count] system = system.after count := by
  induction count generalizing system with
  | zero => rfl
  | succ count ih =>
    have hdue : system.due = 1 := if_pos hstarted
    have hmark := (h.after_unchanged 1).2.trans hstarted
    rw [Function.iterate_succ_apply, h.next_eq, hdue, h.after_mark hstarted, after_succ]
    exact ih (h.after 1) hmark

end Validated

namespace IsNew

omit [DrawSource σ] in
theorem due_eq (h : system.IsNew) : system.due = 0 := by
  rw [due, h.started_eq, if_neg Bool.false_ne_true]

/-- The first item of a new system is its word. -/
theorem iterate_next (h : system.IsNew) (count : Nat) :
    (fun system : LSystem σ => system.next.2)^[count + 1] system =
      { system.after count with started := true } := by
  have hfirst : Validated { system with started := true } := h.validated
  rw [Function.iterate_succ_apply, h.validated.next_eq, h.due_eq, after_zero,
    hfirst.iterate_next rfl, after_started]

theorem generation_after (h : system.IsNew) (steps : Nat) :
    (system.after steps).generation = steps := by
  rw [(h.validated.after_unchanged steps).1, h.generation_eq, Nat.zero_add]

end IsNew

/-- Growing a new system whose productions have been checked makes as many steps as are asked for,
but no step after the first word beyond the limit, and tells whether that came first. Without a
limit it leaves what advancing leaves, and what taking one item more than there are steps leaves. -/
theorem grow_eq_truncated {initial : Word} {productions : List Production} {source : σ}
    {origin : LSystem σ} (hcreate : create initial productions source = .ok origin)
    {iterations : ℕ} (hmax : (iterations : Int) < maxCount) :
    (∀ limit : Option Int, ∃ (steps : ℕ) (stopped : Bool) (grown : LSystem σ),
      (steps : ℕ∞) = min (iterations : ℕ∞) (origin.firstBeyond limit) ∧
        (stopped = true ↔ origin.firstBeyond limit < iterations) ∧
        origin.grow iterations limit = (.ok ((origin.after steps).current, stopped), grown) ∧
        grown.generation = steps ∧ grown.current = (origin.after steps).current ∧
        grown.source = (origin.after steps).source) ∧
    (origin.grow iterations none).2 = (origin.advance iterations).2 ∧
    (fun system : LSystem σ => system.next.2)^[iterations + 1] origin =
      (origin.advance iterations).2 := by
  have hnew := isNew_of_create hcreate
  have hgrow (limit : Option Int) : ∃ steps : ℕ,
      (steps : ℕ∞) = min (iterations : ℕ∞) (origin.firstBeyond limit) ∧
        origin.grow iterations limit =
          (.ok ((origin.after steps).current, decide (steps < iterations)),
            { origin.after steps with started := true }) := by
    obtain ⟨steps, hsteps, hgrow⟩ := hnew.validated.grow_eq hmax limit
    rw [hnew.due_eq, Nat.cast_zero, zero_add, after_zero] at hsteps
    exact ⟨steps, hsteps, hgrow⟩
  refine ⟨fun limit => ?_, ?_, ?_⟩
  · obtain ⟨steps, hsteps, hgrow⟩ := hgrow limit
    have hstopped : steps < iterations ↔ origin.firstBeyond limit < iterations := by
      rw [← ENat.natCast_lt_natCast, hsteps, min_lt_iff, or_iff_right (lt_irrefl _)]
    exact ⟨steps, _, _, hsteps, decide_eq_true_iff.trans hstopped, hgrow,
      hnew.generation_after steps, rfl, rfl⟩
  · -- without a limit no word is beyond it
    obtain ⟨steps, hsteps, hgrow⟩ := hgrow none
    rw [firstBeyond_none, min_top_right] at hsteps
    obtain rfl := ENat.natCast_inj.1 hsteps
    rw [hgrow, hnew.validated.advance_eq]
  · rw [hnew.iterate_next, hnew.validated.advance_eq]

/-- The lengths of the words of `algae` are 1, 2, 3 and 5, so that the third step leads beyond 4. -/
theorem grow_eq_truncated_algae :
    create algae.current algae.productions algae.source = .ok algae ∧
      algae.firstBeyond (some 4) = 3 ∧
      (algae.grow 10 (some 4)).1 = .ok (Word.ofSymbols ['A', 'B', 'A', 'A', 'B'], true) ∧
      (algae.grow 10 (some 4)).2.source.taken = 6 ∧
      (algae.grow 10 none).2 = (algae.advance 10).2 := by
  obtain ⟨hgrow, hadvance, -⟩ :=
    @grow_eq_truncated _ _ _ _ _ _ create_algae 10 (by decide)
  obtain ⟨steps, stopped, grown, hsteps, -, hanswer, hgeneration, -⟩ := hgrow (some 4)
  have hgrown : (algae.grow 10 (some 4)).2 = grown := congrArg Prod.snd hanswer
  have hthree : steps = 3 := by
    rw [← hgeneration, ← hgrown]
    rfl
  have hfirst : algae.firstBeyond (some 4) = 3 := by
    rw [hthree] at hsteps
    rcases min_choice ((10 : ℕ) : ℕ∞) (algae.firstBeyond (some 4)) with hmin | hmin
    · rw [hmin] at hsteps
      exact absurd (ENat.natCast_inj.1 hsteps) (by decide)
    · exact hmin.symm.trans hsteps.symm
  exact ⟨create_algae, hfirst, by rfl, by rfl, hadvance⟩

end Lindenmayer.LSystem
