import Lindenmayer.Proofs.Derivation.Bound
import Lindenmayer.Proofs.Derivation.Run

/-!
# Systems whose productions are checked

No step of such a system fails, so each operation amounts to a number of steps: taking an item makes
one, except for the first item of all, and growth makes as many as its items need.
-/

namespace Lindenmayer

variable {σ : Type} [DrawSource σ]

namespace LSystem

/-- The number of steps that the next item takes: the first item of all takes none. -/
def due (system : LSystem σ) : Nat :=
  if system.started then 1 else 0

namespace Validated

variable {system : LSystem σ}

/-- A rewriting step succeeds and leads to the next generation. -/
theorem generate_eq (h : system.Validated) :
    system.generate = (.ok (system.after 1).current, system.after 1) := by
  obtain ⟨word, next, hword, -⟩ := h.generate
  obtain ⟨n, ⟨e, hfailed⟩ | ⟨current, hdone⟩⟩ := system.generate_cases
  · rw [hword] at hfailed
    exact absurd (Prod.mk.inj hfailed).1 nofun
  · rw [after_one, hdone]

/-- The generations of a validated system are validated. -/
theorem after (h : system.Validated) (steps : Nat) : (system.after steps).Validated := by
  induction steps generalizing system with
  | zero => exact h
  | succ steps ih =>
    obtain ⟨word, next, hword, hnext⟩ := h.generate
    rw [after_succ, hword]
    exact ih hnext

/-- Steps are counted in the generation, and the mark of having started stays as it is. -/
theorem after_unchanged (h : system.Validated) (steps : Nat) :
    (system.after steps).generation = system.generation + steps ∧
      (system.after steps).started = system.started := by
  have hsucceeds : ∀ i < steps, ∃ word, (system.after i).generate.1 = .ok word :=
    fun i _ => ⟨_, by rw [(h.after i).generate_eq]⟩
  obtain ⟨hgeneration, -, hstarted⟩ := after_of_succeeds hsucceeds
  exact ⟨hgeneration, hstarted⟩

/-- Steps keep the mark that the word has been given out. -/
theorem after_mark (h : system.Validated) (hstarted : system.started = true) (steps : Nat) :
    { system.after steps with started := true } = system.after steps := by
  have hmark : (system.after steps).started = true := by
    rw [(h.after_unchanged steps).2, hstarted]
  rw [← hmark]

/-- Some steps at once lead to the generation behind them. -/
theorem advance_eq (h : system.Validated) (steps : Nat) :
    system.advance steps =
      (.ok (system.after steps).current, { system.after steps with started := true }) := by
  induction steps generalizing system with
  | zero => rfl
  | succ steps ih =>
    rw [LSystem.advance, h.generate_eq]
    simp only
    rw [ih (h.after 1), Nat.add_comm, after_add]

/-- Asking for an item makes the step that is due, if there is one. -/
theorem next_eq (h : system.Validated) :
    system.next = (.ok (system.after system.due).current,
      { system.after system.due with started := true }) := by
  unfold LSystem.next due
  cases hstarted : system.started with
  | false => rfl
  | true => rw [if_pos rfl, if_pos rfl, h.after_mark hstarted, h.generate_eq]

/-- A sequence that is not over does the same, and remembers the length of its item. -/
theorem resume_eq (h : system.Validated) {sequence : Generations}
    (hover : sequence.isOver = false) :
    sequence.resume system = (.ok (some (system.after system.due).current),
      { sequence with progress := .paused (system.after system.due).current.length },
      { system.after system.due with started := true }) := by
  unfold Generations.resume
  rw [hover, if_neg Bool.false_ne_true, h.next_eq]

/-- A sequence that has given out the current word goes on until it has given out the items that
are asked for or a word beyond its limit. -/
theorem fold_eq (h : system.Validated) (hstarted : system.started = true) (limit : Option Int)
    (count : Nat) :
    ∃ steps : ℕ, (steps : ℕ∞) = min (count : ℕ∞) (system.firstBeyond limit) ∧
      Generations.fold (fun _ word => word) system.current
          { limit, progress := .paused system.current.length } system count =
        (.ok (system.after steps).current, system.after steps) := by
  induction count generalizing system with
  | zero => exact ⟨0, by rw [Nat.cast_zero, zero_min], rfl⟩
  | succ count ih =>
    by_cases hbeyond : Beyond limit system.current
    · have hover : Generations.isOver
          { limit, progress := .paused system.current.length } = true := exceeds_iff.2 hbeyond
      refine ⟨0, by rw [firstBeyond_eq_zero hbeyond, min_zero, Nat.cast_zero], ?_⟩
      rw [Generations.fold, Generations.resume, if_pos hover]
      rfl
    · have hover : Generations.isOver
          { limit, progress := .paused system.current.length } = false :=
        Bool.eq_false_iff.2 fun hexceeds => hbeyond (exceeds_iff.1 hexceeds)
      have hdue : system.due = 1 := if_pos hstarted
      have hmark := (h.after_unchanged 1).2.trans hstarted
      obtain ⟨steps, hsteps, hrest⟩ := ih (h.after 1) hmark
      refine ⟨steps + 1, ?_, ?_⟩
      · rw [firstBeyond_eq_add_one hbeyond, Nat.cast_add, Nat.cast_add, Nat.cast_one, hsteps,
          min_add_add_right]
      · rw [Generations.fold, h.resume_eq hover, hdue, h.after_mark hstarted, Nat.add_comm,
          after_add]
        exact hrest

/-- Growth gives out an item in any case. It then makes as many steps as are asked for, but stops at
the first word beyond the limit; it has stopped early if fewer steps than asked for were made. -/
theorem grow_eq (h : system.Validated) {iterations : Nat} (hmax : (iterations : Int) < maxCount)
    (limit : Option Int) :
    ∃ steps : ℕ,
      (steps : ℕ∞) =
          system.due + min (iterations : ℕ∞) ((system.after system.due).firstBeyond limit) ∧
        system.grow iterations limit =
          (.ok ((system.after steps).current, decide (steps < iterations)),
            { system.after steps with started := true }) := by
  let first := { system.after system.due with started := true }
  have hfirst : first.Validated := h.after system.due
  obtain ⟨steps, hsteps, hrest⟩ := hfirst.fold_eq rfl limit iterations
  have hafter : first.after steps =
      { system.after (system.due + steps) with started := true } := by
    rw [after_started, after_add]
  have hfold : Generations.fold (fun _ word => word) system.current { limit } system
      (iterations + 1) = (.ok (first.after steps).current, first.after steps) := by
    rw [Generations.fold, h.resume_eq rfl]
    exact hrest
  have hcount : 0 ≤ (iterations : Int) + 1 ∧ (iterations : Int) + 1 ≤ maxCount := by omega
  have hstopped : ((first.after steps).generation : Int) < system.generation + iterations ↔
      system.due + steps < iterations := by
    rw [hafter]
    show ((system.after (system.due + steps)).generation : Int) < _ ↔ _
    rw [(h.after_unchanged _).1]
    omega
  refine ⟨system.due + steps, ?_, ?_⟩
  · rw [Nat.cast_add, hsteps, firstBeyond_started]
  · unfold LSystem.grow
    simp only [if_pos hcount, Int.toNat_natCast_add_one, hfold, hstopped]
    rw [hafter]

end Validated

end LSystem

/-! ## Operations as steps -/

/-- Whether the current word counts as given out afterwards. -/
def Operation.takesItem : Operation → Bool
  | next | resume _ | advance _ | grow _ _ => true
  | generate | start _ => false

namespace Bench

/-- An operation makes a number of steps and answers the word that is current afterwards. -/
def Gives (bench : Bench σ) (operation : Operation) (steps : Nat) : Prop :=
  (bench.perform operation).1 = .ok (some (bench.perform operation).2.system.current) ∧
    (bench.perform operation).2.system = { bench.system.after steps with
      started := bench.system.started || operation.takesItem }

variable {bench : Bench σ} (h : bench.system.Validated)

include h

/-- A rewriting step counts as one. -/
theorem gives_generate : bench.Gives .generate 1 := by
  have hmark := (h.after_unchanged 1).2
  unfold Gives
  rw [perform_generate, h.generate_eq]
  refine ⟨rfl, ?_⟩
  rw [Operation.takesItem, Bool.or_false, ← hmark]

/-- Some steps at once count as many. -/
theorem gives_advance (steps : Nat) : bench.Gives (.advance steps) steps := by
  have hadvance : bench.system.advanceBy steps = _ := h.advance_eq steps
  unfold Gives
  rw [perform_advance, hadvance, Operation.takesItem, Bool.or_true]
  exact ⟨rfl, rfl⟩

/-- Asking for an item counts as the step that is due. -/
theorem gives_next : bench.Gives .next bench.system.due := by
  unfold Gives
  rw [perform_next, h.next_eq, Operation.takesItem, Bool.or_true]
  exact ⟨rfl, rfl⟩

/-- Growth counts as the steps it makes. -/
theorem gives_grow {iterations : Nat} (hmax : (iterations : Int) < LSystem.maxCount)
    (limit : Option Int) : ∃ steps, bench.Gives (.grow iterations limit) steps := by
  obtain ⟨steps, -, hgrow⟩ := h.grow_eq hmax limit
  refine ⟨steps, ?_⟩
  unfold Gives
  rw [perform_grow, hgrow, Operation.takesItem, Bool.or_true]
  exact ⟨rfl, rfl⟩

/-- Resuming a sequence counts as the step that is due. -/
theorem gives_resume {index : Nat} {sequence : Generations}
    (hsequence : bench.sequences[index]? = some sequence) (hover : sequence.isOver = false) :
    bench.Gives (.resume index) bench.system.due := by
  unfold Gives
  rw [perform_resume hsequence, h.resume_eq hover, Operation.takesItem, Bool.or_true]
  exact ⟨rfl, rfl⟩

end Bench

end Lindenmayer
