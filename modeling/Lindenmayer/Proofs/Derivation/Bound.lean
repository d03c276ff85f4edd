import Mathlib.Data.ENat.Lattice
import Lindenmayer.Derivation.Generations
import Lindenmayer.Proofs.Derivation.Generate

/-!
# Words beyond a limit

A sequence with a limit ends after the first word that is beyond it. Which generation that is depends
on the steps of the system alone: it is the least one with a longer word, if there is any.
-/

namespace Lindenmayer

/-- A word is longer than a limit, if there is one. -/
def Beyond (limit : Option Int) (word : Word) : Prop :=
  ∃ bound, limit = some bound ∧ bound < word.length

/-- Without a limit no word is beyond it. -/
@[simp]
theorem not_beyond_none (word : Word) : ¬Beyond none word :=
  fun ⟨_, hbound, _⟩ => absurd hbound nofun

/-- The comparison that the generations make is that of the length with the limit. -/
@[simp]
theorem exceeds_iff {limit : Option Int} {word : Word} :
    Generations.exceeds limit word.length = true ↔ Beyond limit word := by
  unfold Generations.exceeds Beyond
  cases limit with
  | none => exact ⟨nofun, fun ⟨_, hbound, _⟩ => absurd hbound nofun⟩
  | some bound =>
    rw [decide_eq_true_eq]
    exact ⟨fun hlt => ⟨bound, rfl, hlt⟩, fun ⟨_, hbound, hlt⟩ => Option.some.inj hbound ▸ hlt⟩

namespace LSystem

variable {σ : Type} [DrawSource σ]

/-- The number of steps to the first word that is beyond a limit; `⊤` if there is none. -/
noncomputable def firstBeyond (system : LSystem σ) (limit : Option Int) : ℕ∞ :=
  sInf {j : ℕ∞ | ∃ steps : ℕ, j = steps ∧ Beyond limit (system.after steps).current}

variable {system : LSystem σ} {limit : Option Int}

/-- Some steps are no more than up to the first word beyond the limit just if every word in front of
them is within it. -/
theorem le_firstBeyond {steps : ℕ} :
    steps ≤ system.firstBeyond limit ↔
      ∀ i < steps, ¬Beyond limit (system.after i).current := by
  unfold firstBeyond
  rw [le_sInf_iff]
  constructor
  · intro h i hi hbeyond
    exact absurd (ENat.natCast_le_natCast.1 (h i ⟨i, rfl, hbeyond⟩)) (Nat.not_le.2 hi)
  · rintro h j ⟨i, rfl, hbeyond⟩
    refine ENat.natCast_le_natCast.2 (Nat.le_of_not_lt fun hi => ?_)
    exact h i hi hbeyond

/-- Without a limit there is no first word beyond it. -/
@[simp]
theorem firstBeyond_none (system : LSystem σ) : system.firstBeyond none = ⊤ :=
  ENat.eq_top_iff_forall_ge.2 fun _ => le_firstBeyond.2 fun _ _ => not_beyond_none _

/-- A word that is beyond the limit is the first one. -/
theorem firstBeyond_eq_zero (h : Beyond limit system.current) : system.firstBeyond limit = 0 := by
  exact nonpos_iff_eq_zero.1 (sInf_le ⟨0, rfl, h⟩)

@[simp]
theorem firstBeyond_started (started : Bool) :
    { system with started }.firstBeyond limit = system.firstBeyond limit := by
  simp only [firstBeyond, after_started]

/-- If the current word is not beyond the limit, the search goes on after a step. -/
theorem firstBeyond_eq_add_one (h : ¬Beyond limit system.current) :
    system.firstBeyond limit = (system.after 1).firstBeyond limit + 1 := by
  refine ENat.eq_of_forall_natCast_le_iff fun n => ?_
  cases n with
  | zero => simp
  | succ n =>
    rw [Nat.cast_add, Nat.cast_one, ENat.add_le_add_iff_right ENat.one_ne_top, le_firstBeyond,
      ← Nat.cast_one, ← Nat.cast_add, le_firstBeyond]
    constructor
    · intro hall i hi
      rw [← after_add, Nat.add_comm]
      exact hall (i + 1) (Nat.succ_lt_succ hi)
    · intro hall i hi
      cases i with
      | zero => exact h
      | succ i =>
        rw [Nat.add_comm, after_add]
        exact hall i (Nat.lt_of_succ_lt_succ hi)

end LSystem

end Lindenmayer
