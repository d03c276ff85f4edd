import Lindenmayer.Proofs.Derivation.Reach

/-!
# Steps that fail

A step can fail at any element, when part of the next word has already been put together. It leaves
the system as it was but for the draws: what had been put together is dropped, so nothing of it can
get into a later word. Where several steps are made, those before the failing one stand.
-/

namespace Lindenmayer

variable {σ : Type} [DrawSource σ]

open DrawSource (skip)

/-! ## The step that fails -/

/-- Whether an operation makes one step at most. -/
def Operation.isSingle : Operation → Bool
  | generate | next | resume _ => true
  | start _ | advance _ | grow _ _ => false

theorem LSystem.generate_error_of_next {system next : LSystem σ} {e : Error}
    (h : system.next = (.error e, next)) : system.generate = (.error e, next) := by
  unfold LSystem.next at h
  split at h
  · exact h
  · exact absurd (Prod.mk.inj h).1 nofun

theorem Generations.generate_error_of_resume {sequence rest : Generations}
    {system next : LSystem σ} {e : Error}
    (h : sequence.resume system = (.error e, rest, next)) :
    system.generate = (.error e, next) := by
  unfold resume at h
  split at h
  · exact absurd (Prod.mk.inj h).1 nofun
  · split at h
    · exact absurd (Prod.mk.inj h).1 nofun
    · rename_i hnext
      obtain ⟨he, hrest⟩ := Prod.mk.inj h
      obtain rfl := Except.error.inj he
      obtain rfl := (Prod.mk.inj hrest).2
      exact LSystem.generate_error_of_next hnext

/-- An operation of at most one step fails only if its step does. -/
theorem Bench.generate_error_of_perform {bench next : Bench σ} {operation : Operation} {e : Error}
    (hsingle : operation.isSingle) (h : bench.perform operation = (.error e, next)) :
    bench.system.generate = (.error e, next.system) := by
  cases operation with
  | generate =>
    obtain ⟨hanswer, rfl⟩ := Prod.mk.inj (bench.perform_generate ▸ h)
    exact Prod.ext (map_eq_error.1 hanswer) rfl
  | next =>
    obtain ⟨hanswer, rfl⟩ := Prod.mk.inj (bench.perform_next ▸ h)
    exact LSystem.generate_error_of_next (Prod.ext (map_eq_error.1 hanswer) rfl)
  | resume index =>
    cases hsequence : bench.sequences[index]? with
    | none =>
      rw [perform_resume_of_none hsequence] at h
      exact absurd (Prod.mk.inj h).1 nofun
    | some sequence =>
      rw [perform_resume hsequence] at h
      obtain ⟨hanswer, rfl⟩ := Prod.mk.inj h
      exact Generations.generate_error_of_resume (Prod.ext hanswer rfl)
  | start limit => exact absurd hsingle nofun
  | advance steps => exact absurd hsingle nofun
  | grow iterations limit => exact absurd hsingle nofun

namespace LSystem

/-- If one of several steps fails, it is the first that does, and no further one is tried. -/
theorem exists_failed_step {system next : LSystem σ} {steps : Nat} {e : Error}
    (h : system.advance steps = (.error e, next)) :
    ∃ done < steps, (∀ i < done, ∃ word, (system.after i).generate.1 = .ok word) ∧
      (system.after done).generate = (.error e, next) := by
  induction steps generalizing system with
  | zero => exact absurd (Prod.mk.inj h).1 nofun
  | succ steps ih =>
    rw [advance] at h
    rcases hfirst : system.generate with ⟨e' | word, between⟩
    · rw [hfirst] at h
      exact ⟨0, steps.succ_pos, fun i hi => absurd hi i.not_lt_zero, hfirst.trans h⟩
    · rw [hfirst] at h
      obtain ⟨done, hdone, hbefore, hfailed⟩ := ih h
      have hafter (i : Nat) : system.after (i + 1) = between.after i := by
        rw [after_succ, hfirst]
      refine ⟨done + 1, Nat.succ_lt_succ hdone, fun i hi => ?_, by rw [hafter]; exact hfailed⟩
      cases i with
      | zero => exact ⟨word, by rw [after_zero, hfirst]⟩
      | succ i => rw [hafter]; exact hbefore i (Nat.lt_of_succ_lt_succ hi)

end LSystem

/-! ## Nothing but draws is lost -/

/-- In a reachable state an operation of at most one step that fails only uses up draws: nothing is
pending, the next step is that of a new system for the same word with the draws that are left, and
so is all that follows the same as if the draws had been passed over. If one of several steps fails,
the system is left as it is after those before it, but for the draws. -/
theorem LSystem.failure_is_atomic {bench : Bench σ} (hreach : bench.IsReachable) (e : Error)
    (next : Bench σ) :
    (∀ operation : Operation, operation.isSingle → bench.perform operation = (.error e, next) →
      ∃ n, next.system = { bench.system with source := skip bench.system.source n } ∧
        next.system.pending = #[] ∧
        (∃ fresh, create bench.system.current bench.system.productions
            (skip bench.system.source n) false = .ok fresh ∧
          next.system.generate.1 = fresh.generate.1 ∧
          next.system.generate.2.current = fresh.generate.2.current ∧
          next.system.generate.2.source = fresh.generate.2.source) ∧
        ∀ later, next.run later =
          Bench.run { next with
            system := { bench.system with source := skip bench.system.source n } } later) ∧
    ∀ steps : Int, e.kind.isSystem → bench.perform (.advance steps) = (.error e, next) →
      ∃ done : Nat, done < steps ∧
        (∀ i < done, ∃ word, (bench.system.after i).generate.1 = .ok word) ∧
        (bench.system.after done).generate.1 = .error e ∧
        next.system.current = (bench.system.after done).current ∧
        next.system.generation = bench.system.generation + done ∧
        next.system.productions = bench.system.productions ∧
        next.system.started = bench.system.started ∧
        next.system.pending = #[] := by
  refine ⟨fun operation hsingle h => ?_, fun steps hkind h => ?_⟩
  · have hfailed := Bench.generate_error_of_perform hsingle h
    obtain ⟨n, hnext⟩ := exists_skip_of_generate_error hreach.pending_eq hfailed
    have hpending : next.system.pending = #[] := by
      rw [hnext]
      exact hreach.pending_eq
    refine ⟨n, hnext, hpending, ⟨_, rfl, ?_⟩, fun later => by rw [← hnext]⟩
    exact generate_congr (by rw [hnext]) (by rw [hnext]) (by rw [hnext]) hpending
  · rw [Bench.perform_advance] at h
    obtain ⟨hanswer, rfl⟩ := Prod.mk.inj h
    have hfailed := map_eq_error.1 hanswer
    cases steps with
    | negSucc n =>
      -- a negative number of steps is refused, which is no error of the system
      obtain rfl := Except.error.inj hfailed
      exact absurd hkind nofun
    | ofNat steps =>
      have hadvance : bench.system.advance steps =
          (.error e, (bench.system.advanceBy (.ofNat steps)).2) :=
        Prod.ext hfailed rfl
      obtain ⟨done, hdone, hbefore, hfailed⟩ := exists_failed_step hadvance
      obtain ⟨hgeneration, hproductions, hstarted⟩ := after_of_succeeds hbefore
      have hpending := pending_after hreach.pending_eq done
      obtain ⟨n, hnext⟩ := exists_skip_of_generate_error hpending hfailed
      refine ⟨done, Int.ofNat_lt.2 hdone, hbefore, by rw [hfailed], ?_⟩
      rw [hnext]
      exact ⟨rfl, hgeneration, hproductions, hstarted, hpending⟩

/-- The word `A` with the productions `A = AB` and `B = C(y)`, the last of which always fails. -/
def LSystem.faulty : LSystem Replay where
  current := Word.ofSymbols ['A']
  productions := [
    { predecessor := .plain 'A'
      successor := [.plain 'A', .plain 'B']
      wellFormed := ⟨by decide, by decide, by decide, by decide⟩ },
    { predecessor := .plain 'B'
      successor := [⟨'C', ⟨[.var "y"], by decide⟩⟩]
      wellFormed := ⟨by decide, by decide, by decide, by decide⟩ }]
  source := { draws := #[0.25, 0.5, 0.75] }

/-- Of three steps of `faulty` the second fails. -/
def Bench.stuck : Bench Replay :=
  (perform { system := LSystem.faulty } (.advance 3)).2

/-- The second of the three steps fails at the second element of `AB`, and so does another
attempt. -/
theorem LSystem.failure_is_atomic_stuck :
    Bench.IsReachable { system := faulty } ∧
      Bench.perform { system := faulty } (.advance 3) = (.error (.unbound "y"), Bench.stuck) ∧
      (∃ done : Nat, done < (3 : Int) ∧ Bench.stuck.system.current = (faulty.after done).current ∧
        Bench.stuck.system.generation = faulty.generation + done) ∧
      Bench.stuck.system.current = Word.ofSymbols ['A', 'B'] ∧ Bench.stuck.IsReachable ∧
      Bench.stuck.perform .generate =
        (.error (.unbound "y"), (Bench.stuck.perform .generate).2) ∧
      ∃ n, (Bench.stuck.perform .generate).2.system =
        { Bench.stuck.system with source := skip Bench.stuck.system.source n } := by
  have hstart : Bench.IsReachable { system := faulty } := ⟨_, _, _, false, faulty, [], rfl, rfl⟩
  have hstuck : Bench.stuck.IsReachable := ⟨_, _, _, false, faulty, [.advance 3], rfl, rfl⟩
  have hadvance : (Bench.perform { system := faulty } (.advance 3)).1 = .error (.unbound "y") := by
    rfl
  have hgenerate : (Bench.stuck.perform .generate).1 = .error (.unbound "y") := by rfl
  have hadvanced := Prod.ext (y := (_, Bench.stuck)) hadvance rfl
  have hgenerated := Prod.ext (y := (_, (Bench.stuck.perform .generate).2)) hgenerate rfl
  obtain ⟨done, hdone, -, -, hcurrent, hgeneration, -⟩ :=
    (failure_is_atomic hstart _ _).2 3 rfl hadvanced
  obtain ⟨n, hnext, -⟩ := (failure_is_atomic hstuck _ _).1 .generate rfl hgenerated
  exact ⟨hstart, hadvanced, ⟨done, hdone, hcurrent, hgeneration⟩, by rfl, hstuck, hgenerated, n,
    hnext⟩

end Lindenmayer
