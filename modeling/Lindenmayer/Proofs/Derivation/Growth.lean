import Lindenmayer.Proofs.Derivation.Run

/-!
# Growth as a sequence

Growing a system takes items from a sequence of its own. What it does to the system is what a caller
does who opens a sequence and resumes it again and again: once it is over, resuming it further does
nothing.
-/

namespace Lindenmayer

variable {σ : Type} [DrawSource σ]

namespace Bench

theorem run_cons (bench : Bench σ) (operation : Operation) (rest : List Operation) :
    (bench.run (operation :: rest)).2 = ((bench.perform operation).2.run rest).2 :=
  rfl

/-- A sequence that gives no item is over. -/
theorem isOver_of_resume {sequence rest : Generations} {system next : LSystem σ}
    {answer : Except Error (Option Word)} (h : sequence.resume system = (answer, rest, next))
    (hanswer : ∀ word, answer ≠ .ok (some word)) : rest.isOver = true := by
  unfold Generations.resume at h
  split at h
  · obtain ⟨-, hrest⟩ := Prod.mk.inj h
    obtain rfl := (Prod.mk.inj hrest).1
    rfl
  · split at h
    · exact absurd (Prod.mk.inj h).1.symm (hanswer _)
    · obtain ⟨-, hrest⟩ := Prod.mk.inj h
      obtain rfl := (Prod.mk.inj hrest).1
      rfl

theorem perform_resume_of_isOver {bench : Bench σ} {index : Nat} {sequence : Generations}
    (hsequence : bench.sequences[index]? = some sequence) (hover : sequence.isOver = true) :
    bench.perform (.resume index) =
      (.ok none, { bench with
        sequences := bench.sequences.set index { sequence with progress := .over } }) := by
  rw [perform_resume hsequence, Generations.resume, if_pos hover]

theorem getElem?_set_sequence {sequences : List Generations} {index : Nat}
    {sequence : Generations} (h : sequences[index]? = some sequence) (rest : Generations) :
    (sequences.set index rest)[index]? = some rest := by
  obtain ⟨hlt, -⟩ := List.getElem?_eq_some_iff.1 h
  exact List.getElem?_set_self hlt

/-- A sequence that is over does nothing any more. -/
theorem run_resume_of_isOver {bench : Bench σ} {index : Nat} {sequence : Generations}
    (hsequence : bench.sequences[index]? = some sequence) (hover : sequence.isOver = true)
    (count : Nat) :
    (bench.run (List.replicate count (.resume index))).2.system = bench.system := by
  induction count generalizing bench sequence with
  | zero => rfl
  | succ count ih =>
    let next : Generations := { sequence with progress := .over }
    have hnext : (bench.sequences.set index next)[index]? = some next :=
      getElem?_set_sequence hsequence next
    rw [List.replicate_succ, run_cons, perform_resume_of_isOver hsequence hover]
    exact @ih { bench with sequences := bench.sequences.set index next } next hnext rfl

/-- Taking items from the front of a sequence does to the system what resuming it does. -/
theorem fold_eq_run {β : Type} (step : β → Word → β) (initial : β) (bench : Bench σ) {index : Nat}
    {sequence : Generations} (hsequence : bench.sequences[index]? = some sequence) (count : Nat) :
    (sequence.fold step initial bench.system count).2 =
      (bench.run (List.replicate count (.resume index))).2.system := by
  induction count generalizing bench sequence initial with
  | zero => rfl
  | succ count ih =>
    rw [List.replicate_succ, run_cons, perform_resume hsequence, Generations.fold]
    rcases hresume : sequence.resume bench.system with ⟨answer, rest, system⟩
    let next : Bench σ := { system, sequences := bench.sequences.set index rest }
    have hrest : next.sequences[index]? = some rest := getElem?_set_sequence hsequence rest
    -- without a word the sequence is over, and neither goes on
    have hstop (hanswer : ∀ word, answer ≠ .ok (some word)) :
        system = (next.run (List.replicate count (.resume index))).2.system :=
      (run_resume_of_isOver hrest (isOver_of_resume hresume hanswer) count).symm
    rcases answer with e | none | word
    · exact hstop fun word hword => by cases hword
    · exact hstop fun word hword => by cases hword
    · exact ih (step initial word) next hrest

end Bench

/-- Growth takes items from the front of a new sequence. -/
theorem LSystem.grow_eq_fold (system : LSystem σ) {iterations : Nat}
    (hmax : (iterations : Int) < maxCount) (limit : Option Int) :
    (system.grow iterations limit).2 =
      (Generations.fold (fun _ word => word) system.current { limit } system
        (iterations + 1)).2 := by
  have hcount : 0 ≤ (iterations : Int) + 1 ∧ (iterations : Int) + 1 ≤ maxCount := by omega
  unfold grow
  simp only [if_pos hcount, Int.toNat_natCast_add_one]
  split
  · rename_i hanswer
    rw [hanswer]
  · rename_i hanswer
    rw [hanswer]

namespace Bench

/-- Growth is a new sequence that is resumed once more than there are generations asked for. -/
theorem grow_eq_run (bench : Bench σ) {iterations : Nat}
    (hmax : (iterations : Int) < LSystem.maxCount) (limit : Option Int) :
    (bench.perform (.grow iterations limit)).2.system =
      (bench.run (.start limit ::
        List.replicate (iterations + 1) (.resume bench.sequences.length))).2.system := by
  let opened : Bench σ := { bench with sequences := bench.sequences ++ [{ limit }] }
  have hstart : (bench.perform (.start limit)).2 = opened := rfl
  have hsequence : opened.sequences[bench.sequences.length]? = some { limit } :=
    List.getElem?_concat_length
  have hfold := fold_eq_run (fun _ word => word) bench.system.current opened hsequence
    (iterations + 1)
  rw [run_cons, hstart, ← hfold, system_perform_grow, LSystem.grow_eq_fold bench.system hmax]

end Bench

end Lindenmayer
