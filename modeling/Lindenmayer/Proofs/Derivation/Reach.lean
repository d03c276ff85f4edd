import Mathlib.Data.List.Forall2
import Lindenmayer.Proofs.Derivation.Run

/-!
# States that can be reached

All operations change a system by steps and by noting that its word has been given out, so what
these two preserve holds of every state that a caller can bring about. In particular nothing is
pending between operations, and a step that succeeds rewrites the word in parallel.
-/

namespace Lindenmayer

variable {σ : Type} [DrawSource σ]

open DrawSource (skip nth)

/-! ## What all operations preserve -/

section

variable {P : LSystem σ → Prop} (hgenerate : ∀ system, P system → P system.generate.2)
  (hstarted : ∀ system, P system → P { system with started := true })

include hgenerate hstarted

namespace LSystem

variable {system : LSystem σ}

/-- Asking for an item keeps up what rewriting steps keep up. -/
theorem next_induction (h : P system) : P system.next.2 := by
  unfold next
  split
  · exact hgenerate system h
  · exact hstarted system h

/-- So do some steps at once. -/
theorem advance_induction (h : P system) (steps : Nat) : P (system.advance steps).2 := by
  induction steps generalizing system with
  | zero => exact hstarted system h
  | succ steps ih =>
    have hnext := hgenerate system h
    rw [advance]
    generalize system.generate = answer at hnext ⊢
    obtain ⟨e | word, next⟩ := answer
    · exact hnext
    · exact ih hnext

/-- It makes no difference that their number is checked first. -/
theorem advanceBy_induction (h : P system) (steps : Int) : P (system.advanceBy steps).2 := by
  cases steps with
  | ofNat n => exact advance_induction hgenerate hstarted h n
  | negSucc n => exact h

/-- Resuming a sequence makes no other steps. -/
theorem resume_induction (h : P system) (sequence : Generations) :
    P (sequence.resume system).2.2 := by
  have hnext := next_induction hgenerate hstarted h
  unfold Generations.resume
  split
  · exact h
  · generalize system.next = answer at hnext ⊢
    obtain ⟨e | word, next⟩ := answer <;> exact hnext

/-- Nor does taking several items. -/
theorem fold_induction {β : Type} (h : P system) (step : β → Word → β) (initial : β)
    (sequence : Generations) (count : Nat) : P (sequence.fold step initial system count).2 := by
  induction count generalizing system sequence initial with
  | zero => exact h
  | succ count ih =>
    have hresume := resume_induction hgenerate hstarted h sequence
    rw [Generations.fold]
    generalize sequence.resume system = answer at hresume ⊢
    obtain ⟨e | word, rest, next⟩ := answer
    · exact hresume
    · cases word with
      | none => exact hresume
      | some word => exact ih hresume (step initial word) rest

/-- Nor does growth. -/
theorem grow_induction (h : P system) (iterations : Int) (limit : Option Int) :
    P (system.grow iterations limit).2 := by
  unfold grow
  simp only
  split
  · have hfold := fold_induction hgenerate hstarted h (fun _ word => word) system.current
      { limit } (iterations + 1).toNat
    split
    · rename_i hanswer
      rw [hanswer] at hfold
      exact hfold
    · rename_i hanswer
      rw [hanswer] at hfold
      exact hfold
  · exact h

end LSystem

namespace Bench

open LSystem

/-- What a step and the note that the word has been given out preserve, an operation preserves. -/
theorem perform_induction {bench : Bench σ} (h : P bench.system) (operation : Operation) :
    P (bench.perform operation).2.system := by
  cases operation with
  | generate => exact hgenerate _ h
  | next => exact next_induction hgenerate hstarted h
  | advance steps => exact advanceBy_induction hgenerate hstarted h steps
  | start limit => exact h
  | resume index =>
    unfold perform
    simp only
    split
    · exact h
    · exact resume_induction hgenerate hstarted h _
  | grow iterations limit => exact grow_induction hgenerate hstarted h iterations limit

/-- Hence a run preserves it, by induction on the operations. -/
theorem run_induction {bench : Bench σ} (h : P bench.system) (operations : List Operation) :
    P (bench.run operations).2.system := by
  induction operations generalizing bench with
  | nil => exact h
  | cons operation rest ih => exact ih (perform_induction hgenerate hstarted h operation)

end Bench

end

/-! ## Reachable states -/

/-- A caller can bring about the state on a new system, whether its productions are checked or
not. -/
def Bench.IsReachable (bench : Bench σ) : Prop :=
  ∃ initial productions source validate system operations,
    LSystem.create initial productions source validate = .ok system ∧
      (run { system } operations).2 = bench

/-- No rewriting step leaves anything on the scratch list. -/
theorem LSystem.pending_generate (system : LSystem σ) : system.generate.2.pending = #[] := by
  obtain ⟨n, ⟨e, h⟩ | ⟨current, h⟩⟩ := system.generate_cases
  · rw [h]
  · rw [h]

theorem LSystem.pending_after {system : LSystem σ} (h : system.pending = #[]) (steps : Nat) :
    (system.after steps).pending = #[] := by
  cases steps with
  | zero => exact h
  | succ steps =>
    rw [after_add]
    exact pending_generate _

omit [DrawSource σ] in
/-- A system is made unless its productions are checked and fail. -/
theorem LSystem.create_eq_ok {initial : Word} {productions : List Production} {source : σ}
    {validate : Bool} {system : LSystem σ} :
    create initial productions source validate = .ok system ↔
      (validate = true → validateAll productions = .ok ()) ∧
        system = { current := initial, productions, source } := by
  cases validate with
  | false =>
    constructor
    · intro h
      exact ⟨nofun, (Except.ok.inj h).symm⟩
    · rintro ⟨-, rfl⟩
      rfl
  | true =>
    constructor
    · intro h
      obtain ⟨_, hchecked, hsystem⟩ := bind_eq_ok.1 h
      exact ⟨fun _ => hchecked, (Except.ok.inj hsystem).symm⟩
    · rintro ⟨hchecked, rfl⟩
      exact bind_eq_ok.2 ⟨(), hchecked rfl, rfl⟩

omit [DrawSource σ] in
/-- The error of a system that is not made is that of the check. -/
theorem LSystem.create_eq_error {initial : Word} {productions : List Production} {source : σ}
    {validate : Bool} {e : Error} :
    create initial productions source validate = .error e ↔
      validate = true ∧ validateAll productions = .error e := by
  cases validate with
  | false => exact ⟨nofun, nofun⟩
  | true =>
    show (validateAll productions >>= fun _ => .ok _) = .error e ↔ _
    cases validateAll productions with
    | error e' =>
      constructor
      · intro h
        exact ⟨rfl, congrArg Except.error (Except.error.inj h)⟩
      · rintro ⟨-, h⟩
        exact congrArg Except.error (Except.error.inj h)
    | ok _ => exact ⟨nofun, nofun⟩

omit [DrawSource σ] in
/-- A new system has an empty scratch list. -/
theorem LSystem.pending_of_create {initial : Word} {productions : List Production} {source : σ}
    {validate : Bool} {system : LSystem σ}
    (h : create initial productions source validate = .ok system) : system.pending = #[] := by
  obtain ⟨-, rfl⟩ := create_eq_ok.1 h
  rfl

/-- Nothing is pending in a reachable state, whatever has failed before. -/
theorem Bench.IsReachable.pending_eq {bench : Bench σ} (h : bench.IsReachable) :
    bench.system.pending = #[] := by
  obtain ⟨initial, productions, source, validate, system, operations, hcreate, rfl⟩ := h
  refine run_induction (P := fun system => system.pending = #[])
    (fun system _ => system.pending_generate) (fun _ hsystem => hsystem) ?_ operations
  exact LSystem.pending_of_create hcreate

/-! ## Parallel rewriting -/

/-- The number of draws that a step takes for the first positions of a word: one for each of them
at which productions apply. -/
def drawsBelow (productions : List Production) (word : Word) (position : Nat) : Nat :=
  ((sites word).take position).countP (takesDraw productions)

namespace LSystem

/-- What a successful step puts in the place of the elements, with nothing pending. -/
theorem exists_outcomes_of_generate {system next : LSystem σ} {word : Word}
    (hpending : system.pending = #[]) (h : system.generate = (.ok word, next)) :
    ∃ outcomes source,
      (derive system.productions system.current).run system.source = (.ok outcomes, source) ∧
        word = outcomes.flatMap Outcome.word ∧
        next = { system with current := word, source, generation := system.generation + 1 } := by
  rw [generate_eq] at h
  rcases hderive : (derive system.productions system.current).run system.source
    with ⟨e | outcomes, source⟩
  · rw [hderive] at h
    exact absurd (Prod.mk.inj h).1 nofun
  · rw [hderive, hpending] at h
    obtain ⟨hword, rfl⟩ := Prod.mk.inj h
    obtain rfl := Except.ok.inj hword
    exact ⟨outcomes, source, rfl, rfl, by simp only [hpending, List.nil_append]⟩

/-- The next word is made up of what takes the place of the elements, site by site. -/
theorem exists_words_of_generate {system next : LSystem σ} {word : Word}
    (hpending : system.pending = #[]) (h : system.generate = (.ok word, next)) :
    ∃ words : List Word, word = words.flatten ∧
      List.Forall₂ (fun site replacement =>
        ∃ n, IsReplacedBy system.productions site (nth system.source n) replacement)
        (sites system.current) words := by
  obtain ⟨outcomes, source, hderive, rfl, -⟩ := exists_outcomes_of_generate hpending h
  obtain ⟨-, hlength, hreplaced⟩ := isReplacedBy_of_derive hderive
  refine ⟨outcomes.map Outcome.word, List.flatMap_def, ?_⟩
  rw [List.forall₂_map_right_iff, List.forall₂_iff_get]
  refine ⟨hlength.symm, fun i hi hi' => ?_⟩
  obtain ⟨outcome, houtcome, hword⟩ := hreplaced i _ (List.getElem?_eq_getElem hi)
  obtain ⟨_, rfl⟩ := List.getElem?_eq_some_iff.1 houtcome
  exact ⟨_, hword⟩

/-- A step that succeeds in a reachable state replaces all elements in parallel: each gives way to
what its site in the word before the step and its draw determine, the draws being those of the
positions at which productions apply, in order. Nothing else changes but the generation. -/
theorem generate_eq_parallel {bench : Bench σ} (hreach : bench.IsReachable) {word : Word}
    {next : LSystem σ} (h : bench.system.generate = (.ok word, next)) :
    let system := bench.system
    ∃ words : List Word,
      words.length = system.current.length ∧
      (∀ i item, system.current[i]? = some item →
        let site := {
          previous := if i = 0 then none else system.current[i - 1]?
          item
          following := system.current[i + 1]? }
        let draw := nth system.source (drawsBelow system.productions system.current i)
        ∃ replacement, words[i]? = some replacement ∧
          IsReplacedBy system.productions site draw replacement) ∧
      word = words.flatten ∧
      next = { system with
        current := words.flatten
        source :=
          skip system.source (drawsBelow system.productions system.current system.current.length)
        generation := system.generation + 1 } := by
  obtain ⟨outcomes, source, hderive, hword, hnext⟩ :=
    exists_outcomes_of_generate hreach.pending_eq h
  obtain ⟨hsource, hlength, hreplaced⟩ := isReplacedBy_of_derive hderive
  have hflatten : outcomes.flatMap Outcome.word = (outcomes.map Outcome.word).flatten :=
    List.flatMap_def
  refine ⟨outcomes.map Outcome.word, ?_, fun i item hitem => ?_, ?_, ?_⟩
  · rw [List.length_map, hlength, length_sites]
  · obtain ⟨outcome, houtcome, hword⟩ := hreplaced i _ (by rw [getElem?_sites, hitem]; rfl)
    exact ⟨outcome.word, by rw [List.getElem?_map, houtcome]; rfl, hword⟩
  · rw [hword, hflatten]
  · rw [hnext, hsource, hword, hflatten, drawsBelow, ← length_sites, List.take_length]

/-- The word `AAA` with the production `A < A ~ 0.5 = B`. -/
def crowded : LSystem Replay where
  current := Word.ofSymbols ['A', 'A', 'A']
  productions := [{
    predecessor := .plain 'A'
    left := some (.plain 'A')
    probability := 0.5
    successor := [.plain 'B']
    wellFormed := ⟨by decide, by decide, by decide, by decide⟩ }]
  source := { draws := #[0.25, 0.75] }

/-- The first element of `AAA` takes no draw, the second is replaced, and the third is kept because
its draw is too large. -/
theorem generate_eq_parallel_crowded :
    Bench.IsReachable { system := crowded } ∧
    crowded.generate = (.ok (Word.ofSymbols ['A', 'B', 'A']), crowded.generate.2) ∧
    crowded.generate.2.source.taken = 2 ∧
    ∃ words : List Word, words.length = 3 ∧ words.flatten = Word.ofSymbols ['A', 'B', 'A'] ∧
      (∃ word, words[1]? = some word ∧ IsReplacedBy crowded.productions
        ⟨some (.plain 'A'), .plain 'A', some (.plain 'A')⟩ 0.25 word) ∧
      ∃ word, words[2]? = some word ∧ IsReplacedBy crowded.productions
        ⟨some (.plain 'A'), .plain 'A', none⟩ 0.75 word := by
  have hreach : Bench.IsReachable { system := crowded } :=
    ⟨_, _, _, false, crowded, [], rfl, rfl⟩
  have hword : crowded.generate.1 = .ok (Word.ofSymbols ['A', 'B', 'A']) := by rfl
  have hgenerate : crowded.generate =
      (.ok (Word.ofSymbols ['A', 'B', 'A']), crowded.generate.2) :=
    Prod.ext hword rfl
  obtain ⟨words, hlength, hreplaced, hwords, -⟩ := generate_eq_parallel hreach hgenerate
  exact ⟨hreach, hgenerate, by rfl, words, hlength, hwords.symm, hreplaced 1 (.plain 'A') rfl,
    hreplaced 2 (.plain 'A') rfl⟩

end LSystem

end Lindenmayer
