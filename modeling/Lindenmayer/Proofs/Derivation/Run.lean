import Lindenmayer.Derivation.Generations
import Lindenmayer.Proofs.Derivation.Generate
import Lindenmayer.Proofs.Grammar.Reader
import Lindenmayer.Random.Replay

/-!
# Runs

A caller holds a system and sequences of generations opened on it, and performs one operation after
another in any order. A run goes on after an operation that fails, so every state that a caller can
bring about is the end of a run.
-/

namespace Lindenmayer

/-- What a caller can do. -/
inductive Operation where
  | generate
  | next
  | advance (steps : Int)
  /-- Opens a sequence of generations. -/
  | start (limit : Option Int)
  /-- Takes the next item of the sequence that was opened as the given one, counted from zero. -/
  | resume (index : Nat)
  | grow (iterations : Int) (limit : Option Int)
deriving DecidableEq, Repr

/-- The numbers that an operation asks for can be counted. -/
def Operation.Allowed : Operation → Prop
  | advance steps => 0 ≤ steps
  | grow iterations _ => 0 ≤ iterations ∧ iterations < LSystem.maxCount
  | _ => True

/-- A system and the sequences that have been opened on it. -/
structure Bench (σ : Type) where
  system : LSystem σ
  sequences : List Generations := []

namespace Bench

variable {σ : Type} [DrawSource σ]

/-- Performs an operation. The answer is the word that the operation gives, if it gives one. -/
def perform (bench : Bench σ) : Operation → Except Error (Option Word) × Bench σ
  | .generate =>
    let (answer, system) := bench.system.generate
    (answer.map some, { bench with system })
  | .next =>
    let (answer, system) := bench.system.next
    (answer.map some, { bench with system })
  | .advance steps =>
    let (answer, system) := bench.system.advanceBy steps
    (answer.map some, { bench with system })
  | .start limit => (.ok none, { bench with sequences := bench.sequences ++ [{ limit }] })
  | .resume index =>
    match bench.sequences[index]? with
    | none => (.ok none, bench)
    | some sequence =>
      let (answer, sequence, system) := sequence.resume bench.system
      (answer, { system, sequences := bench.sequences.set index sequence })
  | .grow iterations limit =>
    let (answer, system) := bench.system.grow iterations limit
    (answer.map fun grown => some grown.1, { bench with system })

/-- The answer of a rewriting step is its word, and the sequences stay as they are. -/
@[simp]
theorem perform_generate (bench : Bench σ) :
    bench.perform .generate =
      (bench.system.generate.1.map some, { bench with system := bench.system.generate.2 }) :=
  rfl

/-- The answer of asking for an item is this item. -/
@[simp]
theorem perform_next (bench : Bench σ) :
    bench.perform .next =
      (bench.system.next.1.map some, { bench with system := bench.system.next.2 }) :=
  rfl

/-- The answer of some steps at once is the word behind them. -/
@[simp]
theorem perform_advance (bench : Bench σ) (steps : Int) :
    bench.perform (.advance steps) =
      ((bench.system.advanceBy steps).1.map some,
        { bench with system := (bench.system.advanceBy steps).2 }) :=
  rfl

/-- A sequence that exists is resumed and put back in its place. -/
theorem perform_resume {bench : Bench σ} {index : Nat} {sequence : Generations}
    (h : bench.sequences[index]? = some sequence) :
    bench.perform (.resume index) =
      ((sequence.resume bench.system).1,
        { system := (sequence.resume bench.system).2.2
          sequences := bench.sequences.set index (sequence.resume bench.system).2.1 }) := by
  simp only [perform, h]

/-- A sequence that does not exist gives no item, and nothing changes. -/
theorem perform_resume_of_none {bench : Bench σ} {index : Nat}
    (h : bench.sequences[index]? = none) : bench.perform (.resume index) = (.ok none, bench) := by
  simp only [perform, h]

/-- The answer of growth is the word at which it ends. -/
theorem perform_grow (bench : Bench σ) (iterations : Int) (limit : Option Int) :
    bench.perform (.grow iterations limit) =
      ((bench.system.grow iterations limit).1.map fun grown => some grown.1,
        { bench with system := (bench.system.grow iterations limit).2 }) :=
  rfl

@[simp]
theorem system_perform_grow (bench : Bench σ) (iterations : Int) (limit : Option Int) :
    (bench.perform (.grow iterations limit)).2.system = (bench.system.grow iterations limit).2 :=
  rfl

@[simp]
theorem sequences_perform_grow (bench : Bench σ) (iterations : Int) (limit : Option Int) :
    (bench.perform (.grow iterations limit)).2.sequences = bench.sequences :=
  rfl

/-- Performs operations in turn, and gives all answers. -/
def run (bench : Bench σ) : List Operation → List (Except Error (Option Word)) × Bench σ
  | [] => ([], bench)
  | operation :: rest =>
    let (answer, bench) := bench.perform operation
    let (answers, bench) := bench.run rest
    (answer :: answers, bench)

end Bench

/-! ## Systems that have been checked -/

namespace LSystem

variable {σ : Type}

/-- The variables of all productions are bound. -/
def Validated (system : LSystem σ) : Prop :=
  ∀ p ∈ system.productions, p.Bound

/-- Productions are checked one after another, until one fails. -/
theorem validateAll_cons (p : Production) (rest : List Production) :
    validateAll (p :: rest) = p.validate >>= fun _ => validateAll rest :=
  rfl

/-- Productions that pass the check bind their variables. -/
theorem bound_of_validateAll {productions : List Production}
    (h : validateAll productions = .ok ()) : ∀ p ∈ productions, p.Bound := by
  intro p hp
  induction productions with
  | nil => exact absurd hp List.not_mem_nil
  | cons q rest ih =>
    rw [validateAll_cons, bind_eq_ok] at h
    obtain ⟨_, hfirst, hrest⟩ := h
    rcases List.mem_cons.1 hp with rfl | hp
    · exact Production.validate_eq_ok.1 hfirst
    · exact ih hrest hp

/-- Productions that bind their variables pass the check. -/
theorem validateAll_of_bound {productions : List Production} (h : ∀ p ∈ productions, p.Bound) :
    validateAll productions = .ok () := by
  induction productions with
  | nil => rfl
  | cons q rest ih =>
    rw [validateAll_cons, Production.validate_eq_ok.2 (h q List.mem_cons_self)]
    exact ih fun p hp => h p (List.mem_cons_of_mem q hp)

/-- A system is made of productions that bind their variables. -/
theorem create_of_bound (initial : Word) {productions : List Production} (source : σ)
    (h : ∀ p ∈ productions, p.Bound) :
    create initial productions source = .ok { current := initial, productions, source } := by
  rw [create, if_pos rfl, validateAll_of_bound h]
  rfl

/-- The productions of a system that was made bind their variables. -/
theorem validated_of_create {initial : Word} {productions : List Production} {source : σ}
    {system : LSystem σ} (h : create initial productions source = .ok system) :
    system.Validated := by
  rw [create, if_pos rfl, bind_eq_ok] at h
  obtain ⟨_, hvalid, hsystem⟩ := h
  obtain rfl := Except.ok.inj hsystem
  exact bound_of_validateAll hvalid

/-! ## Operations of a system that has been checked -/

variable [DrawSource σ]

/-- There is a result, and the system that is left is checked like the one before. -/
def Succeeds {α : Type} (answer : Answer σ α) : Prop :=
  ∃ a next, answer = (.ok a, next) ∧ next.Validated

namespace Validated

variable {system : LSystem σ}

/-- A rewriting step of a validated system succeeds. -/
theorem generate (h : system.Validated) : Succeeds system.generate := by
  obtain ⟨outcomes, rest, hderive⟩ := exists_derive h system.current system.source
  rw [generate_eq, hderive]
  exact ⟨_, _, rfl, h⟩

/-- Any number of steps of a validated system succeeds. -/
theorem advance (h : system.Validated) (steps : Nat) : Succeeds (system.advance steps) := by
  induction steps generalizing system with
  | zero => exact ⟨_, _, rfl, h⟩
  | succ steps ih =>
    obtain ⟨word, next, hword, hnext⟩ := h.generate
    rw [LSystem.advance, hword]
    exact ih hnext

/-- Asking a validated system for an item succeeds. -/
theorem next (h : system.Validated) : Succeeds system.next := by
  unfold LSystem.next
  split
  · exact h.generate
  · exact ⟨_, _, rfl, h⟩

/-- A sequence of a validated system gives an item or ends, without an error. -/
theorem resume (h : system.Validated) (sequence : Generations) :
    ∃ word sequence' next, sequence.resume system = (.ok word, sequence', next) ∧
      next.Validated := by
  unfold Generations.resume
  split
  · exact ⟨_, _, _, rfl, h⟩
  · obtain ⟨word, next, hword, hnext⟩ := h.next
    rw [hword]
    exact ⟨_, _, _, rfl, hnext⟩

/-- Taking any number of items of a sequence succeeds. -/
theorem fold {β : Type} (h : system.Validated) (step : β → Word → β) (initial : β)
    (sequence : Generations) (count : Nat) :
    Succeeds (sequence.fold step initial system count) := by
  induction count generalizing system sequence initial with
  | zero => exact ⟨_, _, rfl, h⟩
  | succ count ih =>
    obtain ⟨word, sequence', next, hresume, hnext⟩ := h.resume sequence
    rw [Generations.fold, hresume]
    cases word with
    | none => exact ⟨_, _, rfl, hnext⟩
    | some word => exact ih hnext _ _

/-- Growth by a number of generations that is allowed succeeds. -/
theorem grow (h : system.Validated) {iterations : Int} (hmin : 0 ≤ iterations)
    (hmax : iterations < maxCount) (limit : Option Int) :
    Succeeds (system.grow iterations limit) := by
  obtain ⟨last, next, hfold, hnext⟩ := h.fold (fun _ word => word) system.current
    { limit } (iterations + 1).toNat
  unfold LSystem.grow
  rw [if_pos (by unfold maxCount at *; omega), hfold]
  exact ⟨_, _, rfl, hnext⟩

/-- An operation whose numbers can be counted gives a result. -/
theorem perform {bench : Bench σ} (h : bench.system.Validated) {operation : Operation}
    (hallowed : operation.Allowed) :
    ∃ word next, bench.perform operation = (.ok word, next) ∧ next.system.Validated := by
  cases operation with
  | generate =>
    obtain ⟨word, next, hword, hnext⟩ := h.generate
    exact ⟨word, { bench with system := next }, by rw [Bench.perform, hword]; rfl, hnext⟩
  | next =>
    obtain ⟨word, next, hword, hnext⟩ := h.next
    exact ⟨word, { bench with system := next }, by rw [Bench.perform, hword]; rfl, hnext⟩
  | advance steps =>
    -- the number of steps is a natural number
    obtain ⟨n, rfl⟩ := Int.eq_ofNat_of_zero_le hallowed
    obtain ⟨word, next, hword, hnext⟩ := h.advance n
    have hword : bench.system.advanceBy n = (.ok word, next) := hword
    exact ⟨word, { bench with system := next }, by rw [Bench.perform, hword]; rfl, hnext⟩
  | start limit => exact ⟨_, _, rfl, h⟩
  | resume index =>
    cases hsequence : bench.sequences[index]? with
    | none => exact ⟨none, bench, by simp only [Bench.perform, hsequence], h⟩
    | some sequence =>
      obtain ⟨word, sequence', next, hresume, hnext⟩ := h.resume sequence
      exact ⟨word, ⟨next, bench.sequences.set index sequence'⟩,
        by simp only [Bench.perform, hsequence, hresume], hnext⟩
  | grow iterations limit =>
    obtain ⟨grown, next, hgrown, hnext⟩ := h.grow hallowed.1 hallowed.2 limit
    exact ⟨grown.1, { bench with system := next }, by rw [Bench.perform, hgrown]; rfl, hnext⟩

/-- So do all operations of a run, by induction on the operations. -/
theorem run {bench : Bench σ} (h : bench.system.Validated) {operations : List Operation}
    (hallowed : ∀ operation ∈ operations, operation.Allowed) :
    ∀ answer ∈ (bench.run operations).1, ∃ word, answer = .ok word := by
  induction operations generalizing bench with
  | nil => exact fun answer hanswer => absurd hanswer List.not_mem_nil
  | cons operation rest ih =>
    obtain ⟨word, next, hperform, hnext⟩ := h.perform (hallowed operation List.mem_cons_self)
    intro answer hanswer
    rw [Bench.run, hperform] at hanswer
    rcases List.mem_cons.1 hanswer with rfl | hanswer
    · exact ⟨word, rfl⟩
    · exact ih hnext (fun other hother => hallowed other (List.mem_cons_of_mem _ hother))
        answer hanswer

end Validated

/-- A system whose productions were checked answers every run of operations without an error, and
the productions of a grammar that was read pass the check. -/
theorem run_answers_of_create (initial : Word) (productions : List Production) (source : σ) :
    (∀ system, create initial productions source = .ok system →
      ∀ operations : List Operation, (∀ operation ∈ operations, operation.Allowed) →
        ∀ answer ∈ (Bench.run { system } operations).1, ∃ word, answer = .ok word) ∧
    ∀ text grammar, Grammar.parse text = .ok grammar →
      ∃ system, ofGrammar grammar source = .ok system := by
  refine ⟨fun system h operations hallowed => ?_, fun text grammar h => ?_⟩
  · exact Validated.run (validated_of_create h) hallowed
  · exact ⟨_, create_of_bound grammar.initial source (Grammar.bound_of_parse h)⟩

/-- The production `A(x) < B : x < 3 = A(x + 1)B`. -/
def signal : Production where
  predecessor := .plain 'B'
  left := some ⟨'A', ⟨["x"], Params.length_singleton_le "x"⟩⟩
  condition := some (.binary .lt (.var "x") (.number 3.0))
  successor := [⟨'A', ⟨[.binary .add (.var "x") (.number 1.0)], by decide⟩⟩, .plain 'B']
  wellFormed := ⟨by decide, by decide, by decide, by decide⟩

/-- Two sequences that take turns with growth, where `signal` applies. -/
theorem run_answers_of_create_turns :
    ∃ (p : Production) (system : LSystem Replay),
      p.left = some ⟨'A', ⟨["x"], by decide⟩⟩ ∧
      create [⟨'A', ⟨[1.0], by decide⟩⟩, .plain 'B'] [p] (Replay.mk #[0.5] 0) = .ok system ∧
      ∀ answer ∈ (Bench.run { system }
          [.start (some 4), .start none, .resume 0, .grow 3 none, .resume 1, .advance 2]).1,
        ∃ word, answer = .ok word := by
  have hbound : ∀ p ∈ [signal], p.Bound := by
    refine List.forall_mem_singleton.2 ?_
    show ∀ name ∈ ["x", "x"], name ∈ ["x"]
    decide
  have hcreate :=
    create_of_bound [⟨'A', ⟨[1.0], by decide⟩⟩, .plain 'B'] (Replay.mk #[0.5] 0) hbound
  refine ⟨signal, _, rfl, hcreate, ?_⟩
  exact (run_answers_of_create _ _ _).1 _ hcreate _ (by simp [Operation.Allowed, maxCount])

end LSystem

end Lindenmayer
