import Lindenmayer.Proofs.Derivation.Reach

/-!
# Two systems side by side

Two callers perform the same operations, each on a system of its own. All operations are made of
steps and of the note that the word has been given out, so if these two keep the systems alike, no
operation tells them apart. Whether a step does so is decided site by site: it is enough that at
every site the productions lead to the same outcome or error and leave sources that are again
related.
-/

namespace Lindenmayer

variable {σ τ : Type}

/-- Two computations answer the same, and what they leave behind is related. -/
def Alike {α β γ : Type} (R : β → γ → Prop) (first : α × β) (second : α × γ) : Prop :=
  first.1 = second.1 ∧ R first.2 second.2

theorem Alike.exists_answer {α β γ : Type} {R : β → γ → Prop} {first : α × β} {second : α × γ}
    (h : Alike R first second) :
    ∃ answer left right, first = (answer, left) ∧ second = (answer, right) ∧ R left right :=
  ⟨first.1, first.2, second.2, rfl, Prod.ext h.1.symm rfl, h.2⟩

variable [DrawSource σ] [DrawSource τ]

/-- A relation between systems that show the same to a caller, which steps and the note that the
word has been given out keep up. -/
structure IsSimulation (R : LSystem σ → LSystem τ → Prop) : Prop where
  current_eq {system : LSystem σ} {other : LSystem τ} :
    R system other → system.current = other.current
  generation_eq {system : LSystem σ} {other : LSystem τ} :
    R system other → system.generation = other.generation
  started_eq {system : LSystem σ} {other : LSystem τ} :
    R system other → system.started = other.started
  generate {system : LSystem σ} {other : LSystem τ} :
    R system other → Alike R system.generate other.generate
  mark {system : LSystem σ} {other : LSystem τ} :
    R system other → R { system with started := true } { other with started := true }

/-! ## Operations -/

namespace IsSimulation

variable {R : LSystem σ → LSystem τ → Prop} (hR : IsSimulation R)

include hR

section
variable {system : LSystem σ} {other : LSystem τ} (h : R system other)

include h

theorem next : Alike R system.next other.next := by
  unfold LSystem.next
  rw [hR.started_eq h]
  split
  · exact hR.generate h
  · exact ⟨congrArg Except.ok (hR.current_eq h), hR.mark h⟩

theorem advance (steps : Nat) : Alike R (system.advance steps) (other.advance steps) := by
  induction steps generalizing system other with
  | zero => exact ⟨congrArg Except.ok (hR.current_eq h), hR.mark h⟩
  | succ steps ih =>
    obtain ⟨answer, next, next', hstep, hstep', hnext⟩ := (hR.generate h).exists_answer
    rw [LSystem.advance, LSystem.advance, hstep, hstep']
    cases answer with
    | error e => exact ⟨rfl, hnext⟩
    | ok word => exact ih hnext

theorem advanceBy (steps : Int) : Alike R (system.advanceBy steps) (other.advanceBy steps) := by
  cases steps with
  | ofNat n => exact hR.advance h n
  | negSucc n => exact ⟨rfl, h⟩

/-- A sequence takes the same turn on both systems. -/
theorem resume (sequence : Generations) :
    Alike (Alike R) (sequence.resume system) (sequence.resume other) := by
  unfold Generations.resume
  split
  · exact ⟨rfl, rfl, h⟩
  · obtain ⟨answer, next, next', hitem, hitem', hnext⟩ := (hR.next h).exists_answer
    rw [hitem, hitem']
    cases answer with
    | error e => exact ⟨rfl, rfl, hnext⟩
    | ok word => exact ⟨rfl, rfl, hnext⟩

theorem fold {β : Type} (step : β → Word → β) (initial : β) (sequence : Generations)
    (count : Nat) :
    Alike R (sequence.fold step initial system count)
      (sequence.fold step initial other count) := by
  induction count generalizing system other sequence initial with
  | zero => exact ⟨rfl, h⟩
  | succ count ih =>
    obtain ⟨answer, _, _, hitem, hitem', hrest⟩ := (hR.resume h sequence).exists_answer
    obtain ⟨rest, next, next', rfl, rfl, hnext⟩ := hrest.exists_answer
    rw [Generations.fold, Generations.fold, hitem, hitem']
    rcases answer with e | none | word
    · exact ⟨rfl, hnext⟩
    · exact ⟨rfl, hnext⟩
    · exact ih hnext (step initial word) rest

theorem grow (iterations : Int) (limit : Option Int) :
    Alike R (system.grow iterations limit) (other.grow iterations limit) := by
  unfold LSystem.grow
  rw [← hR.current_eq h, ← hR.generation_eq h]
  simp only
  split
  · obtain ⟨answer, next, next', hfold, hfold', hnext⟩ := (hR.fold h (fun _ word => word)
      system.current { limit } (iterations + 1).toNat).exists_answer
    rw [hfold, hfold']
    cases answer with
    | error e => exact ⟨rfl, hnext⟩
    | ok last =>
      refine ⟨?_, hnext⟩
      simp only [hR.generation_eq hnext]
  · exact ⟨rfl, h⟩

end

/-- Related systems with the same sequences answer every operation alike. -/
theorem perform {bench : Bench σ} {other : Bench τ} (h : R bench.system other.system)
    (hsequences : bench.sequences = other.sequences) (operation : Operation) :
    (bench.perform operation).1 = (other.perform operation).1 ∧
      R (bench.perform operation).2.system (other.perform operation).2.system ∧
      (bench.perform operation).2.sequences = (other.perform operation).2.sequences := by
  cases operation with
  | generate =>
    obtain ⟨hanswer, hnext⟩ := hR.generate h
    exact ⟨congrArg (Except.map some) hanswer, hnext, hsequences⟩
  | next =>
    obtain ⟨hanswer, hnext⟩ := hR.next h
    exact ⟨congrArg (Except.map some) hanswer, hnext, hsequences⟩
  | advance steps =>
    obtain ⟨hanswer, hnext⟩ := hR.advanceBy h steps
    exact ⟨congrArg (Except.map some) hanswer, hnext, hsequences⟩
  | start limit =>
    exact ⟨rfl, h, congrArg (· ++ [({ limit } : Generations)]) hsequences⟩
  | resume index =>
    -- both callers hold the same sequence, if any
    cases hsequence : bench.sequences[index]? with
    | none =>
      rw [Bench.perform_resume_of_none hsequence,
        Bench.perform_resume_of_none (hsequences ▸ hsequence)]
      exact ⟨rfl, h, hsequences⟩
    | some sequence =>
      obtain ⟨hanswer, hrest, hnext⟩ := hR.resume h sequence
      rw [Bench.perform_resume hsequence, Bench.perform_resume (hsequences ▸ hsequence),
        hanswer, hrest, hsequences]
      exact ⟨rfl, hnext, rfl⟩
  | grow iterations limit =>
    obtain ⟨hanswer, hnext⟩ := hR.grow h iterations limit
    rw [Bench.perform_grow, Bench.perform_grow, hanswer]
    exact ⟨rfl, hnext, hsequences⟩

/-- So they answer all operations of a run, by induction on the operations. -/
theorem run {bench : Bench σ} {other : Bench τ} (h : R bench.system other.system)
    (hsequences : bench.sequences = other.sequences) (operations : List Operation) :
    (bench.run operations).1 = (other.run operations).1 ∧
      R (bench.run operations).2.system (other.run operations).2.system := by
  induction operations generalizing bench other with
  | nil => exact ⟨rfl, h⟩
  | cons operation rest ih =>
    obtain ⟨hanswer, hnext, hrest⟩ := hR.perform h hsequences operation
    obtain ⟨hanswers, hlast⟩ := ih hnext hrest
    exact ⟨congrArg₂ List.cons hanswer hanswers, hlast⟩

/-- In particular where no sequence has been opened yet. -/
theorem run_new {system : LSystem σ} {other : LSystem τ} (h : R system other)
    (operations : List Operation) :
    (Bench.run { system } operations).1 = (Bench.run { system := other } operations).1 ∧
      R (Bench.run { system } operations).2.system
        (Bench.run { system := other } operations).2.system := by
  apply hR.run
  · exact h
  · rfl

end IsSimulation

/-! ## Steps -/

/-- Two systems with given productions show the same to a caller, and their sources are related. -/
structure Resembles (P Q : List Production) (S : σ → τ → Prop) (system : LSystem σ)
    (other : LSystem τ) : Prop where
  productions_eq : system.productions = P
  productions_other : other.productions = Q
  current_eq : system.current = other.current
  generation_eq : system.generation = other.generation
  started_eq : system.started = other.started
  pending_eq : system.pending = other.pending
  source : S system.source other.source

/-- Sources that give the same draws, and related sources after them, are alike at every site. -/
theorem alike_deriveAt_of_draw {S : σ → τ → Prop}
    (hdraw : ∀ source source', S source source' →
      Alike S (DrawSource.draw source) (DrawSource.draw source'))
    (productions : List Production) (site : Site (Element Float)) (source : σ) (source' : τ)
    (h : S source source') :
    Alike S ((deriveAt productions site).run source)
      ((deriveAt productions site).run source') := by
  obtain ⟨hsame, hnext⟩ := hdraw source source' h
  rw [deriveAt_run, deriveAt_run, hsame]
  cases candidates site productions with
  | error e => exact ⟨rfl, h⟩
  | ok matching =>
    cases matching with
    | nil => exact ⟨rfl, h⟩
    | cons p later =>
      simp only
      split
      · exact ⟨rfl, hnext⟩
      · exact ⟨rfl, hnext⟩

omit [DrawSource σ] in
/-- With the same source, only the productions differ. -/
theorem Resembles.eq_with_productions {P Q : List Production} {system other : LSystem σ}
    (h : Resembles P Q Eq system other) : other = { system with productions := Q } := by
  obtain ⟨current, productions, source, generation, started, pending⟩ := other
  obtain ⟨-, rfl, hcurrent, hgeneration, hstarted, hpending, hsource⟩ := h
  simp only [hcurrent, hgeneration, hstarted, hpending, hsource]

section
variable {P Q : List Production} {S : σ → τ → Prop}
  (hsite : ∀ site source source', S source source' →
    Alike S ((deriveAt P site).run source) ((deriveAt Q site).run source'))

include hsite

/-- What holds at every site holds of a run through sites. -/
theorem alike_derive (sites : List (Site (Element Float))) {source : σ} {source' : τ}
    (h : S source source') :
    Alike S ((sites.mapM (deriveAt P)).run source) ((sites.mapM (deriveAt Q)).run source') := by
  induction sites generalizing source source' with
  | nil => exact ⟨rfl, h⟩
  | cons site sites ih =>
    obtain ⟨answer, next, next', hfirst, hfirst', hnext⟩ := (hsite site _ _ h).exists_answer
    rw [derive_run_cons, derive_run_cons, hfirst, hfirst']
    cases answer with
    | error e => exact ⟨rfl, hnext⟩
    | ok outcome =>
      obtain ⟨answer, last, last', hothers, hothers', hlast⟩ := (ih hnext).exists_answer
      simp only [hothers, hothers']
      cases answer with
      | error e => exact ⟨rfl, hlast⟩
      | ok outcomes => exact ⟨rfl, hlast⟩

/-- Systems that resemble each other cannot be told apart if they cannot be at any site. -/
theorem isSimulation_resembles : IsSimulation (Resembles P Q S) where
  current_eq := Resembles.current_eq
  generation_eq := Resembles.generation_eq
  started_eq := Resembles.started_eq
  mark h := { h with started_eq := rfl }
  generate {system other} h := by
    obtain ⟨answer, next, next', hderive, hderive', hnext⟩ :=
      (alike_derive hsite (sites system.current) h.source).exists_answer
    rw [LSystem.generate_eq, LSystem.generate_eq, derive, derive, ← h.current_eq, h.productions_eq,
      h.productions_other, hderive, hderive', h.pending_eq, h.generation_eq]
    cases answer with
    | error e => exact ⟨rfl, rfl, rfl, rfl, rfl, h.started_eq, rfl, hnext⟩
    | ok outcomes => exact ⟨rfl, rfl, rfl, rfl, rfl, h.started_eq, rfl, hnext⟩

end

omit [DrawSource σ] [DrawSource τ] in
/-- Two new systems resemble each other. -/
theorem resembles_of_create {initial : Word} {P Q : List Production} {source : σ} {source' : τ}
    {validate validate' : Bool} {system : LSystem σ} {other : LSystem τ} {S : σ → τ → Prop}
    (hcreate : LSystem.create initial P source validate = .ok system)
    (hother : LSystem.create initial Q source' validate' = .ok other) (h : S source source') :
    Resembles P Q S system other := by
  obtain ⟨-, rfl⟩ := LSystem.create_eq_ok.1 hcreate
  obtain ⟨-, rfl⟩ := LSystem.create_eq_ok.1 hother
  exact ⟨rfl, rfl, rfl, rfl, rfl, rfl, h⟩

end Lindenmayer
