import Lindenmayer.Proofs.Derivation.Checked
import Lindenmayer.Proofs.Derivation.Growth
import Lindenmayer.Proofs.Derivation.Reach

/-!
# Histories of a system

A caller may mix all operations on one system and let any number of sequences take turns. If the
productions have been checked, the system depends on how many steps have been made and on nothing
else, and which operations make a step can be told from the operations before them and their
answers: the first item of all is given out without one, and a sequence whose last word was too long
is over.
-/

namespace Lindenmayer

/-! ## What a caller has seen -/

/-- Operations with their answers, from the first to the last. -/
abbrev History := List (Operation × Except Error (Option Word))

namespace Operation

/-- The number of sequences that an operation opens. -/
def opens : Operation → Nat
  | start _ => 1
  | _ => 0

/-- Whether an operation can be performed when a number of sequences have been opened. -/
def CanFollow (opened : Nat) : Operation → Prop
  | resume index => index < opened
  | operation => operation.Allowed

end Operation

/-- Each of the operations can be performed after those before it and a number of opened
sequences. -/
def Performable (opened : Nat) : List Operation → Prop
  | [] => True
  | operation :: rest => operation.CanFollow opened ∧ Performable (opened + operation.opens) rest

namespace History

/-- The limits of the sequences that have been opened, in order. -/
def limits (history : History) : List (Option Int) :=
  history.filterMap fun
    | (.start limit, _) => some limit
    | _ => none

/-- Whether an item has been taken or an advance has been made. -/
def tookItem (history : History) : Bool :=
  history.any fun entry => entry.1.takesItem

/-- The answer to the last resumption of a sequence, if there has been one. -/
def lastAnswer (index : Nat) (history : History) : Option (Except Error (Option Word)) :=
  (history.reverse.find? fun entry => entry.1 = .resume index).map Prod.snd

/-- Whether a sequence with a limit is over after an answer: the word was longer than the limit, or
there was none. -/
def IsOver (limit : Option Int) : Option (Except Error (Option Word)) → Prop
  | none => False
  | some (.ok (some word)) => ∃ bound, limit = some bound ∧ bound < word.length
  | some _ => True

/-- The progress of a sequence after an answer. -/
def progressAfter : Option (Except Error (Option Word)) → Progress
  | none => .fresh
  | some (.ok (some word)) => .paused word.length
  | some _ => .over

/-- A sequence is over just if its last answer says so. -/
theorem isOver_iff {sequence : Generations} {last : Option (Except Error (Option Word))}
    (h : sequence.progress = progressAfter last) :
    sequence.isOver = true ↔ IsOver sequence.limit last := by
  unfold Generations.isOver
  rw [h]
  match last with
  | none => exact ⟨nofun, nofun⟩
  | some (.error e) => exact ⟨fun _ => trivial, fun _ => rfl⟩
  | some (.ok none) => exact ⟨fun _ => trivial, fun _ => rfl⟩
  | some (.ok (some word)) =>
    show Generations.exceeds sequence.limit word.length = true ↔ _
    unfold Generations.exceeds IsOver
    cases sequence.limit with
    | none => exact ⟨nofun, fun ⟨_, hbound, _⟩ => absurd hbound nofun⟩
    | some bound =>
      rw [decide_eq_true_eq]
      exact ⟨fun hlt => ⟨bound, rfl, hlt⟩, fun ⟨_, hbound, hlt⟩ => Option.some.inj hbound ▸ hlt⟩

variable (history : History) (operation : Operation) (answer : Except Error (Option Word))

@[simp]
theorem tookItem_append :
    tookItem (history ++ [(operation, answer)]) = (history.tookItem || operation.takesItem) := by
  simp [tookItem]

@[simp]
theorem limits_append_start (limit : Option Int) :
    limits (history ++ [(.start limit, answer)]) = history.limits ++ [limit] := by
  simp [limits]

theorem limits_append_of_opens (h : operation.opens = 0) :
    limits (history ++ [(operation, answer)]) = history.limits := by
  cases operation <;> simp_all [limits, Operation.opens]

/-- The last answer of a sequence is that of the operation that resumed it. -/
@[simp]
theorem lastAnswer_append_resume (index : Nat) :
    lastAnswer index (history ++ [(.resume index, answer)]) = some answer := by
  simp [lastAnswer]

/-- Other operations do not change it. -/
theorem lastAnswer_append_of_ne {index : Nat} (h : operation ≠ .resume index) :
    lastAnswer index (history ++ [(operation, answer)]) = lastAnswer index history := by
  simp [lastAnswer, h]

variable {history}

theorem lastAnswer_eq_none {index : Nat} (h : ∀ answer, (.resume index, answer) ∉ history) :
    lastAnswer index history = none := by
  unfold lastAnswer
  rw [Option.map_eq_none_iff, List.find?_eq_none]
  rintro ⟨operation, answer⟩ hmem heq
  have heq : operation = .resume index := by simpa using heq
  exact h answer (heq ▸ List.mem_reverse.1 hmem)

end History

variable {σ : Type} [DrawSource σ]

/-- The operations of a run with the answers they are given. -/
def Bench.history (bench : Bench σ) : List Operation → History
  | [] => []
  | operation :: rest =>
    (operation, (bench.perform operation).1) :: (bench.perform operation).2.history rest

theorem Bench.length_sequences_perform (bench : Bench σ) (operation : Operation) :
    (bench.perform operation).2.sequences.length =
      bench.sequences.length + operation.opens := by
  cases operation with
  | start limit => exact List.length_append
  | resume index =>
    unfold perform
    simp only
    split
    · rfl
    · exact List.length_set
  | generate => rfl
  | next => rfl
  | advance steps => rfl
  | grow iterations limit => rfl

/-! ## Following a history -/

namespace LSystem

/-- A system that has made no step yet, with productions that have been checked. -/
structure IsNew (system : LSystem σ) : Prop where
  validated : system.Validated
  generation_eq : system.generation = 0
  started_eq : system.started = false

omit [DrawSource σ] in
/-- A system that has just been made is new. -/
theorem isNew_of_create {initial : Word} {productions : List Production} {source : σ}
    {system : LSystem σ} (h : create initial productions source = .ok system) : system.IsNew := by
  refine ⟨validated_of_create h, ?_, ?_⟩ <;>
  · obtain ⟨_, _, hsystem⟩ := bind_eq_ok.1 h
    obtain rfl := Except.ok.inj hsystem
    rfl

end LSystem

/-- A caller who has seen a history on a new system is in the state that its steps lead to. -/
structure Follows (origin : LSystem σ) (history : History) (bench : Bench σ) : Prop where
  system_eq : bench.system =
    { origin.after bench.system.generation with started := history.tookItem }
  limits_eq : bench.sequences.map Generations.limit = history.limits
  progress_eq : ∀ index sequence, bench.sequences[index]? = some sequence →
    sequence.progress = History.progressAfter (history.lastAnswer index)
  opened : ∀ index answer, (.resume index, answer) ∈ history → index < bench.sequences.length

namespace Follows

variable {origin : LSystem σ} {history : History} {bench : Bench σ}

/-- Before the first operation nothing has happened. -/
theorem nil (h : origin.IsNew) : Follows origin [] { system := origin } where
  system_eq := by
    rw [h.generation_eq, LSystem.after_zero]
    exact congrArg (fun started => { origin with started }) h.started_eq
  limits_eq := rfl
  progress_eq := nofun
  opened := nofun

theorem validated (h : Follows origin history bench) (hnew : origin.IsNew) :
    bench.system.Validated := by
  rw [h.system_eq]
  exact hnew.validated.after bench.system.generation

/-- A system has started just if an item was taken. -/
theorem started_eq (h : Follows origin history bench) :
    bench.system.started = history.tookItem := by
  rw [h.system_eq]

/-- Whoever has made further steps is where all steps together lead. -/
theorem system_after (h : Follows origin history bench) (hnew : origin.IsNew)
    {next : LSystem σ} {steps : Nat} {started : Bool}
    (hnext : next = { bench.system.after steps with started }) :
    next = { origin.after next.generation with started } := by
  have hgeneration : next.generation = bench.system.generation + steps := by
    rw [hnext]
    exact ((h.validated hnew).after_unchanged steps).1
  have hafter : bench.system.after steps =
      { (origin.after bench.system.generation).after steps with started := history.tookItem } :=
    (congrArg (LSystem.after · steps) h.system_eq).trans (LSystem.after_started _ _ _)
  rw [hgeneration, hnext, hafter, LSystem.after_add]

/-- An operation that makes steps and leaves the sequences alone is followed. -/
theorem gives (h : Follows origin history bench) (hnew : origin.IsNew) {operation : Operation}
    {steps : Nat} (hgives : bench.Gives operation steps)
    (hsequences : (bench.perform operation).2.sequences = bench.sequences)
    (hopens : operation.opens = 0) (hother : ∀ index, operation ≠ .resume index) :
    Follows origin (history ++ [(operation, (bench.perform operation).1)])
      (bench.perform operation).2 where
  system_eq := by
    rw [History.tookItem_append, ← h.started_eq]
    exact h.system_after hnew hgives.2
  limits_eq := by rw [hsequences, h.limits_eq, History.limits_append_of_opens _ _ _ hopens]
  progress_eq := fun index sequence hsequence => by
    rw [hsequences] at hsequence
    rw [History.lastAnswer_append_of_ne _ _ _ (hother index)]
    exact h.progress_eq index sequence hsequence
  opened := fun index answer hmem => by
    rw [hsequences]
    rcases List.mem_append.1 hmem with hmem | hmem
    · exact h.opened index answer hmem
    · exact absurd (Prod.mk.inj (List.mem_singleton.1 hmem)).1.symm (hother index)

/-- A sequence may be opened at any time. -/
theorem start (h : Follows origin history bench) (limit : Option Int) :
    Follows origin (history ++ [(.start limit, .ok none)])
      { bench with sequences := bench.sequences ++ [{ limit }] } where
  system_eq := by
    simpa [Operation.takesItem] using h.system_eq
  limits_eq := by
    simp [h.limits_eq]
  progress_eq := fun index sequence hsequence => by
    have hother : Operation.start limit ≠ .resume index := by
      intro h
      cases h
    rw [History.lastAnswer_append_of_ne _ _ _ hother]
    by_cases hindex : index < bench.sequences.length
    · rw [List.getElem?_append_left hindex] at hsequence
      exact h.progress_eq index sequence hsequence
    · -- the new sequence has not been resumed before it was opened
      rw [List.getElem?_append_right (Nat.le_of_not_lt hindex)] at hsequence
      obtain rfl := List.mem_singleton.1 (List.mem_of_getElem? hsequence)
      rw [History.lastAnswer_eq_none fun answer hmem => hindex (h.opened index answer hmem)]
      rfl
  opened := fun index answer hmem => by
    rw [List.length_append, List.length_singleton]
    rcases List.mem_append.1 hmem with hmem | hmem
    · exact Nat.lt_succ_of_lt (h.opened index answer hmem)
    · cases (Prod.mk.inj (List.mem_singleton.1 hmem)).1

/-- Whether a sequence is over can be told from the history. -/
theorem isOver_iff (h : Follows origin history bench) {index : Nat} {sequence : Generations}
    (hsequence : bench.sequences[index]? = some sequence) :
    sequence.isOver = true ↔ History.IsOver sequence.limit (history.lastAnswer index) :=
  History.isOver_iff (h.progress_eq index sequence hsequence)

/-- A sequence that is over has been resumed, so an item has been taken. -/
theorem tookItem_of_isOver (h : Follows origin history bench) {index : Nat} {sequence : Generations}
    (hsequence : bench.sequences[index]? = some sequence) (hover : sequence.isOver = true) :
    history.tookItem = true := by
  by_contra hnone
  have hlast : history.lastAnswer index = none := by
    refine History.lastAnswer_eq_none fun answer hmem => hnone ?_
    exact List.any_eq_true.2 ⟨_, hmem, rfl⟩
  have hover := (h.isOver_iff hsequence).1 hover
  rw [hlast] at hover
  exact hover

/-- A sequence goes by the answer to its last resumption. -/
theorem resume (h : Follows origin history bench) {index : Nat} {sequence rest : Generations}
    (hsequence : bench.sequences[index]? = some sequence)
    {answer : Except Error (Option Word)} {system : LSystem σ}
    (hsystem : system = { origin.after system.generation with started := true })
    (hlimit : rest.limit = sequence.limit)
    (hprogress : rest.progress = History.progressAfter (some answer)) :
    Follows origin (history ++ [(.resume index, answer)])
      { system, sequences := bench.sequences.set index rest } where
  system_eq := by
    simpa [Operation.takesItem] using hsystem
  limits_eq := by
    obtain ⟨hindex, rfl⟩ := List.getElem?_eq_some_iff.1 hsequence
    rw [History.limits_append_of_opens _ _ _ rfl, ← h.limits_eq, List.map_set, hlimit,
      ← List.map_set, List.set_getElem_self hindex]
  progress_eq := fun other sequence' hsequence' => by
    by_cases hother : index = other
    · subst hother
      rw [Bench.getElem?_set_sequence hsequence] at hsequence'
      obtain rfl := Option.some.inj hsequence'
      rw [History.lastAnswer_append_resume, hprogress]
    · rw [List.getElem?_set_ne hother] at hsequence'
      rw [History.lastAnswer_append_of_ne _ _ _ fun heq => hother (Operation.resume.inj heq)]
      exact h.progress_eq other sequence' hsequence'
  opened := fun other answer' hmem => by
    rw [List.length_set]
    rcases List.mem_append.1 hmem with hmem | hmem
    · exact h.opened other answer' hmem
    · obtain ⟨hother, -⟩ := Prod.mk.inj (List.mem_singleton.1 hmem)
      obtain rfl := Operation.resume.inj hother
      exact (List.getElem?_eq_some_iff.1 hsequence).1

/-- Every operation that can be performed is followed. -/
theorem perform (h : Follows origin history bench) (hnew : origin.IsNew) {operation : Operation}
    (hcan : operation.CanFollow bench.sequences.length) :
    Follows origin (history ++ [(operation, (bench.perform operation).1)])
      (bench.perform operation).2 := by
  have hvalid := h.validated hnew
  cases operation with
  | generate => exact h.gives hnew (Bench.gives_generate hvalid) rfl rfl nofun
  | next => exact h.gives hnew (Bench.gives_next hvalid) rfl rfl nofun
  | advance steps =>
    obtain ⟨n, rfl⟩ := Int.eq_ofNat_of_zero_le hcan
    exact h.gives hnew (Bench.gives_advance hvalid n) rfl rfl nofun
  | start limit => exact h.start limit
  | resume index =>
    have hsequence := List.getElem?_eq_getElem hcan
    cases hover : bench.sequences[index].isOver with
    | true =>
      have hsystem := h.system_eq
      rw [h.tookItem_of_isOver hsequence hover] at hsystem
      rw [Bench.perform_resume_of_isOver hsequence hover]
      exact h.resume hsequence hsystem rfl rfl
    | false =>
      rw [Bench.perform_resume hsequence, hvalid.resume_eq hover]
      exact h.resume hsequence (h.system_after hnew rfl) rfl rfl
  | grow iterations limit =>
    obtain ⟨n, rfl⟩ := Int.eq_ofNat_of_zero_le hcan.1
    obtain ⟨steps, hgives⟩ := Bench.gives_grow hvalid hcan.2 limit
    exact h.gives hnew hgives (bench.sequences_perform_grow n limit) rfl nofun

/-- So is every run, by induction on the operations. -/
theorem run (h : Follows origin history bench) (hnew : origin.IsNew) {operations : List Operation}
    (hperformable : Performable bench.sequences.length operations) :
    Follows origin (history ++ bench.history operations) (bench.run operations).2 := by
  induction operations generalizing history bench with
  | nil =>
    rw [Bench.history, List.append_nil]
    exact h
  | cons operation rest ih =>
    have hnext := h.perform hnew hperformable.1
    rw [Bench.history, List.append_cons]
    exact ih hnext (bench.length_sequences_perform operation ▸ hperformable.2)

end Follows

/-! ## Steps and histories -/

/-- A source whose draws are counted. -/
structure Counted (σ : Type) where
  source : σ
  taken : Nat := 0

instance : DrawSource (Counted σ) where
  draw counted :=
    ((DrawSource.draw counted.source).1,
      { source := (DrawSource.draw counted.source).2, taken := counted.taken + 1 })

/-- The number of steps that the next item takes: the first item of all takes none. -/
def History.due (history : History) : Nat :=
  if history.tookItem then 1 else 0

/-- The state after a history is determined by the number of steps, and which operations make a step
is determined by the history. -/
structure IsDetermined (origin : LSystem (Counted σ)) (history : History)
    (bench : Bench (Counted σ)) : Prop where
  current_eq : bench.system.current = (origin.after bench.system.generation).current
  taken_eq : bench.system.source.taken = (origin.after bench.system.generation).source.taken
  pending_eq : bench.system.pending = #[]
  generate : bench.Gives .generate 1
  advance (steps : Nat) : bench.Gives (.advance steps) steps
  next : bench.Gives .next history.due
  resume {index : Nat} {limit : Option Int} : history.limits[index]? = some limit →
    ¬ History.IsOver limit (history.lastAnswer index) →
    bench.Gives (.resume index) history.due
  resume_over {index : Nat} {limit : Option Int} : history.limits[index]? = some limit →
    History.IsOver limit (history.lastAnswer index) →
    (bench.perform (.resume index)).1 = .ok none ∧
      (bench.perform (.resume index)).2.system = bench.system
  /-- Growth opens a sequence and resumes it, so its steps are those of the resumptions. -/
  grow {iterations : Nat} (limit : Option Int) : (iterations : Int) < LSystem.maxCount →
    (∃ steps, bench.Gives (.grow iterations limit) steps) ∧
      (bench.perform (.grow iterations limit)).2.system =
        (bench.run (.start limit ::
          List.replicate (iterations + 1) (.resume history.limits.length))).2.system

theorem Follows.isDetermined {origin : LSystem (Counted σ)} {history : History}
    {bench : Bench (Counted σ)} (h : Follows origin history bench) (hnew : origin.IsNew)
    (hpending : bench.system.pending = #[]) : IsDetermined origin history bench := by
  have hvalid := h.validated hnew
  have hdue : bench.system.due = history.due := by
    rw [LSystem.due, h.started_eq, History.due]
  have hsequences {index : Nat} {limit : Option Int}
      (hlimit : history.limits[index]? = some limit) :
      ∃ sequence, bench.sequences[index]? = some sequence ∧ sequence.limit = limit := by
    rwa [← h.limits_eq, List.getElem?_map, Option.map_eq_some_iff] at hlimit
  have hcurrent := congrArg LSystem.current h.system_eq
  have htaken := congrArg (fun system => system.source.taken) h.system_eq
  refine {
    current_eq := hcurrent
    taken_eq := htaken
    pending_eq := hpending
    generate := Bench.gives_generate hvalid
    advance := Bench.gives_advance hvalid
    next := hdue ▸ Bench.gives_next hvalid
    resume := fun hlimit hover => ?_
    resume_over := fun hlimit hover => ?_
    grow := fun limit hmax => ⟨Bench.gives_grow hvalid hmax limit, ?_⟩ }
  · obtain ⟨sequence, hsequence, rfl⟩ := hsequences hlimit
    rw [← h.isOver_iff hsequence, Bool.not_eq_true] at hover
    exact hdue ▸ Bench.gives_resume hvalid hsequence hover
  · obtain ⟨sequence, hsequence, rfl⟩ := hsequences hlimit
    rw [Bench.perform_resume_of_isOver hsequence ((h.isOver_iff hsequence).2 hover)]
    exact ⟨rfl, rfl⟩
  · rw [bench.grow_eq_run hmax, ← h.limits_eq, List.length_map]

namespace LSystem

/-- However operations and sequences take turns on a new system whose productions have been checked,
its state is determined by the number of steps, and these by the history. -/
theorem run_isDetermined {initial : Word} {productions : List Production} {source : σ}
    {origin : LSystem (Counted σ)}
    (hcreate : create initial productions ({ source } : Counted σ) = .ok origin)
    {operations : List Operation} (hperformable : Performable 0 operations) :
    IsDetermined origin (Bench.history { system := origin } operations)
      (Bench.run { system := origin } operations).2 := by
  have hnew := isNew_of_create hcreate
  have hreach : Bench.IsReachable (Bench.run { system := origin } operations).2 :=
    ⟨_, _, _, _, _, _, hcreate, rfl⟩
  exact ((Follows.nil hnew).run hnew hperformable).isDetermined hnew hreach.pending_eq

/-- The production `A = AB` is well formed. -/
theorem wellFormed_growth : Production.Parts.WellFormed {
    predecessor := .plain 'A', successor := [.plain 'A', .plain 'B'] } :=
  ⟨by decide, by decide, by decide, by decide⟩

/-- The production `B = A` is well formed. -/
theorem wellFormed_renewal : Production.Parts.WellFormed {
    predecessor := .plain 'B', successor := [.plain 'A'] } :=
  ⟨by decide, by decide, by decide, by decide⟩

/-- The word `A` with the productions `A = AB` and `B = A`. -/
def algae : LSystem (Counted Replay) where
  current := Word.ofSymbols ['A']
  productions := [
    { predecessor := .plain 'A'
      successor := [.plain 'A', .plain 'B']
      wellFormed := wellFormed_growth },
    { predecessor := .plain 'B'
      successor := [.plain 'A']
      wellFormed := wellFormed_renewal }]
  source := { source := { draws := #[0.5] } }

theorem create_algae : create algae.current algae.productions algae.source = .ok algae := by
  refine create_of_bound algae.current algae.source fun q hq name hname => ?_
  rcases List.mem_cons.1 hq with rfl | hq
  · exact absurd hname nofun
  · obtain rfl := List.mem_singleton.1 hq
    exact absurd hname nofun

/-- A sequence that is over after its first item, and growth that stops at `ABAAB`. -/
def turns : List Operation :=
  [.generate, .start (some 1), .resume 0, .next, .grow 2 (some 4)]

/-- Among five operations there are three steps, since the sequence gives out `AB` without one and
growth needs one only. -/
theorem run_isDetermined_algae :
    let bench := (Bench.run { system := algae } turns).2
    create algae.current algae.productions algae.source = .ok algae ∧ Performable 0 turns ∧
      bench.system.generation = 3 ∧
      bench.system.current = Word.ofSymbols ['A', 'B', 'A', 'A', 'B'] ∧
      (algae.after 3).current = bench.system.current ∧ (algae.after 3).source.taken = 6 ∧
      bench.system.source.taken = (algae.after 3).source.taken ∧ bench.Gives .next 1 ∧
      (bench.perform (.resume 0)).1 = .ok none := by
  have hperformable : Performable 0 turns :=
    ⟨trivial, trivial, Nat.zero_lt_one, trivial, ⟨by decide, by decide⟩, trivial⟩
  have hdetermined := run_isDetermined create_algae hperformable
  refine ⟨create_algae, hperformable, by rfl, by rfl, hdetermined.current_eq.symm, by rfl,
    hdetermined.taken_eq, hdetermined.next, (hdetermined.resume_over rfl ?_).1⟩
  exact ⟨1, rfl, by decide⟩

end LSystem

end Lindenmayer
