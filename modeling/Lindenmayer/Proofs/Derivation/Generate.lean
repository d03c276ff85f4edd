import Mathlib.Logic.Function.Iterate
import Lindenmayer.Derivation.LSystem
import Lindenmayer.Proofs.Derivation.Parallel

/-!
# A step of a system

A system goes through its word with one element in view ahead and collects what takes the place of
the elements. Here it is shown to do what the step at all sites of the word does, and what a step
can leave of the system is said once: if it succeeds the next word, if it fails nothing but a source
with fewer draws.
-/

namespace Lindenmayer

/-- The sites of a list that is gone through from left to right, with the item in front of it. -/
def sitesFrom {α : Type} (previous : Option α) : List α → List (Site α)
  | [] => []
  | item :: rest =>
    { previous, item, following := rest.head? } :: sitesFrom (some item) rest

/-- Looking one item ahead shows the neighbours that the position of an item determines. -/
theorem getElem?_sitesFrom {α : Type} (previous : Option α) (items : List α) (i : Nat) :
    (sitesFrom previous items)[i]? = items[i]?.map fun item => {
      previous := if i = 0 then previous else items[i - 1]?
      item
      following := items[i + 1]? } := by
  induction items generalizing previous i with
  | nil => rfl
  | cons first rest ih =>
    cases i with
    | zero => simp [sitesFrom, List.head?_eq_getElem?]
    | succ i =>
      rw [sitesFrom, List.getElem?_cons_succ, ih]
      cases i with
      | zero => rfl
      | succ i => rfl

theorem sitesFrom_none {α : Type} (items : List α) : sitesFrom none items = sites items := by
  apply List.ext_getElem?
  intro i
  rw [getElem?_sitesFrom, getElem?_sites]

namespace LSystem

variable {σ : Type} [DrawSource σ] (system : LSystem σ)

/-- What is collected is what the sites give, and the source goes on as it does there. -/
theorem rewrite_eq (previous : Option (Element Float)) (rest : Word) :
    match ((sitesFrom previous rest).mapM (deriveAt system.productions)).run system.source with
    | (.error e, source) =>
      ∃ pending, system.rewrite previous rest = (.error e, { system with source, pending })
    | (.ok outcomes, source) =>
      system.rewrite previous rest =
        (.ok (), { system with
          source, pending := system.pending ++ outcomes.flatMap Outcome.word }) := by
  induction rest generalizing system previous with
  | nil =>
    show system.rewrite previous [] = (.ok (), { system with pending := system.pending ++ [] })
    rw [Array.appendList_nil, rewrite]
  | cons item rest ih =>
    rw [sitesFrom, derive_run_cons, rewrite]
    rcases (deriveAt system.productions _).run system.source with ⟨e | outcome, source⟩
    · exact ⟨system.pending, rfl⟩
    · have hrest :=
        ih { system with source, pending := system.pending ++ outcome.word } (some item)
      have happend (others : Word) : system.pending ++ outcome.word ++ others =
          system.pending ++ (outcome.word ++ others) :=
        Array.ext' (by simp only [Array.toList_appendList, List.append_assoc])
      simp only
      rcases hothers : ((sitesFrom (some item) rest).mapM (deriveAt system.productions)).run source
        with ⟨e | outcomes, last⟩
      · rw [hothers] at hrest
        exact hrest
      · rw [hothers] at hrest
        simp only [happend] at hrest
        exact hrest

/-- A step is the step at all sites of the word. If that fails nothing is left of it but the source;
else the next word is what was pending, followed by what the sites give. -/
theorem generate_eq :
    system.generate =
      match (derive system.productions system.current).run system.source with
      | (.error e, source) => (.error e, { system with source, pending := #[] })
      | (.ok outcomes, source) =>
        let current := system.pending.toList ++ outcomes.flatMap Outcome.word
        (.ok current, { system with
          current, source, generation := system.generation + 1, pending := #[] }) := by
  have hrewrite := system.rewrite_eq none system.current
  rw [sitesFrom_none] at hrewrite
  unfold generate derive
  rcases hderive : ((sites system.current).mapM (deriveAt system.productions)).run system.source
    with ⟨e | outcomes, source⟩
  · rw [hderive] at hrewrite
    obtain ⟨pending, hrewrite⟩ := hrewrite
    simp only [hrewrite]
  · rw [hderive] at hrewrite
    simp only [hrewrite, Array.toList_appendList]

/-- With nothing pending, the next word is what the sites give. -/
theorem generate_of_derive {system : LSystem σ} (hpending : system.pending = #[])
    {outcomes : List Outcome} {source : σ}
    (h : (derive system.productions system.current).run system.source = (.ok outcomes, source)) :
    system.generate = (.ok (outcomes.flatMap Outcome.word), { system with
      current := outcomes.flatMap Outcome.word, source, generation := system.generation + 1 }) := by
  rw [generate_eq, h]
  simp only [hpending, List.nil_append]

/-- What a step can do: fail and use up draws, or give the next word and move on. -/
theorem generate_cases :
    ∃ n, (∃ e, system.generate =
        (.error e, { system with source := DrawSource.skip system.source n, pending := #[] })) ∨
      ∃ current, system.generate =
        (.ok current, { system with
          current, source := DrawSource.skip system.source n,
          generation := system.generation + 1, pending := #[] }) := by
  obtain ⟨n, hn⟩ := exists_skip_derive system.productions (sites system.current) system.source
  refine ⟨n, ?_⟩
  rw [generate_eq, ← hn, derive]
  rcases ((sites system.current).mapM (deriveAt system.productions)).run system.source
    with ⟨e | outcomes, source⟩
  · exact .inl ⟨e, rfl⟩
  · exact .inr ⟨_, rfl⟩

variable {system}

/-- With nothing pending, a step that fails only uses up draws. -/
theorem exists_skip_of_generate_error (hpending : system.pending = #[]) {e : Error}
    {next : LSystem σ} (h : system.generate = (.error e, next)) :
    ∃ n, next = { system with source := DrawSource.skip system.source n } := by
  obtain ⟨n, ⟨e', hfailed⟩ | ⟨word, hdone⟩⟩ := system.generate_cases
  · refine ⟨n, ?_⟩
    rw [h] at hfailed
    rw [(Prod.mk.inj hfailed).2, ← hpending]
  · rw [h] at hdone
    exact absurd (Prod.mk.inj hdone).1 nofun

/-- Systems that agree in their words, productions, sources and pending elements make the same
step. -/
theorem generate_congr {system other : LSystem σ} (hcurrent : system.current = other.current)
    (hproductions : system.productions = other.productions) (hsource : system.source = other.source)
    (hpending : system.pending = other.pending) :
    system.generate.1 = other.generate.1 ∧
      system.generate.2.current = other.generate.2.current ∧
      system.generate.2.source = other.generate.2.source := by
  rw [generate_eq, generate_eq, hcurrent, hproductions, hsource, hpending]
  rcases (derive other.productions other.current).run other.source with ⟨e | outcomes, source⟩
  · exact ⟨rfl, rfl, rfl⟩
  · exact ⟨rfl, rfl, rfl⟩

/-! ## Several steps -/

variable (system)

/-- The system after a number of calls of `generate`. -/
def after (steps : Nat) : LSystem σ :=
  (fun system : LSystem σ => system.generate.2)^[steps] system

@[simp]
theorem after_zero : system.after 0 = system :=
  rfl

/-- The first step comes before the others. -/
theorem after_succ (steps : Nat) : system.after (steps + 1) = system.generate.2.after steps :=
  Function.iterate_succ_apply _ steps system

@[simp]
theorem after_one : system.after 1 = system.generate.2 :=
  rfl

theorem after_add (steps more : Nat) :
    system.after (steps + more) = (system.after steps).after more := by
  rw [Nat.add_comm]
  exact Function.iterate_add_apply _ more steps system

/-- Whether the current word has been given out makes no difference to a step. -/
theorem generate_started (started : Bool) :
    { system with started }.generate =
      (system.generate.1, { system.generate.2 with started }) := by
  rw [generate_eq, generate_eq]
  simp only
  rcases (derive system.productions system.current).run system.source with ⟨e | outcomes, source⟩
    <;> rfl

theorem after_started (started : Bool) (steps : Nat) :
    { system with started }.after steps = { system.after steps with started } := by
  induction steps generalizing system with
  | zero => rfl
  | succ steps ih => rw [after_succ, generate_started, ih, after_succ]

/-- Steps that succeed are counted, and touch neither the productions nor the mark that the word has
been given out. -/
theorem after_of_succeeds {system : LSystem σ} {steps : Nat}
    (h : ∀ i < steps, ∃ word, (system.after i).generate.1 = .ok word) :
    (system.after steps).generation = system.generation + steps ∧
      (system.after steps).productions = system.productions ∧
      (system.after steps).started = system.started := by
  induction steps with
  | zero => exact ⟨rfl, rfl, rfl⟩
  | succ steps ih =>
    obtain ⟨hgeneration, hunchanged⟩ := ih fun i hi => h i (Nat.lt_succ_of_lt hi)
    obtain ⟨word, hword⟩ := h steps steps.lt_succ_self
    have hstep : system.after (steps + 1) = (system.after steps).generate.2 :=
      after_add system steps 1
    obtain ⟨n, ⟨e, hfailed⟩ | ⟨current, hdone⟩⟩ := (system.after steps).generate_cases
    · rw [hfailed] at hword
      exact absurd hword nofun
    · rw [hstep, hdone]
      exact ⟨by rw [hgeneration, Nat.add_assoc], hunchanged⟩

end LSystem

end Lindenmayer
