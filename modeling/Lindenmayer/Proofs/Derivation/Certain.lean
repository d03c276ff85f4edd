import Lindenmayer.Proofs.Derivation.History
import Lindenmayer.Proofs.Derivation.Simulation
import Lindenmayer.Proofs.Random.Twister

/-!
# Productions that leave no choice

Where every production has probability 1, a draw below 1 always falls to the first production that
applies. Draws are taken all the same, but nothing depends on them: two systems that differ in their
draws alone cannot be told apart.
-/

namespace Lindenmayer

variable {σ τ : Type}

open DrawSource (skip nth)

/-! ## Draws below 1 -/

namespace DrawSource

variable [DrawSource σ]

/-- All draws of a source are below 1. -/
def BelowOne (source : σ) : Prop :=
  ∀ n, nth source n < 1.0

variable {source : σ}

theorem BelowOne.draw (h : BelowOne source) : (DrawSource.draw source).1 < 1.0 :=
  h 0

/-- What follows some draws is below 1, too. -/
theorem BelowOne.skip (h : BelowOne source) (n : Nat) : BelowOne (skip source n) := by
  intro m
  rw [← nth_add]
  exact h (n + m)

theorem BelowOne.rest (h : BelowOne source) : BelowOne (DrawSource.draw source).2 :=
  h.skip 1

/-- Counting draws leaves them as they are. -/
theorem nth_counted (source : σ) (taken n : Nat) :
    nth ({ source, taken } : Counted σ) n = nth source n := by
  induction n generalizing source taken with
  | zero => rfl
  | succ n ih => exact ih (DrawSource.draw source).2 (taken + 1)

theorem BelowOne.counted (h : BelowOne source) (taken : Nat) :
    BelowOne ({ source, taken } : Counted σ) := by
  intro n
  rw [nth_counted]
  exact h n

end DrawSource

open DrawSource (BelowOne)

/-- Draws that have been recorded are below 1 if those in the recording are. -/
theorem Replay.belowOne {draws : Array Float} (h : ∀ x ∈ draws, x < 1.0) (taken : Nat) :
    BelowOne ({ draws, taken } : Replay) := by
  intro n
  induction n generalizing taken with
  | zero =>
    show (draws[taken % draws.size]?).getD 0.0 < 1.0
    cases hdraw : draws[taken % draws.size]? with
    | none => decide
    | some x => exact h x (Array.mem_of_getElem? hdraw)
  | succ n ih => exact ih (taken + 1)

/-- Draws of the generator are below 1 whatever its seed. -/
theorem Twister.belowOne (t : Twister) : BelowOne t := by
  intro n
  exact (draw_lt_one (skip t n)).2

/-! ## The first production that applies -/

/-- Every production has probability 1. -/
def IsCertain (productions : List Production) : Prop :=
  ∀ p ∈ productions, p.probability = 1.0

theorem lt_total_of_certain {draw : Float} (hdraw : draw < 1.0) {p : Production}
    (hp : p.probability = 1.0) : draw < 0.0 + p.probability := by
  have hsum : (0.0 + 1.0 : Float) = 1.0 := by decide
  rw [hp, hsum]
  exact hdraw

/-- A production with a probability of 1 is selected whatever the draw. -/
theorem select_of_certain {draw : Float} (hdraw : draw < 1.0) {p : Production}
    (hp : p.probability = 1.0) (later : List Production) :
    select draw 0.0 (p :: later) = .selected p := by
  unfold select
  exact if_pos (lt_total_of_certain hdraw hp)

section
variable [DrawSource σ] [DrawSource τ] {productions : List Production}
  (hcertain : IsCertain productions)

include hcertain

/-- A draw is taken where productions apply, but the first of them replaces the item in any case. -/
theorem deriveAt_run_of_certain (site : Site (Element Float)) {source : σ}
    (hbelow : BelowOne source) :
    (deriveAt productions site).run source =
      match candidates site productions with
      | .error e => (.error e, source)
      | .ok [] => (.ok (.unmatched site.item), source)
      | .ok (p :: _) => ((p.replace site).map .replaced, (DrawSource.draw source).2) := by
  rw [deriveAt_run]
  cases hcandidates : candidates site productions with
  | error e => rfl
  | ok matching =>
    cases matching with
    | nil => rfl
    | cons p later =>
      have hp : p ∈ productions := (applies_of_mem_candidates hcandidates List.mem_cons_self).1
      simp only [select_of_certain hbelow.draw (hcertain p hp) later]

/-- Sources with draws below 1 give the same at every site, and are drawn from equally often. -/
theorem alike_deriveAt_of_certain {S : σ → τ → Prop}
    (hbelow : ∀ source source', S source source' → BelowOne source ∧ BelowOne source')
    (hdraw : ∀ source source', S source source' →
      S (DrawSource.draw source).2 (DrawSource.draw source').2)
    (site : Site (Element Float)) (source : σ) (source' : τ) (h : S source source') :
    Alike S ((deriveAt productions site).run source)
      ((deriveAt productions site).run source') := by
  obtain ⟨hone, htwo⟩ := hbelow source source' h
  rw [deriveAt_run_of_certain hcertain site hone, deriveAt_run_of_certain hcertain site htwo]
  cases candidates site productions with
  | error e => exact ⟨rfl, h⟩
  | ok matching =>
    cases matching with
    | nil => exact ⟨rfl, h⟩
    | cons p later => exact ⟨rfl, hdraw source source' h⟩

end

/-! ## Runs that do not depend on the draws -/

/-- What takes the place of the item of a site if the first production that applies replaces it,
whatever others apply. -/
structure IsReplacedByFirst (productions : List Production) (site : Site (Element Float))
    (draw : Float) (word : Word) : Prop where
  unmatched : matching productions site = [] → word = [site.item]
  first : ∀ p later, matching productions site = p :: later → p.replace site = .ok word
  /-- No later production is the one that the draw falls to. -/
  fires_iff : ∀ p later, matching productions site = p :: later →
    ∀ q, IsFirstAbove draw 0.0 (matching productions site) q ↔ p = q

/-- What replaces an element comes from the first production that applies. -/
theorem IsReplacedBy.first {productions : List Production} (hcertain : IsCertain productions)
    {site : Site (Element Float)} {draw : Float} (hdraw : draw < 1.0) {word : Word}
    (h : IsReplacedBy productions site draw word) :
    IsReplacedByFirst productions site draw word := by
  have hfires : ∀ p later, matching productions site = p :: later →
      ∀ q, IsFirstAbove draw 0.0 (matching productions site) q ↔ p = q := by
    intro p later hmatching q
    have hp : p ∈ matching productions site := by
      rw [hmatching]
      exact List.mem_cons_self
    rw [hmatching]
    exact isFirstAbove_cons_of_lt
      (lt_total_of_certain hdraw (hcertain p (List.mem_of_mem_filter hp))) later
  -- since a draw falls to the first one, that is the one by which the item is replaced
  refine ⟨h.unmatched, ?_, hfires⟩
  intro p later hmatching
  exact h.selected p ((hfires p later hmatching p).2 rfl)

variable [DrawSource σ] [DrawSource τ]

/-- The sources have given equally many draws, and give none that is not below 1. -/
structure InStep (counted : Counted σ) (other : Counted τ) : Prop where
  taken_eq : counted.taken = other.taken
  belowOne : BelowOne counted
  belowOne_other : BelowOne other

theorem InStep.draw {counted : Counted σ} {other : Counted τ} (h : InStep counted other) :
    InStep (DrawSource.draw counted).2 (DrawSource.draw other).2 where
  taken_eq := congrArg Nat.succ h.taken_eq
  belowOne := h.belowOne.rest
  belowOne_other := h.belowOne_other.rest

/-- Two runs that differ in their draws only go in step. -/
theorem isSimulation_inStep {productions : List Production} (hcertain : IsCertain productions) :
    IsSimulation (Resembles productions productions (InStep (σ := σ) (τ := τ))) := by
  apply isSimulation_resembles
  intro site source source' h
  apply alike_deriveAt_of_certain hcertain _ _ site source source' h
  · intro source source' h
    exact ⟨h.belowOne, h.belowOne_other⟩
  · intro source source' h
    exact h.draw

namespace LSystem

/-- If every production has probability 1 and all draws are below 1, two systems with the same axiom
and productions are created or refused alike, and afterwards no operation tells them apart,
failures included. A step replaces each element by the first production that applies. -/
theorem run_ignores_draws (initial : Word) {productions : List Production}
    (hcertain : IsCertain productions) {source : σ} {source' : τ} (hsource : BelowOne source)
    (hsource' : BelowOne source') (validate : Bool) :
    (∀ e, create initial productions ({ source } : Counted σ) validate = .error e ↔
      create initial productions ({ source := source' } : Counted τ) validate = .error e) ∧
    ∀ system other,
      create initial productions ({ source } : Counted σ) validate = .ok system →
      create initial productions ({ source := source' } : Counted τ) validate = .ok other →
      ∀ operations : List Operation,
        let (answers, bench) := Bench.run { system } operations
        let (answers', bench') := Bench.run { system := other } operations
        answers = answers' ∧
          bench.system.current = bench'.system.current ∧
          bench.system.generation = bench'.system.generation ∧
          bench.system.source.taken = bench'.system.source.taken ∧
          ∀ word next, bench.system.generate = (.ok word, next) →
            ∃ words : List Word, word = words.flatten ∧
              List.Forall₂ (fun site replacement => ∃ n,
                IsReplacedByFirst productions site (nth bench.system.source n) replacement)
                (sites bench.system.current) words := by
  constructor
  · intro e
    rw [create_eq_error, create_eq_error]
  · intro system other hcreate hother operations
    have hnew : Resembles productions productions InStep system other :=
      resembles_of_create hcreate hother ⟨rfl, hsource.counted 0, hsource'.counted 0⟩
    obtain ⟨hanswers, hrun⟩ := (isSimulation_inStep hcertain).run_new hnew operations
    refine ⟨hanswers, hrun.current_eq, hrun.generation_eq, hrun.source.taken_eq, ?_⟩
    intro word next hgenerate
    have hreach : Bench.IsReachable (Bench.run { system } operations).2 :=
      ⟨_, _, _, _, _, _, hcreate, rfl⟩
    obtain ⟨words, hword, hwords⟩ := exists_words_of_generate hreach.pending_eq hgenerate
    refine ⟨words, hword, hwords.imp ?_⟩
    rintro site replacement ⟨n, hreplaced⟩
    rw [hrun.productions_eq] at hreplaced
    exact ⟨n, hreplaced.first hcertain (hrun.source.belowOne n)⟩

/-- The productions `A > A = B` and `A = AA`, of which the first goes before the second where both
apply, and `B = C(z)`, which always fails. -/
def eager : List Production := [
  { predecessor := .plain 'A'
    right := some (.plain 'A')
    successor := [.plain 'B']
    wellFormed := ⟨by decide, by decide, by decide, by decide⟩ },
  { predecessor := .plain 'A'
    successor := [.plain 'A', .plain 'A']
    wellFormed := ⟨by decide, by decide, by decide, by decide⟩ },
  { predecessor := .plain 'B'
    successor := [⟨'C', ⟨[.var "z"], by decide⟩⟩]
    wellFormed := ⟨by decide, by decide, by decide, by decide⟩ }]

/-- The word `A` becomes `AA` and `BAA`, and then no step succeeds any more, whatever the draws. -/
theorem run_ignores_draws_eager :
    let initial := Word.ofSymbols ['A']
    let low : Replay := { draws := #[0.0] }
    let high : Replay := { draws := #[0.75, 0.5] }
    let operations := [Operation.next, .advance 2, .generate]
    IsCertain eager ∧ BelowOne low ∧ BelowOne high ∧
    ∃ system other,
      create initial eager ({ source := low } : Counted Replay) false = .ok system ∧
      create initial eager ({ source := high } : Counted Replay) false = .ok other ∧
      (Bench.run { system } operations).1 = [.ok (some (Word.ofSymbols ['A'])),
        .ok (some (Word.ofSymbols ['B', 'A', 'A'])), .error (.unbound "z")] ∧
      (Bench.run { system } operations).1 = (Bench.run { system := other } operations).1 ∧
      (Bench.run { system } operations).2.system.source.taken = 4 ∧
      (Bench.run { system := other } operations).2.system.source.taken = 4 := by
  have hcertain : IsCertain eager := by
    unfold IsCertain
    decide
  have hlow : BelowOne ({ draws := #[0.0] } : Replay) := Replay.belowOne (by decide) 0
  have hhigh : BelowOne ({ draws := #[0.75, 0.5] } : Replay) := Replay.belowOne (by decide) 0
  have hrun := (run_ignores_draws (Word.ofSymbols ['A']) hcertain hlow hhigh false).2 _ _ rfl rfl
    [.next, .advance 2, .generate]
  exact ⟨hcertain, hlow, hhigh, _, _, rfl, rfl, by rfl, hrun.1, by rfl,
    hrun.2.2.2.1.symm.trans (by rfl)⟩

end LSystem

end Lindenmayer
