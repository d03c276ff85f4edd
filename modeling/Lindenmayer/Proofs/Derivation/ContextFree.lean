import Lindenmayer.Proofs.Derivation.Certain

/-!
# Rewriting without contexts

Without contexts the neighbours of an element do not matter, so a word can be rewritten piece by
piece: the second piece takes the draws that the first has left. Where the productions leave no
choice either, the pieces may be rewritten with draws of their own, in as many steps as one likes.
-/

namespace Lindenmayer

/-- No production asks for a neighbour. -/
def IsContextFree (productions : List Production) : Prop :=
  ∀ p ∈ productions, p.left = none ∧ p.right = none

/-- An item without neighbours. -/
def Site.alone {α : Type} (item : α) : Site α :=
  { previous := none, item, following := none }

/-! ## Elements that stand alone -/

section
variable {p : Production} (hleft : p.left = none) (hright : p.right = none)
  (site : Site (Element Float))

include hleft hright

theorem Production.context_alone : p.context site = p.context (.alone site.item) := by
  unfold context
  rw [hleft, hright]
  rfl

/-- Whether a production without contexts applies does not depend on the neighbours. -/
theorem Production.applies_alone : p.applies site = p.applies (.alone site.item) := by
  have hfits : p.fits site = p.fits (.alone site.item) := by
    unfold fits
    rw [hleft, hright]
    rfl
  rw [applies, applies, hfits, p.context_alone hleft hright]

/-- Nor does what it gives. -/
theorem Production.replace_alone : p.replace site = p.replace (.alone site.item) := by
  rw [replace, replace, p.context_alone hleft hright]

end

section
variable {productions : List Production} (hfree : IsContextFree productions)

include hfree

/-- Nor do the candidates. -/
theorem candidates_alone (site : Site (Element Float)) :
    candidates site productions = candidates (.alone site.item) productions := by
  induction productions with
  | nil => rfl
  | cons p rest ih =>
    obtain ⟨hleft, hright⟩ := hfree p List.mem_cons_self
    have hrest := ih fun q hq => hfree q (List.mem_cons_of_mem p hq)
    rw [candidates, candidates, p.applies_alone hleft hright, hrest]

variable {σ : Type} [DrawSource σ]

/-- Nor does what becomes of an element. -/
theorem deriveAt_alone (site : Site (Element Float)) :
    deriveAt (σ := σ) productions site = deriveAt productions (.alone site.item) := by
  apply ExceptT.ext
  funext source
  show (deriveAt productions site).run source = (deriveAt productions (.alone site.item)).run source
  rw [deriveAt_run, deriveAt_run, candidates_alone hfree]
  cases hcandidates : candidates (.alone site.item) productions with
  | error e => rfl
  | ok matching =>
    cases matching with
    | nil => rfl
    | cons first later =>
      simp only
      split
      · rename_i p hselect
        have hp := (applies_of_mem_candidates hcandidates (mem_of_select hselect)).1
        rw [p.replace_alone (hfree p hp).1 (hfree p hp).2 site]
      · rfl

/-- A word is rewritten element by element. -/
theorem derive_eq_mapM_alone (word : Word) :
    derive (σ := σ) productions word =
      word.mapM fun item => deriveAt productions (.alone item) := by
  calc derive productions word
    _ = (sites word).mapM ((fun item => deriveAt productions (.alone item)) ∘ Site.item) := by
      rw [derive]
      congr
      funext site
      exact deriveAt_alone hfree site
    _ = word.mapM fun item => deriveAt productions (.alone item) := by
      rw [← List.mapM_map, map_item_sites]

/-! ## Pieces of a word -/

/-- The second piece goes on with the draws that the first has left. -/
theorem exists_derive_append (hbound : ∀ p ∈ productions, p.Bound) (u v : Word) (source : σ) :
    ∃ first second between last,
      (derive productions u).run source = (.ok first, between) ∧
        (derive productions v).run between = (.ok second, last) ∧
        (derive productions (u ++ v)).run source = (.ok (first ++ second), last) := by
  obtain ⟨first, between, hfirst⟩ := exists_derive hbound u source
  obtain ⟨second, last, hsecond⟩ := exists_derive hbound v between
  refine ⟨first, second, between, last, hfirst, hsecond, ?_⟩
  rw [derive_eq_mapM_alone hfree] at hfirst hsecond ⊢
  rw [List.mapM_append, run_bind, hfirst]
  simp only
  rw [run_bind, hsecond]
  rfl

end

/-! ## Draws left over -/

variable {σ τ ρ : Type}

/-- Both have the same draws to come, but one of them has counted a number of draws more. -/
structure IsAhead (n : Nat) (counted other : Counted σ) : Prop where
  source_eq : counted.source = other.source
  taken_eq : counted.taken = n + other.taken

variable [DrawSource σ] [DrawSource τ] [DrawSource ρ]

/-- What has been counted before makes no difference to a step. -/
theorem IsAhead.alike_derive {n : Nat} {counted other : Counted σ} (h : IsAhead n counted other)
    (productions : List Production) (word : Word) :
    Alike (IsAhead n) ((derive productions word).run counted)
      ((derive productions word).run other) := by
  apply Lindenmayer.alike_derive _ (sites word) h
  apply alike_deriveAt_of_draw
  rintro counted other ⟨hsource, htaken⟩
  refine ⟨?_, ?_, ?_⟩
  · exact congrArg (fun source : σ => (DrawSource.draw source).1) hsource
  · exact congrArg (fun source : σ => (DrawSource.draw source).2) hsource
  · exact congrArg Nat.succ htaken

/-! ## Draws that do not matter -/

open DrawSource (BelowOne skip)

/-- If nothing is left to chance, a rewriting step does not depend on the draws. -/
theorem derive_run_of_certain {productions : List Production} (hcertain : IsCertain productions)
    (word : Word) {source : σ} {source' : τ} (h : BelowOne source) (h' : BelowOne source') :
    ((derive productions word).run source).1 = ((derive productions word).run source').1 := by
  have halike : Alike (fun (source : σ) (source' : τ) => BelowOne source ∧ BelowOne source')
      ((derive productions word).run source) ((derive productions word).run source') := by
    apply alike_derive _ (sites word) ⟨h, h'⟩
    apply alike_deriveAt_of_certain hcertain
    · intro source source' hboth
      exact hboth
    · intro source source' hboth
      exact ⟨hboth.1.rest, hboth.2.rest⟩
  exact halike.1

namespace LSystem

/-- A system between steps, whose productions are the given ones and whose draws are below 1. -/
structure IsReady (productions : List Production) (system : LSystem σ) : Prop where
  productions_eq : system.productions = productions
  pending_eq : system.pending = #[]
  belowOne : BelowOne system.source

/-- A rewriting step leaves a system ready for the next one. -/
theorem IsReady.generate {productions : List Production} {system : LSystem σ}
    (h : system.IsReady productions) : system.generate.2.IsReady productions := by
  obtain ⟨n, ⟨e, hfailed⟩ | ⟨current, hdone⟩⟩ := system.generate_cases
  · rw [hfailed]
    exact ⟨h.productions_eq, rfl, h.belowOne.skip n⟩
  · rw [hdone]
    exact ⟨h.productions_eq, rfl, h.belowOne.skip n⟩

/-- A new system is ready. -/
theorem isReady_of_create {initial : Word} {productions : List Production} {source : σ}
    {system : LSystem σ} (h : create initial productions source = .ok system)
    (hsource : BelowOne source) : system.IsReady productions := by
  obtain ⟨-, rfl⟩ := create_eq_ok.1 h
  exact ⟨rfl, rfl, hsource⟩

section
variable {productions : List Production} (hfree : IsContextFree productions)
  (hcertain : IsCertain productions) (hbound : ∀ p ∈ productions, p.Bound)

include hfree hcertain hbound

/-- One step on two pieces gives the pieces of one step, though each takes draws of its own. -/
theorem current_generate_append {whole : LSystem σ} {first : LSystem τ} {second : LSystem ρ}
    (hwhole : whole.IsReady productions) (hfirst : first.IsReady productions)
    (hsecond : second.IsReady productions)
    (hcurrent : whole.current = first.current ++ second.current) :
    whole.generate.2.current = first.generate.2.current ++ second.generate.2.current := by
  obtain ⟨outcomes, others, between, last, hu, hv, huv⟩ :=
    exists_derive_append hfree hbound first.current second.current whole.source
  have hbetween : BelowOne between := by
    obtain ⟨n, hn⟩ := exists_skip_derive productions (sites first.current) whole.source
    rw [← derive, hu] at hn
    obtain rfl : between = skip whole.source n := hn
    exact hwhole.belowOne.skip n
  -- each piece becomes with draws of its own what it becomes within the whole word
  have hown := derive_run_of_certain hcertain first.current hwhole.belowOne hfirst.belowOne
  have hown' := derive_run_of_certain hcertain second.current hbetween hsecond.belowOne
  rw [hu] at hown
  rw [hv] at hown'
  rw [← hcurrent, ← hwhole.productions_eq] at huv
  rw [← hfirst.productions_eq] at hown
  rw [← hsecond.productions_eq] at hown'
  rw [generate_of_derive hwhole.pending_eq huv,
    generate_of_derive hfirst.pending_eq (Prod.ext hown.symm rfl),
    generate_of_derive hsecond.pending_eq (Prod.ext hown'.symm rfl)]
  exact List.flatMap_append

/-- Hence so do any number of steps. -/
theorem current_after_append {whole : LSystem σ} {first : LSystem τ} {second : LSystem ρ}
    (hwhole : whole.IsReady productions) (hfirst : first.IsReady productions)
    (hsecond : second.IsReady productions)
    (hcurrent : whole.current = first.current ++ second.current) (steps : Nat) :
    (whole.after steps).current = (first.after steps).current ++ (second.after steps).current := by
  induction steps generalizing whole first second with
  | zero => exact hcurrent
  | succ steps ih =>
    apply ih hwhole.generate hfirst.generate hsecond.generate
    exact current_generate_append hfree hcertain hbound hwhole hfirst hsecond hcurrent

end

/-! ## Homomorphisms -/

/-- With productions that have been checked and ask for no neighbours, a step on two words in a row
is a step on the first and, with the draws that it leaves, a step on the second. If every production
has probability 1, any number of steps may be made on the words apart, with any draws below 1. -/
theorem generate_append_of_contextFree {productions : List Production}
    (hfree : IsContextFree productions) (hchecked : validateAll productions = .ok ()) (u v : Word) :
    (∀ source : σ, ∃ whole first second word word',
      create (u ++ v) productions ({ source } : Counted σ) = .ok whole ∧
      create u productions ({ source } : Counted σ) = .ok first ∧
      create v productions ({ source := first.generate.2.source.source } : Counted σ) =
        .ok second ∧
      first.generate.1 = .ok word ∧ second.generate.1 = .ok word' ∧
      whole.generate.1 = .ok (word ++ word') ∧
      whole.generate.2.source.taken =
        first.generate.2.source.taken + second.generate.2.source.taken ∧
      whole.generate.2.source.source = second.generate.2.source.source) ∧
    (IsCertain productions → ∀ (source : σ) (source' : τ) (source'' : ρ),
      BelowOne source → BelowOne source' → BelowOne source'' →
      ∃ whole first second,
        create (u ++ v) productions source = .ok whole ∧
        create u productions source' = .ok first ∧
        create v productions source'' = .ok second ∧
        ∀ steps, ∃ word word', (first.advance steps).1 = .ok word ∧
          (second.advance steps).1 = .ok word' ∧
          (whole.advance steps).1 = .ok (word ++ word')) := by
  have hbound := bound_of_validateAll hchecked
  have hcreate {ω : Type} (initial : Word) (source : ω) := create_of_bound initial source hbound
  refine ⟨fun source => ?_, fun hcertain source source' source'' h h' h'' => ?_⟩
  · obtain ⟨outcomes, others, between, last, hu, hv, huv⟩ :=
      exists_derive_append hfree hbound u v ({ source } : Counted σ)
    -- the second piece goes on with what is left, but its draws are counted from zero
    have hahead : IsAhead between.taken between { source := between.source } := ⟨rfl, rfl⟩
    obtain ⟨answer, _, last', hanswer, hv', hlast⟩ :=
      (hahead.alike_derive productions v).exists_answer
    obtain ⟨rfl, rfl⟩ := Prod.mk.inj (hv.symm.trans hanswer)
    let whole : LSystem (Counted σ) := { current := u ++ v, productions, source := { source } }
    let first : LSystem (Counted σ) := { current := u, productions, source := { source } }
    let second : LSystem (Counted σ) :=
      { current := v, productions, source := { source := between.source } }
    have hwhole : whole.generate = _ := generate_of_derive rfl huv
    have hfirst : first.generate = _ := generate_of_derive rfl hu
    have hsecond : second.generate = _ := generate_of_derive rfl hv'
    refine ⟨_, _, _, _, others.flatMap Outcome.word, hcreate _ _, hcreate _ _, hcreate _ _,
      congrArg Prod.fst hfirst, ?_⟩
    rw [hfirst, hwhole]
    simp only
    rw [hsecond]
    refine ⟨rfl, ?_, hlast.taken_eq, hlast.source_eq⟩
    rw [List.flatMap_append]
  · refine ⟨_, _, _, hcreate _ _, hcreate _ _, hcreate _ _, fun steps => ?_⟩
    have happend := current_after_append hfree hcertain hbound (isReady_of_create (hcreate _ _) h)
      (isReady_of_create (hcreate _ _) h') (isReady_of_create (hcreate _ _) h'')
      (Eq.refl (u ++ v)) steps
    rw [(validated_of_create (hcreate _ _)).advance_eq,
      (validated_of_create (hcreate _ _)).advance_eq,
      (validated_of_create (hcreate _ _)).advance_eq, happend]
    exact ⟨_, _, rfl, rfl, rfl⟩

/-- `AB` and `BA` with the productions of `algae`, and systems with three different seeds. -/
theorem generate_append_of_contextFree_algae :
    IsContextFree algae.productions ∧ IsCertain algae.productions ∧
      validateAll algae.productions = .ok () ∧
      (∃ (whole first second : LSystem (Counted Replay)) (word word' : Word),
        create (Word.ofSymbols ['A', 'B', 'B', 'A']) algae.productions algae.source = .ok whole ∧
        create (Word.ofSymbols ['A', 'B']) algae.productions algae.source = .ok first ∧
        create (Word.ofSymbols ['B', 'A']) algae.productions
          { source := first.generate.2.source.source } = .ok second ∧
        first.generate.1 = .ok word ∧ second.generate.1 = .ok word' ∧
        whole.generate.1 = .ok (word ++ word') ∧
        whole.generate.2.source.taken =
          first.generate.2.source.taken + second.generate.2.source.taken) ∧
      ∃ whole first second,
        create (Word.ofSymbols ['A', 'B', 'B', 'A']) algae.productions (Twister.ofSeed 1) =
          .ok whole ∧
        create (Word.ofSymbols ['A', 'B']) algae.productions (Twister.ofSeed 2) = .ok first ∧
        create (Word.ofSymbols ['B', 'A']) algae.productions (Twister.ofSeed 3) = .ok second ∧
        ∃ word word', (first.advance 3).1 = .ok word ∧ (second.advance 3).1 = .ok word' ∧
          (whole.advance 3).1 = .ok (word ++ word') := by
  have hfree : IsContextFree algae.productions := by
    unfold IsContextFree
    decide
  have hcertain : IsCertain algae.productions := by
    unfold IsCertain
    decide
  have hchecked := (create_eq_ok.1 create_algae).1 rfl
  have happend := generate_append_of_contextFree (σ := Replay) (τ := Twister) (ρ := Twister) hfree
    hchecked (Word.ofSymbols ['A', 'B']) (Word.ofSymbols ['B', 'A'])
  have happend' := generate_append_of_contextFree (σ := Twister) (τ := Twister) (ρ := Twister) hfree
    hchecked (Word.ofSymbols ['A', 'B']) (Word.ofSymbols ['B', 'A'])
  refine ⟨hfree, hcertain, hchecked, ?_, ?_⟩
  · obtain ⟨whole, first, second, word, word', hwhole, hfirst, hsecond, hword, hword', happended,
      htaken, -⟩ := happend.1 { draws := #[0.5] }
    exact ⟨whole, first, second, word, word', hwhole, hfirst, hsecond, hword, hword', happended,
      htaken⟩
  · obtain ⟨whole, first, second, hwhole, hfirst, hsecond, hsteps⟩ := happend'.2 hcertain
      (.ofSeed 1) (.ofSeed 2) (.ofSeed 3) (Twister.belowOne _) (Twister.belowOne _)
      (Twister.belowOne _)
    exact ⟨whole, first, second, hwhole, hfirst, hsecond, hsteps 3⟩

end LSystem

end Lindenmayer
