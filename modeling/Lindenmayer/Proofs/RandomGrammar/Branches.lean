import Lindenmayer.Proofs.RandomGrammar.Generate

/-!
# Branches of random grammars

The successors of random grammars are drawn with a count of the open brackets and read as they are
written, so random grammars are among those whose derived words are all balanced and never get
shorter.
-/

namespace Lindenmayer

open Text (IsBalanced)

/-- Whatever is drawn, the grammar that is read keeps brackets balanced and elements in place. -/
theorem RandomGrammar.exists_keepsBranches {ρ : Type} [ChoiceSource ρ]
    (hrange : ∀ source : ρ,
      0.0 ≤ (DrawSource.draw source).1 ∧ (DrawSource.draw source).1 < 1.0) (source : ρ) :
    ∃ text g, generate source = .ok (text, g) ∧ Grammar.parse text = .ok g ∧ g.KeepsBranches ∧
      ∀ p ∈ g.productions, p.successor ≠ [] := by
  have huniform : Drawing.Always (Drawing.uniform 0.2 1.0 : Drawing ρ Float) IsWeight := by
    intro source
    exact Drawing.uniform_mem_range (hrange source)
  have htext : Drawing.Always (text : Drawing ρ (List Char)) fun text =>
      ∃ g, Grammar.parse text = .ok g ∧ g.KeepsBranches ∧
        ∀ p ∈ g.productions, p.successor ≠ [] := by
    refine always_text huniform fun lines hlines => ?_
    obtain ⟨angle, step, body, hangle, hstep, hbody, rfl⟩ := hlines
    exact exists_keepsBranches_of_isBody hangle hstep hbody
  obtain ⟨g, hparse, hbranches, hgrowing⟩ := htext source
  exact ⟨_, g, generate_of_parse hparse, hparse, hbranches, hgrowing⟩

namespace Grammar

/-- A grammar without brackets as predecessors, whose axiom and successors are balanced, derives
balanced words only, whatever is drawn and in whatever way the generations are reached; and if no
successor is empty, the words never get shorter. Random grammars are such grammars: the one that is
read from the text that was drawn. -/
theorem branches_are_kept {σ ρ : Type} [DrawSource σ] [ChoiceSource ρ] :
    (∀ (g : Grammar) (source : σ) (system : LSystem σ), g.KeepsBranches →
      LSystem.ofGrammar g source = .ok system → ∀ operations : List Operation,
        let reached := (Bench.run { system } operations).2.system
        IsBalanced reached.current.symbols ∧
          ((∀ p ∈ g.productions, p.successor ≠ []) →
            ∃ word next, reached.generate = (.ok word, next) ∧
              reached.current.length ≤ word.length)) ∧
    ((∀ source : ρ,
        0.0 ≤ (DrawSource.draw source).1 ∧ (DrawSource.draw source).1 < 1.0) →
      ∀ source : ρ, ∃ text g, RandomGrammar.generate source = .ok (text, g) ∧
        parse text = .ok g ∧ g.KeepsBranches ∧ (∀ p ∈ g.productions, p.successor ≠ []) ∧
        ∀ source : σ, ∃ system, LSystem.ofGrammar g source = .ok system) := by
  constructor
  · intro g source system hbranches hcreate operations
    have hreached := (LSystem.isBranching_of_ofGrammar hbranches hcreate).run hbranches operations
    exact ⟨hreached.current, hreached.exists_generate⟩
  · intro hrange source
    obtain ⟨text, g, hgenerate, hparse, hbranches, hgrowing⟩ :=
      RandomGrammar.exists_keepsBranches hrange source
    refine ⟨text, g, hgenerate, hparse, hbranches, hgrowing, ?_⟩
    intro source
    exact ⟨_, LSystem.create_of_bound g.initial source (bound_of_parse hparse)⟩

/-- The axiom `F[A(2)]` with the productions `[ < A(n) : n < 4 ~ 0.5 = F[+A(n + 1)]A(n + 1)` and
`F > [ = FF`. -/
def shrub : Grammar where
  initial := [.plain 'F', .plain '[', ⟨'A', ⟨[2.0], by decide⟩⟩, .plain ']']
  productions := [
    { predecessor := ⟨'A', ⟨["n"], by decide⟩⟩
      left := some (.plain '[')
      condition := some (.binary .lt (.var "n") (.number 4.0))
      probability := 0.5
      successor := [.plain 'F', .plain '[', .plain '+',
        ⟨'A', ⟨[.binary .add (.var "n") (.number 1.0)], by decide⟩⟩, .plain ']',
        ⟨'A', ⟨[.binary .add (.var "n") (.number 1.0)], by decide⟩⟩]
      wellFormed := ⟨by decide, by decide, by decide, by decide⟩ },
    { predecessor := .plain 'F'
      right := some (.plain '[')
      successor := [.plain 'F', .plain 'F']
      wellFormed := ⟨by decide, by decide, by decide, by decide⟩ }]

/-- The first branch of `shrub` gets a branch of its own. -/
theorem branches_are_kept_shrub :
    let source : Replay := { draws := #[0.75, 0.25] }
    shrub.KeepsBranches ∧ (∀ p ∈ shrub.productions, p.successor ≠ []) ∧
    (∃ system, LSystem.ofGrammar shrub source = .ok system ∧
      let reached := (Bench.run { system } [.advance 2]).2.system
      reached.current.symbols = "FFF[FF[+A]A]".toList ∧ IsBalanced reached.current.symbols ∧
      ∃ word next, reached.generate = (.ok word, next) ∧
        reached.current.length ≤ word.length) ∧
    (∀ t : Twister, 0.0 ≤ (DrawSource.draw t).1 ∧ (DrawSource.draw t).1 < 1.0) ∧
    ∃ text g, RandomGrammar.generate (Twister.ofSeed 1) = .ok (text, g) ∧ parse text = .ok g ∧
      g.KeepsBranches ∧ ∀ p ∈ g.productions, p.successor ≠ [] := by
  have hbranches : shrub.KeepsBranches := by
    refine ⟨by decide, List.forall_mem_cons.2 ⟨⟨by decide, by decide⟩,
      List.forall_mem_singleton.2 ⟨by decide, by decide⟩⟩⟩
  have hgrowing : ∀ p ∈ shrub.productions, p.successor ≠ [] :=
    List.forall_mem_cons.2 ⟨nofun, List.forall_mem_singleton.2 nofun⟩
  have hbound : ∀ p ∈ shrub.productions, p.Bound := by
    refine List.forall_mem_cons.2 ⟨?_, List.forall_mem_singleton.2 nofun⟩
    show ∀ name ∈ ["n", "n", "n"], name ∈ ["n"]
    decide
  have hcreate :=
    LSystem.create_of_bound shrub.initial ({ draws := #[0.75, 0.25] } : Replay) hbound
  obtain ⟨hrun, hrandom⟩ := branches_are_kept (σ := Replay) (ρ := Twister)
  obtain ⟨hbalanced, hlength⟩ := hrun shrub _ _ hbranches hcreate [.advance 2]
  obtain ⟨text, g, hgenerate, hparse, hkeeps, hne, -⟩ :=
    hrandom Twister.draw_mem_range (Twister.ofSeed 1)
  exact ⟨hbranches, hgrowing, ⟨_, hcreate, by decide +kernel, hbalanced, hlength hgrowing⟩,
    Twister.draw_mem_range, text, g, hgenerate, hparse, hkeeps, hne⟩

end Grammar

end Lindenmayer
