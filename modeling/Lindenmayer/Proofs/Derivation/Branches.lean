import Lindenmayer.Proofs.Derivation.Symbols
import Lindenmayer.Proofs.Text.Brackets

/-!
# Branches of derived words

Brackets are no predecessors of any production, so they stay where they are, and what takes the place
of another element is balanced. Hence the words of all generations are balanced if the axiom is. If
no successor is empty, the words never get shorter.
-/

namespace Lindenmayer

open Text (IsBalanced IsBracket)

/-- What is replaced is no bracket, and what takes its place is balanced. -/
structure Production.KeepsBranches (p : Production) : Prop where
  predecessor : ¬IsBracket p.predecessor.symbol
  successor : IsBalanced (p.successor.map Element.symbol)

/-- The axiom is balanced, and all productions keep it so. -/
structure Grammar.KeepsBranches (g : Grammar) : Prop where
  initial : IsBalanced g.initial.symbols
  productions : ∀ p ∈ g.productions, p.KeepsBranches

/-! ## Elements -/

/-- A production applies to elements with the symbol of its predecessor only. -/
theorem Production.symbol_eq_of_applies {p : Production} {site : Site (Element Float)}
    (h : p.applies site = .ok true) : p.predecessor.symbol = site.item.symbol := by
  have hfits := fits_of_applies h
  rw [fits, Bool.and_eq_true, Bool.and_eq_true, Element.compatible, Bool.and_eq_true] at hfits
  exact beq_iff_eq.1 hfits.1.1.1

section
variable {productions : List Production} {site : Site (Element Float)} {draw : Float} {word : Word}
  (hword : IsReplacedBy productions site draw word)

include hword

theorem IsReplacedBy.keepsBranches (h : ∀ p ∈ productions, p.KeepsBranches) :
    Text.KeepsBranches site.item.symbol word.symbols := by
  rcases hword.cases with rfl | ⟨p, hp, happlies, hreplace⟩
  · exact .inl rfl
  · obtain ⟨hpredecessor, hsuccessor⟩ := h p hp
    rw [p.symbol_eq_of_applies happlies] at hpredecessor
    rw [← Production.map_symbol_replace hreplace] at hsuccessor
    exact .inr ⟨hpredecessor, hsuccessor⟩

theorem IsReplacedBy.ne_nil (h : ∀ p ∈ productions, p.successor ≠ []) : word ≠ [] := by
  rcases hword.cases with rfl | ⟨p, hp, -, hreplace⟩
  · exact List.cons_ne_nil _ _
  · rintro rfl
    have hsymbols := Production.map_symbol_replace hreplace
    exact h p hp (List.map_eq_nil_iff.1 hsymbols.symm)

end

/-! ## Words -/

theorem length_le_length_flatten {α β : Type} {items : List α} {words : List (List β)}
    (h : List.Forall₂ (fun _ word => word ≠ []) items words) :
    items.length ≤ words.flatten.length := by
  induction h with
  | nil => exact Nat.le_refl 0
  | cons hword _ ih =>
    have hpos := List.length_pos_of_ne_nil hword
    rw [List.flatten_cons, List.length_append, List.length_cons]
    omega

namespace LSystem

variable {σ : Type} [DrawSource σ] {system next : LSystem σ} {word : Word}

section
variable (hpending : system.pending = #[]) (hgenerate : system.generate = (.ok word, next))

include hpending hgenerate

/-- A step replaces the elements of the word within their branches. -/
theorem isBalanced_of_generate (h : ∀ p ∈ system.productions, p.KeepsBranches)
    (hcurrent : IsBalanced system.current.symbols) : IsBalanced word.symbols := by
  obtain ⟨words, rfl, hwords⟩ := exists_words_of_generate hpending hgenerate
  have hsymbols : system.current.symbols =
      (sites system.current).map (Element.symbol ∘ Site.item) := by
    rw [← List.map_map, map_item_sites]
    rfl
  have hbranches : List.Forall₂ Text.KeepsBranches system.current.symbols
      (words.map Word.symbols) := by
    rw [hsymbols, List.forall₂_map_left_iff, List.forall₂_map_right_iff]
    apply hwords.imp
    rintro site replacement ⟨n, hreplaced⟩
    exact hreplaced.keepsBranches h
  rw [Word.symbols, List.map_flatten]
  exact hcurrent.flatten hbranches

/-- A step that puts something in the place of every element makes the word no shorter. -/
theorem length_le_of_generate (h : ∀ p ∈ system.productions, p.successor ≠ []) :
    system.current.length ≤ word.length := by
  obtain ⟨words, rfl, hwords⟩ := exists_words_of_generate hpending hgenerate
  rw [← length_sites]
  apply length_le_length_flatten
  apply hwords.imp
  rintro site replacement ⟨n, hreplaced⟩
  exact hreplaced.ne_nil h

end

/-! ## Runs -/

/-- A system with a balanced word whose productions are those of a grammar and have been checked. -/
structure IsBranching (g : Grammar) (system : LSystem σ) : Prop where
  current : IsBalanced system.current.symbols
  productions_eq : system.productions = g.productions
  validated : system.Validated
  pending_eq : system.pending = #[]

variable {g : Grammar}

theorem IsBranching.generate (hbranches : g.KeepsBranches) (h : system.IsBranching g) :
    system.generate.2.IsBranching g := by
  have hword := h.validated.generate_eq
  have hsucceeds : ∀ i < 1, ∃ word, (system.after i).generate.1 = .ok word :=
    fun i _ => ⟨_, by rw [(h.validated.after i).generate_eq]⟩
  obtain ⟨-, hproductions, -⟩ := after_of_succeeds hsucceeds
  refine ⟨?_, hproductions.trans h.productions_eq, h.validated.after 1, system.pending_generate⟩
  apply isBalanced_of_generate h.pending_eq hword _ h.current
  rw [h.productions_eq]
  exact hbranches.productions

omit [DrawSource σ] in
theorem isBranching_of_ofGrammar {source : σ} (hbranches : g.KeepsBranches)
    (h : ofGrammar g source = .ok system) : system.IsBranching g := by
  have hvalidated := validated_of_create h
  obtain ⟨-, rfl⟩ := create_eq_ok.1 h
  exact ⟨hbranches.initial, rfl, hvalidated, rfl⟩

/-- Whatever operations are performed, the word stays balanced. -/
theorem IsBranching.run (hbranches : g.KeepsBranches) (h : system.IsBranching g)
    (operations : List Operation) : (Bench.run { system } operations).2.system.IsBranching g := by
  apply Bench.run_induction (P := fun system => system.IsBranching g) _ _ h
  · intro system h
    exact h.generate hbranches
  · intro system h
    exact ⟨h.current, h.productions_eq, h.validated, h.pending_eq⟩

/-- In every state the next generation is at least as long, if no successor is empty. -/
theorem IsBranching.exists_generate (h : system.IsBranching g)
    (hgrowing : ∀ p ∈ g.productions, p.successor ≠ []) :
    ∃ word next, system.generate = (.ok word, next) ∧ system.current.length ≤ word.length := by
  have hword := h.validated.generate_eq
  refine ⟨_, _, hword, length_le_of_generate h.pending_eq hword ?_⟩
  rw [h.productions_eq]
  exact hgrowing

end LSystem

end Lindenmayer
