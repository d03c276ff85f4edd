import Lindenmayer.Proofs.Derivation.History
import Lindenmayer.Proofs.Grammar.Printer

/-!
# Symbols of derived words

What takes the place of an element has the symbols of a successor, so a derived word has no other
symbols than the axiom and the successors. All of them can be read, and whatever the parameters have
become, a derived word is read back from its text unless one of them is NaN.
-/

namespace Lindenmayer

/-- A production puts the symbols of its successor in the place of an element. -/
theorem Production.map_symbol_replace {p : Production} {site : Site (Element Float)} {word : Word}
    (h : p.replace site = .ok word) : word.symbols = p.successor.map Element.symbol := by
  unfold replace at h
  generalize p.successor = successor at h
  induction successor generalizing word with
  | nil =>
    obtain rfl := Except.ok.inj h
    rfl
  | cons e successor ih =>
    obtain ⟨first, others, hfirst, hothers, rfl⟩ := mapM_cons_eq_ok.1 h
    obtain ⟨params, -, hfirst⟩ := bind_eq_ok.1 hfirst
    obtain rfl := Except.ok.inj hfirst
    rw [List.map_cons, ← ih hothers]
    rfl

namespace LSystem

variable {σ : Type}

/-- The symbols of the current word and of all successors have a property. -/
structure UsesOnly (P : Char → Prop) (system : LSystem σ) : Prop where
  current : ∀ e ∈ system.current, P e.symbol
  successors : ∀ p ∈ system.productions, ∀ e ∈ p.successor, P e.symbol
  pending_eq : system.pending = #[]

variable {P : Char → Prop} {system : LSystem σ}

/-- What takes the place of an element of the word has such symbols too. -/
theorem UsesOnly.isReplacedBy (h : system.UsesOnly P) {site : Site (Element Float)}
    (hsite : site.item ∈ system.current) {draw : Float} {word : Word}
    (hword : IsReplacedBy system.productions site draw word) : ∀ e ∈ word, P e.symbol := by
  rcases hword.cases with rfl | ⟨p, hp, -, hreplace⟩
  · exact List.forall_mem_singleton.2 (h.current _ hsite)
  · intro e he
    have hsymbol : e.symbol ∈ word.symbols := List.mem_map_of_mem he
    rw [Production.map_symbol_replace hreplace] at hsymbol
    obtain ⟨s, hs, hsame⟩ := List.mem_map.1 hsymbol
    exact hsame ▸ h.successors p hp s hs

variable [DrawSource σ]

theorem UsesOnly.generate (h : system.UsesOnly P) : system.generate.2.UsesOnly P := by
  rcases hgenerate : system.generate with ⟨e | word, next⟩
  · obtain ⟨n, rfl⟩ := exists_skip_of_generate_error h.pending_eq hgenerate
    exact ⟨h.current, h.successors, h.pending_eq⟩
  · obtain ⟨outcomes, source, hderive, rfl, rfl⟩ :=
      exists_outcomes_of_generate h.pending_eq hgenerate
    refine ⟨fun e he => ?_, h.successors, h.pending_eq⟩
    obtain ⟨outcome, houtcome, he⟩ := List.mem_flatMap.1 he
    obtain ⟨site, hsite, draw, hword⟩ := exists_isReplacedBy_of_mem hderive houtcome
    exact h.isReplacedBy (item_mem_of_mem_sites hsite) hword e he

/-- No number of steps brings in a further symbol. -/
theorem UsesOnly.after (h : system.UsesOnly P) (steps : Nat) : (system.after steps).UsesOnly P := by
  induction steps generalizing system with
  | zero => exact h
  | succ steps ih => exact ih h.generate

/-! ## Reading derived words -/

omit [DrawSource σ] in
/-- A grammar that has been read gives a system, and all its symbols can be read. -/
theorem exists_usesOnly_of_parse {text : List Char} {grammar : Grammar}
    (h : Grammar.parse text = .ok grammar) (source : σ) :
    ∃ system, ofGrammar grammar source = .ok system ∧ system.IsNew ∧
      system.UsesOnly Element.IsSymbol := by
  have hreadable := Grammar.isReadable_of_parse h
  have hcreate := create_of_bound grammar.initial source (Grammar.bound_of_parse h)
  exact ⟨_, hcreate, isNew_of_create hcreate, (hreadable.initial _ rfl).2,
    fun p hp => (hreadable.productions p hp).successor_symbol, rfl⟩

/-- Every non-empty word that a grammar derives is read back from its text if it has no NaN, and
otherwise the first NaN is reported as a formula that cannot be read. -/
theorem parse_text_after {text : List Char} {grammar : Grammar}
    (h : Grammar.parse text = .ok grammar) (source : σ) :
    ∃ system, ofGrammar grammar source = .ok system ∧ ∀ steps,
      let word := (system.after steps).current
      (system.after steps).generation = steps ∧
        (word ≠ [] → word.IsNumeric → Word.parse word.text = .ok word) ∧
        (word ≠ [] → ¬word.IsNumeric → Word.parse word.text =
          .error (.formula (.unexpected 'a') 2 ['n', 'a', 'n'])) := by
  obtain ⟨system, hsystem, hnew, hsymbols⟩ := exists_usesOnly_of_parse h source
  refine ⟨system, hsystem, fun steps => ?_⟩
  have hgeneration := (hnew.validated.after_unchanged steps).1
  have hreadable (hword : (system.after steps).current ≠ []) :
      (system.after steps).current.IsReadable :=
    ⟨hword, (hsymbols.after steps).current⟩
  rw [hnew.generation_eq, Nat.zero_add] at hgeneration
  exact ⟨hgeneration,
    fun hword hnumeric => (hreadable hword).parse_text_eq_ok.2 ⟨hnumeric, rfl⟩,
    fun hword hnumeric => (hreadable hword).parse_text_of_not_isNumeric hnumeric⟩

/-- The axiom `A(1)B(-0)` with the production `A(x) = A(1/0-x)`. -/
def overflow : Grammar where
  initial := [⟨'A', ⟨[1.0], by decide⟩⟩, ⟨'B', ⟨[-0.0], by decide⟩⟩]
  productions := [{
    predecessor := ⟨'A', ⟨["x"], Params.length_singleton_le "x"⟩⟩
    successor := [⟨'A', ⟨[.binary .sub (.binary .div (.number 1.0) (.number 0.0)) (.var "x")],
      by decide⟩⟩]
    wellFormed := ⟨by decide, by decide, by decide, by decide⟩ }]

theorem parse_overflow : Grammar.parse "A(1)B(-0)\nA(x)=A(1/0-x)\n".toList = .ok overflow := by
  have htext : "A(1)B(-0)\nA(x)=A(1/0-x)\n".toList = overflow.text := by decide +kernel
  rw [htext]
  refine Grammar.parse_text_of_isFaithful ⟨?_, ?_, ⟨nofun, List.nodup_nil⟩⟩ ?_
    ⟨nofun, ?_, ?_, by rfl, ?_⟩
  · rintro word hword
    obtain rfl := Option.some.inj hword
    refine ⟨List.cons_ne_nil _ _, ?_⟩
    unfold Element.IsSymbol
    decide
  · refine List.forall_mem_singleton.2 ⟨nofun, ?_, nofun, nofun, ?_, ?_⟩
    · unfold Production.IsUnmarked Element.IsSymbol
      decide
    · unfold Element.IsSymbol
      decide
    · exact List.forall_mem_singleton.2
        (List.forall_mem_singleton.2 ⟨⟨rfl, rfl⟩, 'x', rfl, rfl⟩)
  · refine List.forall_mem_singleton.2 ?_
    show ∀ name ∈ ["x"], name ∈ ["x"]
    decide
  · unfold Word.IsNumeric
    decide
  · exact fun rest htext => absurd (List.cons.inj htext).1 (by decide)
  · refine List.forall_mem_singleton.2 fun hloose => ?_
    exact absurd hloose.2 (by decide)

/-- The parameter of `A` becomes infinite in one step and a NaN in the next, and that of `B` keeps
its sign. -/
theorem parse_text_after_overflow :
    ∃ system, Grammar.parse "A(1)B(-0)\nA(x)=A(1/0-x)\n".toList = .ok overflow ∧
      ofGrammar overflow (Replay.mk #[0.5] 0) = .ok system ∧
      (system.after 1).current.text = "A(1e999)B(-0)".toList ∧
      Word.parse (system.after 1).current.text = .ok (system.after 1).current ∧
      (system.after 2).current.text = "A(nan)B(-0)".toList ∧
      Word.parse (system.after 2).current.text =
        .error (.formula (.unexpected 'a') 2 ['n', 'a', 'n']) := by
  have hcreate := create_of_bound overflow.initial (Replay.mk #[0.5] 0)
    (Grammar.bound_of_parse parse_overflow)
  obtain ⟨system, hsystem, hafter⟩ := parse_text_after parse_overflow (Replay.mk #[0.5] 0)
  obtain rfl := Except.ok.inj (hcreate.symm.trans hsystem)
  refine ⟨_, parse_overflow, hsystem, by decide +kernel, (hafter 1).2.1 (by decide +kernel) ?_,
    by decide +kernel, (hafter 2).2.2 (by decide +kernel) ?_⟩
  · unfold Word.IsNumeric
    decide +kernel
  · unfold Word.IsNumeric
    decide +kernel

end LSystem

end Lindenmayer
