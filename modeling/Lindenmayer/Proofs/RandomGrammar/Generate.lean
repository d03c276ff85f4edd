import Lindenmayer.Proofs.Random.Twister
import Lindenmayer.Proofs.RandomGrammar.Coverage

/-!
# Drawing random grammars

What is drawn for a random grammar is followed from the weights to the whole text: whatever the
source gives, as long as weights are drawn from 0.2 to 1, the lines have the forms that the grammar
reader is known to read, and the probabilities of each group add up to a hundred hundredths.
-/

namespace Lindenmayer.RandomGrammar

open Drawing (Always always_pure always_true always_integer always_choose)

variable {σ : Type}

section
variable [DrawSource σ] (huniform : Always (Drawing.uniform 0.2 1.0 : Drawing σ Float) IsWeight)

include huniform

/-- As many weights are drawn as are asked for. -/
theorem always_weights (count : Nat) :
    Always (weights count : Drawing σ (List Float))
      fun ws => ws.length = count ∧ ∀ w ∈ ws, IsWeight w := by
  induction count with
  | zero => exact always_pure ⟨rfl, fun w hw => absurd hw List.not_mem_nil⟩
  | succ count ih =>
    refine huniform.bind fun w hw => ih.bind fun ws hws => always_pure ⟨?_, ?_⟩
    · rw [List.length_cons, hws.1]
    · exact List.forall_mem_cons.2 ⟨hw, hws.2⟩

end

/-- There is one line for each probability. -/
theorem always_alternativeLines {line : Float → Drawing σ (List Char)}
    {P : Float → List Char → Prop} (h : ∀ probability, Always (line probability) (P probability))
    (probabilities : List Float) :
    Always (alternativeLines line probabilities) (List.Forall₂ P probabilities) := by
  induction probabilities with
  | nil => exact always_pure .nil
  | cons probability rest ih =>
    exact (h probability).bind fun first hfirst => ih.bind fun others hothers =>
      always_pure (.cons hfirst hothers)

variable [ChoiceSource σ]

section
variable (huniform : Always (Drawing.uniform 0.2 1.0 : Drawing σ Float) IsWeight)

include huniform

/-- The probabilities of the alternatives are hundredths that add up to a hundred. -/
theorem always_alternatives {line : Nat → Float → Drawing σ (List Char)}
    {P : Nat → Float → List Char → Prop}
    (h : ∀ count probability, Always (line count probability) (P count probability)) :
    Always (alternatives line) fun lines => ∃ parts : List Nat, parts.sum = 100 ∧
      parts.length ≤ 3 ∧ List.Forall₂ (P parts.length) (parts.map hundredth) lines := by
  refine (always_integer (by decide)).bind fun count hcount =>
    (always_weights huniform count).bind fun ws hws => ?_
  have hne : ws ≠ [] := fun hnil => by
    rw [hnil, List.length_nil] at hws
    omega
  obtain ⟨parts, hprobabilities, hlength, hsum⟩ := probabilities_eq hws.2 hne (by omega)
  have hcount : parts.length = count := hlength.trans hws.1
  rw [hprobabilities]
  refine (always_alternativeLines (h count) _).mono fun lines hlines => ⟨parts, hsum, by omega, ?_⟩
  rw [hcount]
  exact hlines

/-- Symbolic grammars have lines of the form that is described. -/
theorem always_symbolicLines {symbol : Char} (hsymbol : symbol ∈ ['F', 'X']) :
    Always (symbolicLines symbol : Drawing σ (List (List Char))) IsBody := by
  have hall : ∀ symbol ∈ ['F', 'X'], ¬Text.IsBracket symbol := Text.forall_mem_of_all (by decide)
  have hbracket := hall symbol hsymbol
  have hline (count : Nat) (probability : Float) : Always (do
      let word ← balancedWord branching symbol (← Drawing.integer 8 18)
      return symbol :: probabilityText count probability ++ " = ".toList ++ word :
        Drawing σ (List Char)) (IsSymbolicLine symbol count probability) :=
    (always_true _).bind fun length _ => (always_balancedWord branching hbracket length).bind
      fun word hword => always_pure ⟨word, hword, rfl⟩
  refine (always_alternatives huniform hline).bind fun lines hlines => always_pure ?_
  obtain ⟨parts, hsum, hlength, hlines⟩ := hlines
  exact isBody_symbolic hsymbol hsum hlength hlines

/-- So have parametric ones. -/
theorem always_parametricLines :
    Always (parametricLines : Drawing σ (List (List Char))) IsBody := by
  have hbracket : ¬Text.IsBracket 'A' := by decide
  have hline {ratio : Float} (count : Nat) (probability : Float) : Always (do
      let word ← balancedWord branching 'A' (← Drawing.integer 4 10)
      return "A(l) : l >= 1".toList ++ probabilityText count probability ++ " = ".toList ++
        withParameter ratio word : Drawing σ (List Char))
      (IsParametricLine ratio count probability) :=
    (always_true _).bind fun length _ => (always_balancedWord branching hbracket length).bind
      fun word hword => always_pure ⟨word, hword, rfl⟩
  refine (always_choose 0.5 [0.6, 0.7, 0.8]).bind fun ratio hratio =>
    (always_integer (by decide)).bind fun start hstart =>
      (always_alternatives huniform hline).bind fun lines hlines => always_pure ?_
  obtain ⟨parts, hsum, -, hlines⟩ := hlines
  exact isBody_parametric hratio (by omega) hsum hlines

/-- The lines of a random grammar: the settings, and what they are about. -/
def IsLines (lines : List (List Char)) : Prop :=
  ∃ (angle : Float) (step : Nat) (body : List (List Char)),
    angle.isNaN = false ∧ step ≤ 15 ∧ IsBody body ∧ lines = preamble angle step ++ body

/-- All random grammars have such lines. -/
theorem always_lines : Always (lines : Drawing σ (List (List Char))) IsLines := by
  have hangles : ∀ angle ∈ ([15, 20, 22.5, 25, 30, 36, 45, 60, 90] : List Float),
      angle.isNaN = false := by decide +kernel
  have hsteps : ∀ step ∈ [5, 8, 10, 12, 15], step ≤ 15 := by decide
  refine (always_choose 15 [20, 22.5, 25, 30, 36, 45, 60, 90]).bind fun angle hangle =>
    (always_choose 5 [8, 10, 12, 15]).bind fun step hstep =>
      (always_choose 'F' ['X', 'A']).bind fun symbol hsymbol => ?_
  have hnext (body : List (List Char)) (hbody : IsBody body) :
      Always (pure (preamble angle step ++ body) : Drawing σ (List (List Char))) IsLines :=
    always_pure ⟨angle, step, body, hangles angle hangle, hsteps step hstep, hbody, rfl⟩
  show Always (if symbol == 'A' then _ else _) _
  split
  · exact (always_parametricLines huniform).bind hnext
  · rename_i hother
    have hsymbolic : symbol ∈ ['F', 'X'] := by simp_all
    exact (always_symbolicLines huniform hsymbolic).bind hnext

/-- What holds of the text of all such lines holds of every text that is drawn. -/
theorem always_text {P : List Char → Prop}
    (h : ∀ lines, IsLines lines → P (lines.flatMap (· ++ ['\n']))) :
    Always (text : Drawing σ (List Char)) P :=
  (always_lines huniform).bind fun lines hlines => always_pure (h lines hlines)

end

/-- A text that can be read comes with the grammar that is read. -/
theorem generate_of_parse {source : σ} {g : Grammar}
    (h : Grammar.parse (text.run source).1 = .ok g) :
    generate source = .ok ((text.run source).1, g) := by
  show (Grammar.parse (text.run source).1 >>= fun g => .ok ((text.run source).1, g)) = _
  rw [h]
  rfl

/-- As long as the weights are drawn from 0.2 to 1, whatever else is drawn, the text of a random
grammar is read as the grammar that comes with it; the probabilities in the text are numbers from 0
to 1; and the grammar has an angle and a step and covers all its groups. -/
theorem generate_isSound (hrange : ∀ source : σ,
    0.2 ≤ ((Drawing.uniform 0.2 1.0 : Drawing σ Float).run source).1 ∧
      ((Drawing.uniform 0.2 1.0 : Drawing σ Float).run source).1 ≤ 1.0) (source : σ) :
    ∃ text g, generate source = .ok (text, g) ∧ Grammar.parse text = .ok g ∧
      WritesProbabilities text ∧ g.settings.map Prod.fst = ["angle", "step"] ∧
        g.unbalancedGroups = [] := by
  have htext : Always (text : Drawing σ (List Char)) IsSound := by
    refine always_text hrange fun lines hlines => ?_
    obtain ⟨angle, step, body, hangle, hstep, hbody, rfl⟩ := hlines
    exact isSound_of_isBody hangle hstep hbody
  obtain ⟨g, hparse, hprobabilities, hsettings, hcovered⟩ := htext source
  exact ⟨_, g, generate_of_parse hparse, hparse, hprobabilities, hsettings, hcovered⟩

/-- The generator draws weights in this range, from whatever seed it has been started. -/
theorem generate_isSound_twister :
    (∀ t : Twister, 0.2 ≤ ((Drawing.uniform 0.2 1.0 : Drawing Twister Float).run t).1 ∧
      ((Drawing.uniform 0.2 1.0 : Drawing Twister Float).run t).1 ≤ 1.0) ∧
    ∃ text g, generate (Twister.ofSeed 1) = .ok (text, g) ∧ Grammar.parse text = .ok g ∧
      WritesProbabilities text ∧ g.settings.map Prod.fst = ["angle", "step"] ∧
        g.unbalancedGroups = [] :=
  ⟨Twister.uniform_mem_range, generate_isSound Twister.uniform_mem_range (Twister.ofSeed 1)⟩

end Lindenmayer.RandomGrammar
