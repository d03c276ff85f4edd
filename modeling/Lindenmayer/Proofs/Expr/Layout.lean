import Lindenmayer.Proofs.Expr.Characters
import Lindenmayer.Proofs.Expr.Parser
import Lindenmayer.Proofs.Text.Layout

/-!
# The layout of formulas

A formula is cut into literals, operators and single other characters. Blanks may be put wherever it
is cut: the longer text is a formula with the same tree.
-/

namespace Lindenmayer.Expr

open Text

/-! ## Lexemes -/

/-- Cuts the text of a formula, but neither literals nor operators. A sign belongs to a literal
where an operand is expected. -/
def lexemes (operand : Bool) (text : List Char) : List (List Char) :=
  match text with
  | [] => []
  | c :: rest =>
    if isBlank c then [c] :: lexemes operand rest
    else if operand then
      match hnumber : Literal.take? (c :: rest) with
      | some (_, after) =>
        have : after.length ≤ rest.length := Nat.le_of_lt_succ (Literal.length_lt_of_take? hnumber)
        (c :: rest).take ((c :: rest).length - after.length) :: lexemes false after
      | none => [c] :: lexemes (c == '(') rest
    else
      match hop : takeOp? (c :: rest) with
      | some (op, after) =>
        have : after.length ≤ rest.length := Nat.le_of_lt_succ (length_lt_of_takeOp? hop)
        op.text :: lexemes true after
      | none => [c] :: lexemes false rest
termination_by text.length

/-- The pieces into which a formula is cut. -/
def IsLexeme (piece : List Char) : Prop :=
  (∃ c, piece = [c]) ∨ (∃ d, Literal.IsLiteral piece d) ∨ ∃ op : Op, piece = op.text

@[simp]
theorem lexemes_nil (operand : Bool) : lexemes operand [] = [] := by
  rw [lexemes]

/-- A blank is a lexeme of its own. -/
theorem lexemes_blank {c : Char} (h : isBlank c) (operand : Bool) (rest : List Char) :
    lexemes operand (c :: rest) = [c] :: lexemes operand rest := by
  rw [lexemes, if_pos h]

theorem lexemes_blanks {blanks : List Char} (h : IsBlanks blanks) (operand : Bool)
    (rest : List Char) :
    lexemes operand (blanks ++ rest) = characters blanks ++ lexemes operand rest := by
  induction blanks with
  | nil => rfl
  | cons c blanks ih =>
    obtain ⟨hc, hblanks⟩ := List.forall_mem_cons.1 h
    rw [List.cons_append, lexemes_blank hc, ih hblanks]
    rfl

/-- Where an operand is due, a number is a lexeme. -/
theorem lexemes_of_take? {c : Char} (hblank : ¬isBlank c) {literal rest tail : List Char}
    {d : Decimal} (htext : c :: tail = literal ++ rest)
    (h : Literal.take? (c :: tail) = some (d, rest)) :
    lexemes true (c :: tail) = literal :: lexemes false rest := by
  have hpiece : (c :: tail).take ((c :: tail).length - rest.length) = literal := by
    rw [htext, List.length_append, Nat.add_sub_cancel_right, List.take_left]
  rw [lexemes, if_neg hblank, if_pos rfl]
  split
  · rename_i hsome
    rw [h] at hsome
    obtain ⟨rfl, rfl⟩ := Prod.mk.inj (Option.some.inj hsome)
    exact congrArg (· :: lexemes false rest) hpiece
  · rename_i hnone
    rw [h] at hnone
    cases hnone

/-- If there is none, the next character is a lexeme. -/
theorem lexemes_of_take?_none {c : Char} (hblank : ¬isBlank c) {rest : List Char}
    (h : Literal.take? (c :: rest) = none) :
    lexemes true (c :: rest) = [c] :: lexemes (c == '(') rest := by
  rw [lexemes, if_neg hblank, if_pos rfl]
  split
  · rename_i hsome
    rw [h] at hsome
    cases hsome
  · rfl

/-- Where an operator is due, it is a lexeme. -/
theorem lexemes_of_takeOp? {c : Char} (hblank : ¬isBlank c) {rest tail : List Char} {op : Op}
    (h : takeOp? (c :: tail) = some (op, rest)) :
    lexemes false (c :: tail) = op.text :: lexemes true rest := by
  rw [lexemes, if_neg hblank, if_neg Bool.false_ne_true]
  split
  · rename_i hsome
    rw [h] at hsome
    obtain ⟨rfl, rfl⟩ := Prod.mk.inj (Option.some.inj hsome)
    rfl
  · rename_i hnone
    rw [h] at hnone
    cases hnone

/-- If there is none, the next character is a lexeme here, too. -/
theorem lexemes_of_takeOp?_none {c : Char} (hblank : ¬isBlank c) {rest : List Char}
    (h : takeOp? (c :: rest) = none) : lexemes false (c :: rest) = [c] :: lexemes false rest := by
  rw [lexemes, if_neg hblank, if_neg Bool.false_ne_true]
  split
  · rename_i hsome
    rw [h] at hsome
    cases hsome
  · rfl

/-- A text is cut in one of three ways at its front. -/
theorem lexemes_cases (operand : Bool) (c : Char) (tail : List Char) :
    ∃ piece rest operand', c :: tail = piece ++ rest ∧ IsLexeme piece ∧
      rest.length ≤ tail.length ∧
      lexemes operand (c :: tail) = piece :: lexemes operand' rest := by
  have hsingle : IsLexeme [c] := .inl ⟨c, rfl⟩
  by_cases hblank : isBlank c
  · exact ⟨[c], tail, operand, rfl, hsingle, Nat.le_refl _, lexemes_blank hblank operand tail⟩
  cases operand with
  | true =>
    cases hnumber : Literal.take? (c :: tail) with
    | none =>
      exact ⟨[c], tail, _, rfl, hsingle, Nat.le_refl _, lexemes_of_take?_none hblank hnumber⟩
    | some taken =>
      obtain ⟨d, rest⟩ := taken
      obtain ⟨literal, hliteral, htext⟩ := Literal.isLiteral_of_take? hnumber
      exact ⟨literal, rest, false, htext, .inr (.inl ⟨d, hliteral⟩),
        Nat.le_of_lt_succ (Literal.length_lt_of_take? hnumber),
        lexemes_of_take? hblank htext hnumber⟩
  | false =>
    cases hop : takeOp? (c :: tail) with
    | none =>
      exact ⟨[c], tail, _, rfl, hsingle, Nat.le_refl _, lexemes_of_takeOp?_none hblank hop⟩
    | some taken =>
      obtain ⟨op, rest⟩ := taken
      exact ⟨op.text, rest, true, append_of_takeOp? hop, .inr (.inr ⟨op, rfl⟩),
        Nat.le_of_lt_succ (length_lt_of_takeOp? hop), lexemes_of_takeOp? hblank hop⟩

/-- Nothing is lost when a formula is cut, and what is left whole is a literal or an operator. -/
theorem lexemes_spec (operand : Bool) (text : List Char) :
    (lexemes operand text).flatten = text ∧ ∀ piece ∈ lexemes operand text, IsLexeme piece := by
  induction hn : text.length using Nat.strongRecOn generalizing text operand with
  | _ n ih =>
    subst hn
    cases text with
    | nil =>
      rw [lexemes_nil]
      exact ⟨rfl, fun piece hpiece => absurd hpiece List.not_mem_nil⟩
    | cons c tail =>
      obtain ⟨piece, rest, operand', htext, hpiece, hlength, hcut⟩ := lexemes_cases operand c tail
      obtain ⟨hflatten, hpieces⟩ := ih rest.length (Nat.lt_succ_of_le hlength) operand' rest rfl
      rw [hcut, List.flatten_cons, hflatten]
      exact ⟨htext.symm, List.forall_mem_cons.2 ⟨hpiece, hpieces⟩⟩

/-! ### The tokens of a formula -/

/-- A number is cut off as a whole. -/
theorem lexemes_literal {literal rest : List Char} {d : Decimal}
    (h : Literal.IsLiteral literal d) (hrest : Literal.EndsLiteral rest) :
    lexemes true (literal ++ rest) = literal :: lexemes false rest := by
  have htake := Literal.take?_append h hrest
  cases hliteral : literal with
  | nil => exact absurd hliteral h.ne_nil
  | cons c tail =>
    have hc : c ∈ literal := hliteral ▸ List.mem_cons_self
    rw [hliteral] at htake
    exact lexemes_of_take? (isFormulaChar_of_mem_literal h hc).not_isBlank rfl htake

/-- A letter is an operand. -/
theorem lexemes_letter {c : Char} (h : c.isAlpha) (rest : List Char) :
    lexemes true (c :: rest) = [c] :: lexemes false rest := by
  have hopen : (c == '(') = false := by
    rw [beq_eq_false_iff_ne]
    rintro rfl
    exact absurd h (by decide)
  rw [lexemes_of_take?_none (not_isBlank_of_isAlpha h) (Literal.take?_of_isAlpha h rest), hopen]

@[simp]
theorem lexemes_open (rest : List Char) : lexemes true ('(' :: rest) = ['('] :: lexemes true rest :=
  lexemes_of_take?_none (by decide) (Literal.take?_of_head (by decide) (by decide) rest)

@[simp]
theorem lexemes_close (rest : List Char) :
    lexemes false (')' :: rest) = [')'] :: lexemes false rest :=
  lexemes_of_takeOp?_none (by decide) rfl

/-- An operator is cut off as a whole. -/
theorem lexemes_op (op : Op) {rest : List Char} (h : ∀ c ∈ rest.head?, c ≠ '=') :
    lexemes false (op.text ++ rest) = op.text :: lexemes true rest := by
  have htake := takeOp?_append op h
  cases hop : op.text with
  | nil => cases op <;> exact absurd hop nofun
  | cons c tail =>
    have hc : c ∈ op.text := hop ▸ List.mem_cons_self
    rw [hop, List.cons_append] at htake
    rw [List.cons_append, lexemes_of_takeOp? (isFormulaChar_of_mem_op hc).not_isBlank htake, hop]

/-! ## Longer formulas -/

/-- The pieces of a derived text, which come out whatever follows it; spread texts are derived
too. -/
structure IsCut (k : Nat) (e : Expr) (text : List Char) (pieces : List (List Char)) : Prop where
  lexemes_eq : ∀ rest, Literal.EndsLiteral rest →
    lexemes true (text ++ rest) = pieces ++ lexemes false rest
  derives : ∀ text', Spreads pieces text' →
    ∃ formula blanks, text' = formula ++ blanks ∧ Derives k formula e ∧ IsBlanks blanks

/-- A number with blanks in front of it is cut as it should be. -/
theorem isCut_literal {blanks literal : List Char} {d : Decimal} (hblanks : IsBlanks blanks)
    (hliteral : Literal.IsLiteral literal d) :
    IsCut 6 (.number d.toFloat) (blanks ++ literal) (characters blanks ++ [literal]) where
  lexemes_eq := by
    intro rest hrest
    rw [List.append_assoc, lexemes_blanks hblanks, lexemes_literal hliteral hrest,
      List.append_assoc, List.singleton_append]
  derives := by
    intro text' hspread
    obtain ⟨front, back, rfl, hfront, hback⟩ := hspread.exists_append
    cases hback with
    | @cons more _ after _ hmore hafter =>
      cases hafter with
      | nil hafter =>
        refine ⟨front ++ more ++ literal, after, ?_,
          .literal ((hfront.isBlanks hblanks).append hmore) hliteral, hafter⟩
        rw [List.append_assoc, List.append_assoc]

/-- So is a letter. -/
theorem isCut_letter {blanks : List Char} {c : Char} (hblanks : IsBlanks blanks)
    (hletter : c.isAlpha) :
    IsCut 6 (.var (String.singleton c)) (blanks ++ [c]) (characters blanks ++ [[c]]) where
  lexemes_eq := by
    intro rest _
    rw [List.append_assoc, lexemes_blanks hblanks, List.singleton_append, lexemes_letter hletter,
      List.append_assoc, List.singleton_append]
  derives := by
    intro text' hspread
    obtain ⟨front, after, rfl, hfront, hafter⟩ := hspread.exists_mark
    cases hafter with
    | nil hafter =>
      refine ⟨front ++ [c], after, ?_, .letter (hfront.isBlanks hblanks) hletter, hafter⟩
      rw [List.append_assoc, List.singleton_append]

/-- So is a formula in parentheses. -/
theorem IsCut.group {blanks inner blanks' : List Char} {e : Expr} {pieces : List (List Char)}
    (h : IsCut 1 e inner pieces) (hblanks : IsBlanks blanks) (hblanks' : IsBlanks blanks') :
    IsCut 6 e (blanks ++ '(' :: (inner ++ (blanks' ++ [')'])))
      (characters blanks ++ ['('] :: (pieces ++ (characters blanks' ++ [[')']]))) where
  lexemes_eq := by
    intro rest _
    have hclose : Literal.EndsLiteral (blanks' ++ ')' :: rest) :=
      endsLiteral_blanks hblanks' (Literal.endsLiteral_cons.2 (by decide))
    simp only [List.append_assoc, List.cons_append, List.nil_append]
    rw [lexemes_blanks hblanks, lexemes_open, h.lexemes_eq _ hclose, lexemes_blanks hblanks',
      lexemes_close]
  derives := by
    intro text' hspread
    obtain ⟨front, back, rfl, hfront, hback⟩ := hspread.exists_mark
    obtain ⟨body, tail, rfl, hbody, htail⟩ := hback.exists_append
    obtain ⟨gap, after, rfl, hgap, hafter⟩ := htail.exists_mark
    obtain ⟨formula, more, rfl, hformula, hmore⟩ := h.derives body hbody
    cases hafter with
    | nil hafter =>
      refine ⟨_, after, ?_, .group (hfront.isBlanks hblanks) hformula
        (hmore.append (hgap.isBlanks hblanks')), hafter⟩
      simp only [List.append_assoc, List.cons_append, List.nil_append]

/-- So are two operands with an operator between them. -/
theorem IsCut.binary {k kₗ kᵣ : Nat} {textₗ blanks textᵣ : List Char} {op : Op} {eₗ eᵣ : Expr}
    {piecesₗ piecesᵣ : List (List Char)} (hleft : IsCut kₗ eₗ textₗ piecesₗ)
    (hblanks : IsBlanks blanks) (hright : IsCut kᵣ eᵣ textᵣ piecesᵣ)
    (hhead : ∃ c rest, textᵣ = c :: rest ∧ c ≠ '=')
    (hjoin : ∀ {formulaₗ gap formulaᵣ}, Derives kₗ formulaₗ eₗ → IsBlanks gap →
      Derives kᵣ formulaᵣ eᵣ →
      Derives k (formulaₗ ++ (gap ++ (op.text ++ formulaᵣ))) (.binary op eₗ eᵣ)) :
    IsCut k (.binary op eₗ eᵣ) (textₗ ++ (blanks ++ (op.text ++ textᵣ)))
      (piecesₗ ++ (characters blanks ++ op.text :: piecesᵣ)) where
  lexemes_eq := by
    intro rest hrest
    obtain ⟨c, tail, htext, hc⟩ := hhead
    have hnext : ∀ d ∈ (textᵣ ++ rest).head?, d ≠ '=' := by simp [htext, hc]
    simp only [List.append_assoc, List.cons_append]
    rw [hleft.lexemes_eq _ (endsLiteral_blanks hblanks (endsLiteral_op op _)),
      lexemes_blanks hblanks, lexemes_op op hnext, hright.lexemes_eq rest hrest]
  derives := by
    intro text' hspread
    obtain ⟨front, back, rfl, hfront, hback⟩ := hspread.exists_append
    obtain ⟨gap, tail, rfl, hgap, htail⟩ := hback.exists_append
    obtain ⟨formulaₗ, more, rfl, hformulaₗ, hmore⟩ := hleft.derives front hfront
    cases htail with
    | @cons more' _ operand _ hmore' hoperand =>
      obtain ⟨formulaᵣ, after, rfl, hformulaᵣ, hafter⟩ := hright.derives operand hoperand
      refine ⟨_, after, ?_, hjoin hformulaₗ ((hmore.append (hgap.isBlanks hblanks)).append hmore')
        hformulaᵣ, hafter⟩
      simp only [List.append_assoc]

/-- Every derived text is cut, by induction on its derivation. -/
theorem Derives.exists_isCut {k : Nat} {text : List Char} {e : Expr} (h : Derives k text e) :
    ∃ pieces, IsCut k e text pieces := by
  induction h with
  | literal hblanks hliteral => exact ⟨_, isCut_literal hblanks hliteral⟩
  | letter hblanks hletter => exact ⟨_, isCut_letter hblanks hletter⟩
  | group hblanks _ hblanks' ih =>
    obtain ⟨pieces, hpieces⟩ := ih
    exact ⟨_, hpieces.group hblanks hblanks'⟩
  | tighter _ ih =>
    obtain ⟨pieces, hpieces⟩ := ih
    refine ⟨pieces, hpieces.lexemes_eq, fun text' hspread => ?_⟩
    obtain ⟨formula, blanks, htext, hformula, hblanks⟩ := hpieces.derives text' hspread
    exact ⟨formula, blanks, htext, .tighter hformula, hblanks⟩
  | left hop _ hblanks hright ihₗ ihᵣ =>
    obtain ⟨piecesₗ, hpiecesₗ⟩ := ihₗ
    obtain ⟨piecesᵣ, hpiecesᵣ⟩ := ihᵣ
    exact ⟨_, hpiecesₗ.binary hblanks hpiecesᵣ hright.head (.left hop)⟩
  | power _ hblanks hright ihₗ ihᵣ =>
    obtain ⟨piecesₗ, hpiecesₗ⟩ := ihₗ
    obtain ⟨piecesᵣ, hpiecesᵣ⟩ := ihᵣ
    exact ⟨_, hpiecesₗ.binary hblanks hpiecesᵣ hright.head .power⟩

/-- A formula that is spread is a formula with the same tree. -/
theorem IsFormula.spreads {text text' : List Char} {e : Expr} (h : IsFormula text e)
    (hspread : Spreads (lexemes true text) text') : IsFormula text' e := by
  obtain ⟨formula, blanks, hderives, hblanks, rfl⟩ := h
  obtain ⟨pieces, hpieces⟩ := hderives.exists_isCut
  have hends : Literal.EndsLiteral blanks := by
    simpa using endsLiteral_blanks hblanks Literal.endsLiteral_nil
  have hrest : lexemes false blanks = characters blanks := by
    simpa using lexemes_blanks hblanks false []
  rw [hpieces.lexemes_eq blanks hends, hrest] at hspread
  obtain ⟨front, back, rfl, hfront, hback⟩ := hspread.exists_append
  obtain ⟨formula', more, rfl, hformula, hmore⟩ := hpieces.derives front hfront
  refine ⟨formula', more ++ back, hformula, hmore.append (hback.isBlanks hblanks), ?_⟩
  rw [List.append_assoc]

/-! ## The ends of a formula -/

/-- Blanks in front of a formula do not matter. -/
theorem Derives.blanks_append {blanks : List Char} (hblanks : IsBlanks blanks) {k : Nat}
    {text : List Char} {e : Expr} (h : Derives k text e) : Derives k (blanks ++ text) e := by
  induction h with
  | literal hfront hliteral =>
    rw [← List.append_assoc]
    exact .literal (hblanks.append hfront) hliteral
  | letter hfront hletter =>
    rw [← List.append_assoc]
    exact .letter (hblanks.append hfront) hletter
  | group hfront hinner hback _ =>
    rw [← List.append_assoc]
    exact .group (hblanks.append hfront) hinner hback
  | tighter _ ih => exact .tighter ih
  | left hop _ hgap hright ihₗ _ =>
    rw [← List.append_assoc]
    exact .left hop ihₗ hgap hright
  | power _ hgap hright ihₗ _ =>
    rw [← List.append_assoc]
    exact .power ihₗ hgap hright

/-- Without the blanks in front of it a derived text has no blank at its ends. -/
theorem Derives.exists_isTrimmed {k : Nat} {text : List Char} {e : Expr} (h : Derives k text e) :
    ∃ blanks core, text = blanks ++ core ∧ IsBlanks blanks ∧ Derives k core e ∧ IsTrimmed core := by
  induction h with
  | @literal blanks literal d hblanks hliteral =>
    refine ⟨blanks, literal, rfl, hblanks, .literal isBlanks_nil hliteral, ?_⟩
    exact isTrimmed_of_forall hliteral.ne_nil
      fun c hc => (isFormulaChar_of_mem_literal hliteral hc).not_isBlank
  | @letter blanks c hblanks hletter =>
    refine ⟨blanks, [c], rfl, hblanks, .letter isBlanks_nil hletter, ?_⟩
    exact isTrimmed_of_forall nofun (List.forall_mem_singleton.2 (not_isBlank_of_isAlpha hletter))
  | @group blanks inner blanks' e hblanks hinner hblanks' _ =>
    refine ⟨blanks, _, rfl, hblanks, .group isBlanks_nil hinner hblanks', ?_⟩
    have hparen (c : Char) (hc : c ∈ ['(', ')']) : IsTrimmed [c] := by
      refine isTrimmed_of_forall nofun (List.forall_mem_singleton.2 ?_)
      revert c
      exact forall_mem_of_all (by decide)
    have hends := (hparen '(' (by decide)).append (hparen ')' (by decide)) (inner ++ blanks')
    rwa [List.append_assoc] at hends
  | tighter _ ih =>
    obtain ⟨blanks, core, htext, hblanks, hcore, hends⟩ := ih
    exact ⟨blanks, core, htext, hblanks, .tighter hcore, hends⟩
  | @left k textₗ gap textᵣ op eₗ eᵣ hop _ hgap hright ihₗ ihᵣ =>
    obtain ⟨blanksₗ, coreₗ, rfl, hblanksₗ, hcoreₗ, hendsₗ⟩ := ihₗ
    obtain ⟨blanksᵣ, coreᵣ, rfl, -, -, hendsᵣ⟩ := ihᵣ
    refine ⟨blanksₗ, _, ?_, hblanksₗ, .left hop hcoreₗ hgap hright, ?_⟩
    · rw [List.append_assoc]
    · have hends := hendsₗ.append hendsᵣ (gap ++ (op.text ++ blanksᵣ))
      simpa only [List.append_assoc] using hends
  | @power textₗ gap textᵣ eₗ eᵣ _ hgap hright ihₗ ihᵣ =>
    obtain ⟨blanksₗ, coreₗ, rfl, hblanksₗ, hcoreₗ, hendsₗ⟩ := ihₗ
    obtain ⟨blanksᵣ, coreᵣ, rfl, -, -, hendsᵣ⟩ := ihᵣ
    refine ⟨blanksₗ, _, ?_, hblanksₗ, .power hcoreₗ hgap hright, ?_⟩
    · rw [List.append_assoc]
    · have hends := hendsₗ.append hendsᵣ (gap ++ (Op.pow.text ++ blanksᵣ))
      simpa only [List.append_assoc] using hends

/-- Blanks around a formula do not count. -/
theorem isFormula_trim {text : List Char} {e : Expr} :
    IsFormula (trim text) e ↔ IsFormula text e := by
  constructor
  · rintro ⟨formula, blanks, hformula, hblanks, htrim⟩
    obtain ⟨front, back, hfront, hback, htext⟩ := exists_blanks_trim text
    refine ⟨front ++ formula, blanks ++ back, hformula.blanks_append hfront,
      hblanks.append hback, ?_⟩
    rw [htext, htrim]
    simp only [List.append_assoc]
  · rintro ⟨formula, blanks, hformula, hblanks, rfl⟩
    obtain ⟨front, core, rfl, hfront, hcore, hends⟩ := hformula.exists_isTrimmed
    rw [trim_append_blanks hblanks, trim_blanks_append hfront, hends.trim_eq]
    exact ⟨core, [], hcore, isBlanks_nil, (List.append_nil core).symm⟩

/-- A parameter that is spread is read as before. -/
theorem parse_eq_ok_of_spreads {text text' : List Char} {e : Expr} (h : parse text = .ok e)
    (hspread : Spreads (lexemes true text) text') : parse text' = .ok e :=
  parse_of_isFormula ((isFormula_of_parse h).spreads hspread)

/-- A condition or a parameter is still read as the same formula. -/
theorem parse_trim_of_spreads {text text' : List Char} {e : Expr} (h : parse (trim text) = .ok e)
    (hspread : Spreads (lexemes true text) text') : parse (trim text') = .ok e := by
  have hformula := isFormula_trim.1 (isFormula_of_parse h)
  exact parse_of_isFormula (isFormula_trim.2 (hformula.spreads hspread))

end Lindenmayer.Expr
