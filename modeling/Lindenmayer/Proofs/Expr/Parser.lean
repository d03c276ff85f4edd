import Lindenmayer.Proofs.Expr.Grammar
import Lindenmayer.Proofs.Expr.Reader

/-!
# The parser of formulas and their grammar

The parser climbs: it reads operators from the left and lowers the level as it goes, where the
grammar is stratified. Both are about the same texts and trees. What joins them is the next
operator: when a formula of stratum `k` has been read, the operator after it is not one that the
formula would still have taken.
-/

namespace Lindenmayer.Expr

open Text

/-- The level from which on operators cannot follow a formula of stratum `k`: they would have been
read into its last operand. -/
def limit (k : Nat) : Nat :=
  if k = 5 then 5 else k + 1

/-- A right operand is read at the limit of its operator. -/
@[simp]
theorem rightLevel_eq_limit (op : Op) : rightLevel op = limit op.precedence := by
  cases op <;> rfl

theorem one_le_precedence (op : Op) : 1 ≤ op.precedence := by
  cases op <;> decide

theorem precedence_le (op : Op) : op.precedence ≤ 5 := by
  cases op <;> decide

theorem precedence_lt_limit_term (op : Op) : op.precedence < limit 6 :=
  Nat.lt_of_le_of_lt (precedence_le op) (by decide)

theorem rightLevel_le (op : Op) : rightLevel op ≤ 6 := by
  cases op <;> decide

theorem nextBelow_limit_term (text : List Char) : NextBelow (limit 6) text :=
  fun op _ _ => precedence_lt_limit_term op

/-- An operator joins what its left operand and its right operand derive. -/
theorem Derives.binary {k : Nat} {textₗ blanks textᵣ : List Char} {op : Op} {eₗ eᵣ : Expr}
    (hleft : Derives k textₗ eₗ) (hop : op.precedence < limit k) (hblanks : IsBlanks blanks)
    (hright : Derives (rightLevel op) textᵣ eᵣ) :
    Derives op.precedence (textₗ ++ (blanks ++ (op.text ++ textᵣ))) (.binary op eₗ eᵣ) := by
  unfold limit at hop
  cases hassoc : op.rightAssociative with
  | false =>
    rw [rightLevel, hassoc, if_neg Bool.false_ne_true] at hright
    refine .left (mem_leftOperators.2 ⟨rfl, hassoc⟩) (hleft.mono ?_) hblanks hright
    split at hop <;> omega
  | true =>
    -- only a term stands to the left of a power
    obtain rfl : op = .pow := by cases op <;> simp_all [Op.rightAssociative]
    refine .power (hleft.mono ?_) hblanks hright
    rw [Op.precedence] at hop
    split at hop <;> omega

/-! ## What is read is derived -/

/-- Every term that is read off a text is derived by the part that is gone. -/
def TermSound (text : List Char) : Prop :=
  ∀ e rest, readTerm text = .ok (e, rest) → ∃ read, Derives 6 read e ∧ text = read ++ rest

/-- Every formula that is read off a text is derived by the part that is gone, and no operator of
its level follows. -/
def ExpressionSound (text : List Char) : Prop :=
  ∀ level e rest, level ≤ 6 → readExpression level text = .ok (e, rest) →
    ∃ read, Derives level read e ∧ text = read ++ rest ∧ NextBelow level rest

/-- Operators that are read after a derived formula make it a longer one. -/
def OperationsSound (text : List Char) : Prop :=
  ∀ level k start left e rest, level ≤ k → Derives k start left → NextBelow (limit k) text →
    readOperations level left text = .ok (e, rest) →
    ∃ read, Derives level (start ++ read) e ∧ text = read ++ rest ∧ NextBelow level rest

/-- A group is closed by a parenthesis behind blanks. -/
theorem closeGroup_eq_ok {inner e : Expr} {text rest : List Char}
    (h : closeGroup inner text = .ok (e, rest)) : e = inner ∧ dropBlanks text = ')' :: rest := by
  unfold closeGroup at h
  split at h
  · rename_i hclose
    obtain ⟨rfl, rfl⟩ : inner = e ∧ _ = rest := by simpa using h
    exact ⟨rfl, hclose⟩
  · exact absurd h nofun

/-- A term is read as the grammar has it if expressions within it are. -/
theorem termSound_of_shorter {text : List Char}
    (hexpression : ∀ rest, rest.length < text.length → ExpressionSound rest) :
    TermSound text := by
  intro e rest h
  obtain ⟨blanks, hblanks, htext⟩ := exists_blanks text
  cases hdrop : dropBlanks text with
  | nil =>
    rw [readTerm_nil hdrop] at h
    exact absurd h nofun
  | cons c tail =>
    rw [hdrop] at htext
    -- a term is a group, a literal or a letter, told apart by its first character
    by_cases hc : c = '('
    · subst hc
      rw [readTerm_group hdrop, bind_eq_ok] at h
      obtain ⟨⟨inner, after⟩, hinner, hclose⟩ := h
      obtain ⟨rfl, hclosed⟩ := closeGroup_eq_ok hclose
      -- the text inside the group is shorter, so what is read from it is derived
      have hlength : tail.length < text.length := by
        rw [htext, List.length_append, List.length_cons]
        omega
      obtain ⟨read, hread, rfl, -⟩ := hexpression tail hlength 1 e after (by decide) hinner
      obtain ⟨blanks', hblanks', hafter⟩ := exists_blanks after
      refine ⟨_, .group hblanks hread hblanks', ?_⟩
      rw [htext, hafter, hclosed]
      simp only [List.append_assoc, List.cons_append, List.nil_append]
    · rw [readTerm_other hdrop hc] at h
      split at h
      · rename_i d after hnumber
        obtain ⟨rfl, rfl⟩ : .number d.toFloat = e ∧ after = rest := by simpa using h
        obtain ⟨literal, hliteral, hsplit⟩ := Literal.isLiteral_of_take? hnumber
        refine ⟨blanks ++ literal, .literal hblanks hliteral, ?_⟩
        rw [htext, hsplit, List.append_assoc]
      · split at h
        · rename_i hletter
          obtain ⟨rfl, rfl⟩ : .var (String.singleton c) = e ∧ tail = rest := by simpa using h
          refine ⟨blanks ++ [c], .letter hblanks hletter, ?_⟩
          rw [htext, List.append_assoc, List.singleton_append]
        · exact absurd h nofun

/-- An expression is read as the grammar has it if its first term is. -/
theorem expressionSound_of_term {text : List Char} (hterm : TermSound text)
    (hoperations : ∀ rest, rest.length < text.length → OperationsSound rest) :
    ExpressionSound text := by
  intro level e rest hlevel h
  rw [readExpression_eq, bind_eq_ok] at h
  obtain ⟨⟨first, after⟩, hfirst, hafter⟩ := h
  obtain ⟨start, hstart, htext⟩ := hterm first after hfirst
  have hlength := length_lt_of_readTerm hfirst
  obtain ⟨read, hread, hsplit, hnext⟩ := hoperations after hlength level 6 start first e rest
    hlevel hstart (nextBelow_limit_term after) hafter
  refine ⟨start ++ read, hread, ?_, hnext⟩
  rw [htext, hsplit, List.append_assoc]

/-- Operations are read as the grammar has them if their right operands are. -/
theorem operationsSound_of_shorter {text : List Char}
    (hexpression : ∀ rest, rest.length < text.length → ExpressionSound rest)
    (hoperations : ∀ rest, rest.length < text.length → OperationsSound rest) :
    OperationsSound text := by
  intro level k start left e rest hlevel hleft hlimit h
  -- if no operator of the level follows, the left operand is all
  have hdone (hnext : NextBelow level text) :
      ∃ read, Derives level (start ++ read) e ∧ text = read ++ rest ∧ NextBelow level rest := by
    rw [readOperations_done hnext] at h
    obtain ⟨rfl, rfl⟩ : left = e ∧ text = rest := by simpa using h
    refine ⟨[], ?_, rfl, hnext⟩
    rw [List.append_nil]
    exact hleft.mono hlevel
  cases hop : takeOp? (dropBlanks text) with
  | none =>
    refine hdone fun op tail hnext => ?_
    rw [hop] at hnext
    exact absurd hnext nofun
  | some taken =>
    obtain ⟨op, tail⟩ := taken
    rcases Nat.lt_or_ge op.precedence level with hlow | hhigh
    · refine hdone fun op' tail' hnext => ?_
      obtain ⟨rfl, rfl⟩ : op = op' ∧ tail = tail' := by simpa [hop] using hnext
      exact hlow
    · rw [readOperations_next hop hhigh, bind_eq_ok] at h
      obtain ⟨⟨right, after⟩, hright, hafter⟩ := h
      have htail : tail.length < text.length :=
        Nat.lt_of_lt_of_le (length_lt_of_takeOp? hop) (length_dropBlanks_le text)
      have hlength : after.length < text.length :=
        Nat.lt_trans (length_lt_of_readExpression hright) htail
      -- the operand is derived at the limit of the operator, which is then that of the whole
      obtain ⟨operand, hoperand, htail', hnext⟩ :=
        hexpression tail htail (rightLevel op) right after (rightLevel_le op) hright
      obtain ⟨blanks, hblanks, htext⟩ := exists_blanks text
      have hjoined := hleft.binary (hlimit op tail hop) hblanks hoperand
      rw [rightLevel_eq_limit] at hnext
      obtain ⟨read, hread, hsplit, hlast⟩ :=
        hoperations after hlength level op.precedence _ _ e rest hhigh hjoined hnext hafter
      refine ⟨blanks ++ (op.text ++ operand) ++ read, ?_, ?_, hlast⟩
      · rw [← List.append_assoc]
        exact hread
      · rw [htext, append_of_takeOp? hop, htail', hsplit]
        simp only [List.append_assoc]

/-- The readers are sound on every text, by induction on its length. -/
theorem sound (text : List Char) : ExpressionSound text ∧ OperationsSound text := by
  induction hn : text.length using Nat.strongRecOn generalizing text with
  | _ n ih =>
    subst hn
    have hexpression rest (h : rest.length < text.length) := (ih rest.length h rest rfl).1
    have hoperations rest (h : rest.length < text.length) := (ih rest.length h rest rfl).2
    exact ⟨expressionSound_of_term (termSound_of_shorter hexpression) hoperations,
      operationsSound_of_shorter hexpression hoperations⟩

/-! ## What is derived is read -/

/-- Texts that do not go on with a formula of stratum `k` that has ended. -/
def Admits (k : Nat) (rest : List Char) : Prop :=
  Literal.EndsLiteral rest ∧ NextBelow (limit k) rest

/-- What binds more tightly has a higher limit. -/
theorem limit_le_limit {k₁ k₂ : Nat} (h : k₁ ≤ k₂) : limit k₁ ≤ limit k₂ := by
  unfold limit
  split <;> split <;> omega

/-- What may follow an operand may follow one that binds more tightly. -/
theorem Admits.mono {k₁ k₂ : Nat} {rest : List Char} (h : Admits k₁ rest) (hle : k₁ ≤ k₂) :
    Admits k₂ rest :=
  ⟨h.1, fun op tail hop => Nat.lt_of_lt_of_le (h.2 op tail hop) (limit_le_limit hle)⟩

/-- A blank ends a literal as well. -/
theorem endsLiteral_blanks {blanks rest : List Char} (hblanks : IsBlanks blanks)
    (h : Literal.EndsLiteral rest) : Literal.EndsLiteral (blanks ++ rest) := by
  cases blanks with
  | nil => exact h
  | cons c blanks =>
    have hc := hblanks c List.mem_cons_self
    refine Literal.endsLiteral_cons.2 ⟨fun hdigit => not_isBlank_of_isDigit hdigit hc, ?_⟩
    refine ⟨?_, ?_, ?_⟩ <;> (rintro rfl; exact absurd hc (by decide))

/-- An operator ends a number. -/
theorem endsLiteral_op (op : Op) (rest : List Char) : Literal.EndsLiteral (op.text ++ rest) := by
  cases op <;> exact Literal.endsLiteral_cons.2 (by decide)

/-- A closing parenthesis ends an expression. -/
theorem nextBelow_close {blanks rest : List Char} (bound : Nat) (hblanks : IsBlanks blanks) :
    NextBelow bound (blanks ++ ')' :: rest) := by
  intro op tail hop
  rw [dropBlanks_append hblanks, dropBlanks_cons_of_not_blank (by decide)] at hop
  exact absurd hop nofun

/-- So do blanks at the end of the text. -/
theorem nextBelow_blanks {blanks : List Char} (bound : Nat) (hblanks : IsBlanks blanks) :
    NextBelow bound blanks := by
  intro op tail hop
  rw [dropBlanks_of_isBlanks hblanks] at hop
  exact absurd hop nofun

/-- What follows the left operand of an operator. -/
theorem admits_op {k kᵣ : Nat} {blanks textᵣ : List Char} {op : Op} {eᵣ : Expr}
    (hblanks : IsBlanks blanks) (hright : Derives kᵣ textᵣ eᵣ) (hop : op.precedence < limit k)
    (rest : List Char) : Admits k (blanks ++ (op.text ++ (textᵣ ++ rest))) := by
  refine ⟨endsLiteral_blanks hblanks (endsLiteral_op op _), fun op' tail hnext => ?_⟩
  obtain ⟨c, tail', rfl, hc⟩ := hright.head
  rw [takeOp?_dropBlanks_append hblanks op (by simpa using hc)] at hnext
  obtain ⟨rfl, -⟩ : op = op' ∧ _ := by simpa using hnext
  exact hop

/-- After its left operand an operator and its right operand are read. -/
theorem readOperations_op {level kᵣ : Nat} {blanks textᵣ rest : List Char} {op : Op}
    {eₗ eᵣ : Expr} (hlevel : level ≤ op.precedence) (hblanks : IsBlanks blanks)
    (hright : Derives kᵣ textᵣ eᵣ)
    (hread : readExpression (rightLevel op) (textᵣ ++ rest) = .ok (eᵣ, rest)) :
    readOperations level eₗ (blanks ++ (op.text ++ (textᵣ ++ rest))) =
      readOperations level (.binary op eₗ eᵣ) rest := by
  obtain ⟨c, tail, hhead, hc⟩ := hright.head
  have hnext : takeOp? (dropBlanks (blanks ++ (op.text ++ (textᵣ ++ rest)))) =
      some (op, textᵣ ++ rest) :=
    takeOp?_dropBlanks_append hblanks op (by simp [hhead, hc])
  rw [readOperations_next hnext hlevel, hread]
  rfl

/-- A number is read as a term. -/
theorem readTerm_literal {blanks literal rest : List Char} {d : Decimal} (hblanks : IsBlanks blanks)
    (hliteral : Literal.IsLiteral literal d) (hrest : Literal.EndsLiteral rest) :
    readTerm (blanks ++ (literal ++ rest)) = .ok (.number d.toFloat, rest) := by
  have htake := Literal.take?_append hliteral hrest
  cases hhead : literal with
  | nil => exact absurd hhead hliteral.ne_nil
  | cons c tail =>
    -- a literal begins with no blank and no parenthesis
    have hmem : isDigit c ∨ c ∈ ['+', '-', '.', 'e', 'E'] :=
      hliteral.mem (by simp [hhead])
    have hblank : ¬isBlank c := by
      rcases hmem with hdigit | hmark
      · exact not_isBlank_of_isDigit hdigit
      · simp only [List.mem_cons, List.not_mem_nil, or_false] at hmark
        rcases hmark with rfl | rfl | rfl | rfl | rfl <;> decide
    have hparen : c ≠ '(' := by
      rintro rfl
      exact absurd hmem (by decide)
    have hdrop : dropBlanks (blanks ++ (c :: tail ++ rest)) = c :: (tail ++ rest) := by
      rw [dropBlanks_append hblanks, List.cons_append, dropBlanks_cons_of_not_blank hblank]
    rw [hhead, List.cons_append] at htake
    rw [readTerm_other hdrop hparen, htake]

/-- A letter is read as a term. -/
theorem readTerm_letter {blanks rest : List Char} {c : Char} (hblanks : IsBlanks blanks)
    (hletter : c.isAlpha) :
    readTerm (blanks ++ c :: rest) = .ok (.var (String.singleton c), rest) := by
  have hparen : c ≠ '(' := by
    rintro rfl
    exact absurd hletter (by decide)
  have hdrop : dropBlanks (blanks ++ c :: rest) = c :: rest := by
    rw [dropBlanks_append hblanks, dropBlanks_cons_of_not_blank (not_isBlank_of_isAlpha hletter)]
  rw [readTerm_other hdrop hparen, Literal.take?_of_isAlpha hletter]
  simp only [hletter, ↓reduceIte]

/-- A formula in parentheses is read as a term. -/
theorem readTerm_close {blanks inner blanks' rest : List Char} {e : Expr}
    (hblanks : IsBlanks blanks) (hblanks' : IsBlanks blanks')
    (hinner : readExpression 1 (inner ++ (blanks' ++ ')' :: rest)) =
      .ok (e, blanks' ++ ')' :: rest)) :
    readTerm (blanks ++ '(' :: (inner ++ (blanks' ++ ')' :: rest))) = .ok (e, rest) := by
  have hdrop : dropBlanks (blanks ++ '(' :: (inner ++ (blanks' ++ ')' :: rest))) =
      '(' :: (inner ++ (blanks' ++ ')' :: rest)) := by
    rw [dropBlanks_append hblanks, dropBlanks_cons_of_not_blank (by decide)]
  rw [readTerm_group hdrop, hinner]
  change closeGroup e (blanks' ++ ')' :: rest) = .ok (e, rest)
  rw [closeGroup, dropBlanks_append hblanks', dropBlanks_cons_of_not_blank (by decide)]
  rfl

/-- A term that is read is the first operand of a formula. -/
theorem readExpression_of_term {level : Nat} {text rest : List Char} {e : Expr}
    (h : readTerm text = .ok (e, rest)) :
    readExpression level text = readOperations level e rest := by
  rw [readExpression_eq, h]
  rfl

/-- A derived formula is read whole, and reading goes on with the operators after it. -/
theorem Derives.readExpression {k : Nat} {text : List Char} {e : Expr} (h : Derives k text e) :
    ∀ level rest, level ≤ k → Admits k rest →
      Expr.readExpression level (text ++ rest) = readOperations level e rest := by
  induction h with
  | literal hblanks hliteral =>
    intro level rest _ hrest
    rw [List.append_assoc]
    exact readExpression_of_term (readTerm_literal hblanks hliteral hrest.1)
  | letter hblanks hletter =>
    intro level rest _ _
    rw [List.append_assoc]
    exact readExpression_of_term (readTerm_letter hblanks hletter)
  | @group blanks inner blanks' e hblanks _ hblanks' ih =>
    intro level rest _ _
    -- the parenthesis ends the formula inside the group
    have hclose : Admits 1 (blanks' ++ ')' :: rest) :=
      ⟨endsLiteral_blanks hblanks' (Literal.endsLiteral_cons.2 (by decide)),
        nextBelow_close _ hblanks'⟩
    have hinner := ih 1 _ (Nat.le_refl 1) hclose
    rw [readOperations_done (nextBelow_close 1 hblanks')] at hinner
    have hterm := readTerm_close hblanks hblanks' hinner
    simp only [List.append_assoc, List.cons_append, List.nil_append]
    exact readExpression_of_term hterm
  | tighter _ ih =>
    intro level rest hlevel hrest
    exact ih level rest (Nat.le_succ_of_le hlevel) (hrest.mono (Nat.le_succ _))
  | @left k textₗ blanks textᵣ op eₗ eᵣ hop _ hblanks hright ihₗ ihᵣ =>
    intro level rest hlevel hrest
    obtain ⟨rfl, hassoc⟩ := mem_leftOperators.1 hop
    have hright' : rightLevel op = op.precedence + 1 := by
      rw [rightLevel, hassoc, if_neg Bool.false_ne_true]
    have hlimit : limit op.precedence = rightLevel op := (rightLevel_eq_limit op).symm
    -- the right operand is read first: it ends where the whole formula does
    have hread := ihᵣ (rightLevel op) rest (Nat.le_of_eq hright') (hrest.mono (Nat.le_succ _))
    rw [readOperations_done (hlimit ▸ hrest.2)] at hread
    simp only [List.append_assoc]
    rw [ihₗ level _ hlevel (admits_op hblanks hright (by omega) rest),
      readOperations_op hlevel hblanks hright hread]
  | @power textₗ blanks textᵣ eₗ eᵣ _ hblanks hright ihₗ ihᵣ =>
    intro level rest hlevel hrest
    have hnext : NextBelow 5 rest := hrest.2
    -- the right operand of a power is read on the same level
    have hread := ihᵣ 5 rest (Nat.le_refl 5) hrest
    rw [readOperations_done hnext] at hread
    simp only [List.append_assoc]
    rw [ihₗ level _ (Nat.le_succ_of_le hlevel) (admits_op hblanks hright (by decide) rest),
      @readOperations_op _ _ _ _ _ .pow _ _ hlevel hblanks hright hread]

/-! ## The parser -/

/-- A text that is parsed is a formula with blanks after it. -/
theorem isFormula_of_parse {text : List Char} {e : Expr} (h : parse text = .ok e) :
    IsFormula text e := by
  unfold parse at h
  simp only at h
  split at h
  · cases h
  · rename_i e' rest hlt hread
    have hread' : Expr.readExpression 1 text = .ok (e', rest) := by
      rw [Expr.readExpression, hread]
      rfl
    obtain ⟨read, hderives, htext, -⟩ := (sound text).1 1 e' rest (by decide) hread'
    split at h
    · rename_i hrest
      obtain rfl : e' = e := by simpa using h
      exact ⟨read, rest, hderives, isBlanks_of_dropBlanks hrest, htext⟩
    · cases h

/-- Every formula of the grammar is accepted. -/
theorem parse_of_isFormula {text : List Char} {e : Expr} (h : IsFormula text e) :
    parse text = .ok e := by
  obtain ⟨formula, blanks, hderives, hblanks, rfl⟩ := h
  have hadmits : Admits 1 blanks := by
    refine ⟨?_, nextBelow_blanks _ hblanks⟩
    have hends := endsLiteral_blanks hblanks Literal.endsLiteral_nil
    rwa [List.append_nil] at hends
  have hread := hderives.readExpression 1 blanks (Nat.le_refl 1) hadmits
  rw [readOperations_done (nextBelow_blanks 1 hblanks), Expr.readExpression, map_eq_ok] at hread
  obtain ⟨⟨e', rest, hlt⟩, hexpression, hpair⟩ := hread
  obtain ⟨he, hrest⟩ : e' = e ∧ rest = blanks := by simpa using hpair
  simp only [parse, hexpression, he, hrest, dropBlanks_of_isBlanks hblanks]

/-- A text that is no formula is reported as a fault of this text. -/
theorem parse_eq_ok_or_error (text : List Char) :
    (∃ e, parse text = .ok e) ∨
      ∃ fault column, parse text = .error (.formula fault column text) := by
  unfold parse
  simp only
  split
  · exact .inr ⟨_, _, rfl⟩
  · split
    · exact .inl ⟨_, rfl⟩
    · exact .inr ⟨_, _, rfl⟩

/-- The parser accepts the texts of the grammar with the trees that the grammar gives them, and it
reports every other text. -/
theorem parse_iff_isFormula (text : List Char) :
    (∀ e, parse text = .ok e ↔ IsFormula text e) ∧
      ((∃ e, IsFormula text e) ∨
        ∃ fault column, parse text = .error (.formula fault column text)) := by
  refine ⟨fun e => ⟨isFormula_of_parse, parse_of_isFormula⟩, ?_⟩
  rcases parse_eq_ok_or_error text with ⟨e, he⟩ | herror
  · exact .inl ⟨e, isFormula_of_parse he⟩
  · exact .inr herror

end Lindenmayer.Expr
