import Lindenmayer.Expr.Parser
import Lindenmayer.Proofs.Outcome
import Lindenmayer.Proofs.Text.Blank

/-!
# The readers of formulas without their bounds

Each reader returns what is left of its text together with a proof that it is shorter. Here they
are without that proof, with one equation for every way on which they go.
-/

namespace Lindenmayer.Expr

open Text

/-- What reading a term gives. -/
def readTerm (text : List Char) : Except Stop (Expr × List Char) :=
  (term text).map fun read => (read.1, read.2.val)

/-- What reading a formula of some level gives. -/
def readExpression (level : Nat) (text : List Char) : Except Stop (Expr × List Char) :=
  (expression level text).map fun read => (read.1, read.2.val)

/-- What reading operators of some level and their operands gives. -/
def readOperations (level : Nat) (left : Expr) (text : List Char) :
    Except Stop (Expr × List Char) :=
  (operations level left text).map fun read => (read.1, read.2.val)

/-- Takes off the parenthesis at the end of a group. -/
def closeGroup (inner : Expr) (text : List Char) : Except Stop (Expr × List Char) :=
  match dropBlanks text with
  | ')' :: rest => .ok (inner, rest)
  | rest => .error ⟨.missingClose, rest⟩

/-! ## Equations of the readers -/

/-- A term is missing where the text ends. -/
theorem readTerm_nil {text : List Char} (h : dropBlanks text = []) :
    readTerm text = .error ⟨.missingTerm, []⟩ := by
  unfold readTerm
  rw [term]
  split
  · rfl
  · rename_i hgroup
    rw [h] at hgroup
    cases hgroup
  · rename_i hother
    rw [h] at hother
    cases hother

/-- A term in parentheses is an expression with a parenthesis behind it. -/
theorem readTerm_group {text rest : List Char} (h : dropBlanks text = '(' :: rest) :
    readTerm text = readExpression 1 rest >>= fun read => closeGroup read.1 read.2 := by
  unfold readTerm readExpression
  rw [term]
  split
  · rename_i hnil
    rw [h] at hnil
    cases hnil
  · rename_i rest' hgroup
    rw [h] at hgroup
    obtain rfl : rest = rest' := by simpa using hgroup
    rcases expression 1 rest with stop | ⟨inner, after, hafter⟩
    · rfl
    · dsimp only
      change _ = closeGroup inner after
      unfold closeGroup
      split
      · rename_i hclose
        simp only [hclose, Except.map]
      · rename_i hclose
        split
        · rename_i hclosed
          exact absurd hclosed (hclose _)
        · rfl
  · rename_i hgroup hother
    rw [h] at hother
    injection hother with hc _
    exact absurd hc.symm hgroup

/-- Any other term is a number or a letter. -/
theorem readTerm_other {text rest : List Char} {c : Char} (h : dropBlanks text = c :: rest)
    (hc : c ≠ '(') :
    readTerm text =
      match Literal.take? (c :: rest) with
      | some (d, after) => .ok (.number d.toFloat, after)
      | none =>
        if c.isAlpha then .ok (.var (String.singleton c), rest)
        else .error ⟨.unexpected c, c :: rest⟩ := by
  unfold readTerm
  rw [term]
  split
  · rename_i hnil
    rw [h] at hnil
    cases hnil
  · rename_i hgroup
    rw [h] at hgroup
    injection hgroup with hparen _
    exact absurd hparen hc
  · rename_i hgroup hother
    rw [h] at hother
    injection hother with hc' hrest
    subst hc' hrest
    split
    · rename_i hnumber
      simp only [hnumber]
      rfl
    · rename_i hnumber
      simp only [hnumber]
      split <;> rfl

/-- An expression is a term and the operations behind it. -/
theorem readExpression_eq (level : Nat) (text : List Char) :
    readExpression level text =
      readTerm text >>= fun read => readOperations level read.1 read.2 := by
  unfold readExpression readTerm readOperations
  rw [expression]
  rcases term text with stop | ⟨first, rest, hrest⟩
  · rfl
  · simp only [Except.map, bind, Except.bind]
    rcases operations level first rest with stop | ⟨e, after, hafter⟩ <;> rfl

/-- Texts whose next token is no operator of the level `bound` or a tighter one. -/
def NextBelow (bound : Nat) (text : List Char) : Prop :=
  ∀ op rest, takeOp? (dropBlanks text) = some (op, rest) → op.precedence < bound

/-- Reading stops in front of an operator that binds less tightly. -/
theorem readOperations_done {level : Nat} {left : Expr} {text : List Char}
    (h : NextBelow level text) : readOperations level left text = .ok (left, text) := by
  unfold readOperations
  rw [operations]
  split
  · rfl
  · rename_i op rest hop
    rw [if_pos (h op rest hop)]
    rfl

/-- An operator that binds tightly enough takes its right operand. -/
theorem readOperations_next {level : Nat} {left : Expr} {text rest : List Char} {op : Op}
    (h : takeOp? (dropBlanks text) = some (op, rest)) (hlevel : level ≤ op.precedence) :
    readOperations level left text =
      readExpression (rightLevel op) rest >>= fun read =>
        readOperations level (.binary op left read.1) read.2 := by
  conv => lhs; unfold readOperations
  rw [operations]
  split
  · rename_i hnone
    rw [h] at hnone
    cases hnone
  · rename_i op' rest' hop
    rw [h] at hop
    obtain ⟨rfl, rfl⟩ : op = op' ∧ rest = rest' := by simpa using hop
    rw [if_neg (Nat.not_lt.2 hlevel)]
    unfold readExpression readOperations
    rcases expression (rightLevel op) rest with stop | ⟨right, after, hafter⟩
    · rfl
    · simp only [Except.map, bind, Except.bind]
      rcases operations level (.binary op left right) after with stop | ⟨e, last, hlast⟩ <;> rfl

/-- A formula that is read makes the text shorter. -/
theorem length_lt_of_readExpression {level : Nat} {e : Expr} {text rest : List Char}
    (h : readExpression level text = .ok (e, rest)) : rest.length < text.length := by
  obtain ⟨⟨_, _, hlt⟩, _, hread⟩ := map_eq_ok.1 h
  obtain ⟨rfl, rfl⟩ := Prod.mk.injEq .. ▸ hread
  exact hlt

theorem length_lt_of_readTerm {e : Expr} {text rest : List Char}
    (h : readTerm text = .ok (e, rest)) : rest.length < text.length := by
  obtain ⟨⟨_, _, hlt⟩, _, hread⟩ := map_eq_ok.1 h
  obtain ⟨rfl, rfl⟩ := Prod.mk.injEq .. ▸ hread
  exact hlt

/-! ## Operators as tokens -/

/-- The text of an operator is taken off. -/
theorem append_of_takeOp? {text rest : List Char} {op : Op}
    (h : takeOp? text = some (op, rest)) : text = op.text ++ rest := by
  unfold takeOp? at h
  split at h <;> simp only [Option.some.injEq, Prod.mk.injEq, reduceCtorEq] at h <;>
    (obtain ⟨rfl, rfl⟩ := h; rfl)

/-- An operator is taken off whole; after `>` and `<` an equals sign would belong to it. -/
theorem takeOp?_append {rest : List Char} (op : Op) (h : ∀ c ∈ rest.head?, c ≠ '=') :
    takeOp? (op.text ++ rest) = some (op, rest) := by
  cases op with
  | gt | lt =>
    cases rest with
    | nil => rfl
    | cons c rest =>
      have hc : c ≠ '=' := h c rfl
      simp only [Op.text, List.cons_append, List.nil_append]
      unfold takeOp?
      split <;> simp_all
  | _ => rfl

/-- An operator is found behind blanks, unless a longer one begins there. -/
theorem takeOp?_dropBlanks_append {blanks rest : List Char} (hblanks : IsBlanks blanks) (op : Op)
    (h : ∀ c ∈ rest.head?, c ≠ '=') :
    takeOp? (dropBlanks (blanks ++ (op.text ++ rest))) = some (op, rest) := by
  have hop : dropBlanks (op.text ++ rest) = op.text ++ rest := by
    cases op <;> exact dropBlanks_cons_of_not_blank (by decide) _
  rw [dropBlanks_append hblanks, hop, takeOp?_append op h]

end Lindenmayer.Expr
