import Lindenmayer.Expr.Basic
import Lindenmayer.Number.Literal
import Lindenmayer.Text.Blank
import Lindenmayer.Text.Shorter

/-!
# Reading formulas

A formula is a term followed by operators and further operands. `expression level` reads the
operators of at least the given level; the right operand of an operator admits the tighter levels
only, or also the same level if the operator groups from the right. A sign belongs to a literal
exactly where a term may begin. Blanks may surround every token.
-/

namespace Lindenmayer.Expr

open Text

/-- Why reading stopped, and the text that was left at that place. -/
structure Stop where
  fault : FormulaFault
  rest : List Char

/-- Takes an operator off the front of a text; two characters are tried before one. -/
def takeOp? : List Char → Option (Op × List Char)
  | '|' :: '|' :: rest => some (.or, rest)
  | '&' :: '&' :: rest => some (.and, rest)
  | '=' :: '=' :: rest => some (.eq, rest)
  | '>' :: '=' :: rest => some (.ge, rest)
  | '<' :: '=' :: rest => some (.le, rest)
  | '>' :: rest => some (.gt, rest)
  | '<' :: rest => some (.lt, rest)
  | '+' :: rest => some (.add, rest)
  | '-' :: rest => some (.sub, rest)
  | '*' :: rest => some (.mul, rest)
  | '/' :: rest => some (.div, rest)
  | '^' :: rest => some (.pow, rest)
  | _ => none

/-- An operator takes characters, so that reading goes on behind it. -/
theorem length_lt_of_takeOp? {text rest : List Char} {op : Op}
    (h : takeOp? text = some (op, rest)) : rest.length < text.length := by
  unfold takeOp? at h
  split at h <;> simp only [Option.some.injEq, Prod.mk.injEq, reduceCtorEq] at h <;>
    (obtain ⟨-, rfl⟩ := h; simp only [List.length_cons]; omega)

/-- The lowest level of operators that the right operand of `op` admits. -/
def rightLevel (op : Op) : Nat :=
  if op.rightAssociative then op.precedence else op.precedence + 1

mutual

/-- Reads a literal, a variable or a formula in parentheses. -/
def term (text : List Char) : Except Stop (Expr × Shorter text) :=
  match htext : dropBlanks text with
  | [] => .error ⟨.missingTerm, []⟩
  | '(' :: rest =>
    have hrest : rest.length < text.length := by
      have := length_dropBlanks_le text
      simp only [htext, List.length_cons] at this
      omega
    match expression 1 rest with
    | .error stop => .error stop
    | .ok (inner, ⟨after, hafter⟩) =>
      match hclose : dropBlanks after with
      | ')' :: rest' => .ok (inner, ⟨rest', by
          have := length_dropBlanks_le after
          simp only [hclose, List.length_cons] at this
          omega⟩)
      | rest' => .error ⟨.missingClose, rest'⟩
  | c :: rest =>
    match hnumber : Literal.take? (c :: rest) with
    | some (d, after) => .ok (.number d.toFloat, ⟨after, by
        have := length_dropBlanks_le text
        have := Literal.length_lt_of_take? hnumber
        simp only [htext, List.length_cons] at *
        omega⟩)
    | none =>
      if c.isAlpha then .ok (.var (String.singleton c), ⟨rest, by
        have := length_dropBlanks_le text
        simp only [htext, List.length_cons] at this
        omega⟩)
      else .error ⟨.unexpected c, c :: rest⟩
termination_by (text.length, 0)

/-- Reads a term and the operators of at least the given level that follow it. -/
def expression (level : Nat) (text : List Char) : Except Stop (Expr × Shorter text) :=
  match term text with
  | .error stop => .error stop
  | .ok (first, ⟨rest, hrest⟩) =>
    match operations level first rest with
    | .error stop => .error stop
    | .ok (e, ⟨after, hafter⟩) => .ok (e, ⟨after, Nat.lt_of_le_of_lt hafter hrest⟩)
termination_by (text.length, 1)

/-- Reads operators of at least the given level and their right operands; `left` is the formula
read so far. -/
def operations (level : Nat) (left : Expr) (text : List Char) :
    Except Stop (Expr × { rest : List Char // rest.length ≤ text.length }) :=
  match hop : takeOp? (dropBlanks text) with
  | none => .ok (left, ⟨text, Nat.le_refl _⟩)
  | some (op, rest) =>
    if op.precedence < level then .ok (left, ⟨text, Nat.le_refl _⟩)
    else
      have hrest : rest.length < text.length :=
        Nat.lt_of_lt_of_le (length_lt_of_takeOp? hop) (length_dropBlanks_le text)
      match expression (rightLevel op) rest with
      | .error stop => .error stop
      | .ok (right, ⟨after, hafter⟩) =>
        match operations level (.binary op left right) after with
        | .error stop => .error stop
        | .ok (e, ⟨last, hlast⟩) => .ok (e, ⟨last, by omega⟩)
termination_by (text.length, 0)

end

/-- Reads a formula that fills the whole text. -/
def parse (text : List Char) : Except Error Expr :=
  let fail (stop : Stop) :=
    Error.formula stop.fault (text.length - stop.rest.length + 1) text
  match expression 1 text with
  | .error stop => .error (fail stop)
  | .ok (e, ⟨rest, _⟩) =>
    match dropBlanks rest with
    | [] => .ok e
    | c :: rest => .error (fail ⟨.unexpected c, c :: rest⟩)

end Lindenmayer.Expr
