import Lindenmayer.Expr.Basic

/-!
# Writing formulas

A formula is written without blanks and with those parentheses only that its reading needs: around
an operand whose operator binds less tightly, or equally tightly on the side to which the operator
does not group.
-/

namespace Lindenmayer.Expr

/-- Encloses a text in parentheses if asked to. -/
def parenthesize (needed : Bool) (text : List Char) : List Char :=
  if needed then '(' :: text ++ [')'] else text

/-- Whether `e` needs parentheses as the left operand of `op`. -/
def leftNeedsParens (op : Op) : Expr → Bool
  | binary inner _ _ =>
    inner.precedence < op.precedence ||
      (inner.precedence == op.precedence && op.rightAssociative)
  | _ => false

/-- Whether `e` needs parentheses as the right operand of `op`. -/
def rightNeedsParens (op : Op) : Expr → Bool
  | binary inner _ _ =>
    inner.precedence < op.precedence ||
      (inner.precedence == op.precedence && !op.rightAssociative)
  | _ => false

/-- The text of a formula. -/
def text : Expr → List Char
  | number value => shortText value
  | var name => name.toList
  | binary op left right =>
    parenthesize (leftNeedsParens op left) left.text ++ op.text ++
      parenthesize (rightNeedsParens op right) right.text

end Lindenmayer.Expr
