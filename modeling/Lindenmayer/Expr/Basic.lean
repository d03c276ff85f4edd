import Lindenmayer.Error

/-!
# Formulas

Formulas decide whether a production applies and compute the parameters of its successor. They have
one domain of values, the binary64 numbers: a comparison yields 1 or 0, and every value other than
zero counts as true. Both operands of every operator are evaluated, those of `||` and `&&` too, so
whether a formula has a value depends on its variables alone.
-/

namespace Lindenmayer

/-- The operators, all of them with two operands. -/
inductive Op where
  | or | and
  | eq | gt | lt | ge | le
  | add | sub
  | mul | div
  | pow
deriving DecidableEq, Repr

namespace Op

/-- How an operator is written. -/
def text : Op → List Char
  | or => ['|', '|']
  | and => ['&', '&']
  | eq => ['=', '=']
  | gt => ['>']
  | lt => ['<']
  | ge => ['>', '=']
  | le => ['<', '=']
  | add => ['+']
  | sub => ['-']
  | mul => ['*']
  | div => ['/']
  | pow => ['^']

/-- The level of an operator; operators of a higher level bind more tightly. -/
def precedence : Op → Nat
  | or | and => 1
  | eq | gt | lt | ge | le => 2
  | add | sub => 3
  | mul | div => 4
  | pow => 5

/-- Only powers group from the right. -/
def rightAssociative : Op → Bool
  | pow => true
  | _ => false

/-- The number that stands for a truth value. -/
def ofBool (b : Bool) : Float :=
  if b then 1.0 else 0.0

/-- The truth value of a number: everything but zero is true, NaN included. -/
def toBool (x : Float) : Bool :=
  x != 0.0

/-- The value of an operator, with the rules of binary64 arithmetic: nothing is an error. -/
def apply : Op → Float → Float → Float
  | or, a, b => ofBool (toBool a || toBool b)
  | and, a, b => ofBool (toBool a && toBool b)
  | eq, a, b => ofBool (a == b)
  | gt, a, b => ofBool (b < a)
  | lt, a, b => ofBool (a < b)
  | ge, a, b => ofBool (b ≤ a)
  | le, a, b => ofBool (a ≤ b)
  | add, a, b => a + b
  | sub, a, b => a - b
  | mul, a, b => a * b
  | div, a, b => a / b
  | pow, a, b => a ^ b

end Op

/-- A formula. -/
inductive Expr where
  | number (value : Float)
  | var (name : String)
  | binary (op : Op) (left right : Expr)
deriving DecidableEq, Repr

/-- Values of variables. The first binding of a name counts. -/
abbrev Context := List (String × Float)

/-- The value of a variable. -/
def Context.value (context : Context) (name : String) : Except Error Float :=
  match context.lookup name with
  | some value => .ok value
  | none => .error (.unbound name)

namespace Expr

/-- The value of a formula; an unbound variable is reported, the leftmost first. -/
def evaluate (context : Context) : Expr → Except Error Float
  | number value => .ok value
  | var name => context.value name
  | binary op left right => do
    let a ← evaluate context left
    let b ← evaluate context right
    return op.apply a b

/-- Whether a formula holds. -/
def holds (context : Context) (e : Expr) : Except Error Bool :=
  (e.evaluate context).map Op.toBool

/-- The variables of a formula from left to right, once for every occurrence. -/
def vars : Expr → List String
  | number _ => []
  | var name => [name]
  | binary _ left right => left.vars ++ right.vars

end Expr

/-- Names in ascending order of their code points, each of them once. -/
def sortedNames (names : List String) : List String :=
  names.eraseDups.mergeSort fun a b => !decide (b < a)

end Lindenmayer
