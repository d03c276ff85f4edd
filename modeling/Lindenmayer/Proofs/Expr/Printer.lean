import Lindenmayer.Expr.Printer
import Lindenmayer.Proofs.Expr.Parser
import Lindenmayer.Proofs.Number.Binary64
import Lindenmayer.Proofs.Number.Layout

/-!
# Reading back what was written

The text of a formula belongs to the stratum of its outermost operator, and an operand is enclosed
in parentheses exactly if its own stratum is too loose for its place. The grammar then gives the
formula back.
-/

namespace Lindenmayer.Expr

open Text

/-- The formulas that have a text: every variable is one letter and no number is NaN. -/
def Printable : Expr → Prop
  | number value => value.isNaN = false
  | var name => ∃ c : Char, c.isAlpha ∧ name = String.singleton c
  | binary _ left right => left.Printable ∧ right.Printable

/-- The stratum to which the text of a formula belongs. -/
def stratum : Expr → Nat
  | binary op _ _ => op.precedence
  | _ => 6

/-! ## Parentheses -/

theorem Derives.parenthesize {k : Nat} {text : List Char} {e : Expr} (h : Derives k text e)
    (hk : 1 ≤ k) : Derives 6 (Expr.parenthesize true text) e := by
  have hgroup := Derives.group isBlanks_nil (h.mono hk) isBlanks_nil
  rwa [List.nil_append, List.nil_append] at hgroup

/-- A left operand without parentheses leaves its operator to what follows. -/
theorem lt_limit_of_leftNeedsParens {op : Op} {e : Expr} (h : leftNeedsParens op e = false) :
    op.precedence < limit e.stratum := by
  cases e with
  | binary inner left right =>
    rw [leftNeedsParens, Bool.or_eq_false_iff, decide_eq_false_iff_not, Nat.not_lt] at h
    obtain ⟨hle, hassoc⟩ := h
    rw [stratum, ← rightLevel_eq_limit, rightLevel]
    cases hright : inner.rightAssociative with
    | false =>
      rw [if_neg Bool.false_ne_true]
      omega
    | true =>
      obtain rfl : inner = .pow := by cases inner <;> simp_all [Op.rightAssociative]
      cases op <;> first | decide | exact absurd hassoc (by decide)
  | _ => exact precedence_lt_limit_term op

/-- A right operand without parentheses is read whole at the level of its place. -/
theorem rightLevel_le_of_rightNeedsParens {op : Op} {e : Expr}
    (h : rightNeedsParens op e = false) : rightLevel op ≤ e.stratum := by
  cases e with
  | binary inner left right =>
    rw [rightNeedsParens, Bool.or_eq_false_iff, decide_eq_false_iff_not, Nat.not_lt] at h
    obtain ⟨hle, hassoc⟩ := h
    rw [rightLevel, stratum]
    cases hright : op.rightAssociative with
    | true => exact hle
    | false =>
      rw [hright, Bool.not_false, Bool.and_true, beq_eq_false_iff_ne] at hassoc
      rw [if_neg Bool.false_ne_true]
      omega
  | _ => exact rightLevel_le op

theorem one_le_stratum (e : Expr) : 1 ≤ e.stratum := by
  cases e with
  | binary op _ _ => exact one_le_precedence op
  | _ => exact Nat.le_add_left 1 5

/-! ## Texts of formulas -/

/-- The text of a number that is not NaN is a literal. -/
theorem exists_isLiteral {x : Float} (h : x.isNaN = false) :
    ∃ d, Literal.IsLiteral (shortText x) d ∧ d.toFloat = x := by
  apply isLiteral_shortText
  rw [← Nat.not_lt, ← Binary64.isNaN_iff, h]
  exact Bool.false_ne_true

/-- The text of a formula derives the formula. -/
theorem Printable.derives {e : Expr} (h : e.Printable) : Derives e.stratum e.text e := by
  induction e with
  | number value =>
    obtain ⟨d, hliteral, hvalue⟩ := exists_isLiteral h
    have hderives := Derives.literal isBlanks_nil hliteral
    rwa [hvalue, List.nil_append] at hderives
  | var name =>
    obtain ⟨c, hc, rfl⟩ := h
    rw [text, String.toList_singleton]
    exact Derives.letter isBlanks_nil hc
  | binary op left right ihₗ ihᵣ =>
    have hleft := ihₗ h.1
    have hright := ihᵣ h.2
    have hoperandₗ : ∃ k, op.precedence < limit k ∧
        Derives k (Expr.parenthesize (leftNeedsParens op left) left.text) left := by
      cases hparens : leftNeedsParens op left with
      | true =>
        exact ⟨6, precedence_lt_limit_term op, hleft.parenthesize (one_le_stratum left)⟩
      | false => exact ⟨left.stratum, lt_limit_of_leftNeedsParens hparens, hleft⟩
    have hoperandᵣ : Derives (rightLevel op)
        (Expr.parenthesize (rightNeedsParens op right) right.text) right := by
      cases hparens : rightNeedsParens op right with
      | true => exact (hright.parenthesize (one_le_stratum right)).mono (rightLevel_le op)
      | false => exact hright.mono (rightLevel_le_of_rightNeedsParens hparens)
    obtain ⟨k, hk, hoperandₗ⟩ := hoperandₗ
    have hjoined := hoperandₗ.binary hk isBlanks_nil hoperandᵣ
    rw [text, stratum, List.append_assoc]
    rwa [List.nil_append] at hjoined

/-- Only formulas that have a text are derived. -/
theorem Derives.printable {k : Nat} {text : List Char} {e : Expr} (h : Derives k text e) :
    e.Printable := by
  induction h with
  | @literal blanks literal d hblanks hliteral =>
    rw [Printable, ← Bool.not_eq_true, Binary64.isNaN_iff, Nat.not_lt]
    exact Binary64.code_ofCode_le d.negative d.code
  | letter _ hletter => exact ⟨_, hletter, rfl⟩
  | group _ _ _ ih => exact ih
  | tighter _ ih => exact ih
  | left _ _ _ _ ihₗ ihᵣ => exact ⟨ihₗ, ihᵣ⟩
  | power _ _ _ ihₗ ihᵣ => exact ⟨ihₗ, ihᵣ⟩

/-- The text of a formula is parsed to the formula. -/
theorem Printable.parse_text {e : Expr} (h : e.Printable) : parse e.text = .ok e :=
  parse_of_isFormula ⟨e.text, [], h.derives.mono (one_le_stratum e), isBlanks_nil,
    (List.append_nil _).symm⟩

theorem printable_of_parse {text : List Char} {e : Expr} (h : parse text = .ok e) :
    e.Printable := by
  obtain ⟨_, _, hderives, _⟩ := isFormula_of_parse h
  exact hderives.printable

/-- Writing and reading are inverse: every formula that has a text is read back from it, and every
text that is parsed gives such a formula, whose own text therefore has the same values. -/
theorem parse_text_roundtrip :
    (∀ e : Expr, e.Printable → parse e.text = .ok e) ∧
      ∀ text e, parse text = .ok e →
        e.Printable ∧ parse e.text = parse text ∧
          ∀ context, (parse e.text >>= evaluate context) = (parse text >>= evaluate context) := by
  refine ⟨fun e he => he.parse_text, fun text e he => ?_⟩
  have hprintable := printable_of_parse he
  have hsame : parse e.text = parse text := by rw [hprintable.parse_text, he]
  exact ⟨hprintable, hsame, fun context => by rw [hsame]⟩

/-- A negative literal keeps its place behind an operator, and a power its parentheses. -/
theorem parse_text_roundtrip_signed :
    parse (binary .pow (binary .sub (var "x") (number (-1.0))) (number (-0.0))).text =
      .ok (binary .pow (binary .sub (var "x") (number (-1.0))) (number (-0.0))) :=
  parse_text_roundtrip.1 _ ⟨⟨⟨'x', by decide, rfl⟩, rfl⟩, rfl⟩

end Lindenmayer.Expr
