import Lindenmayer.Proofs.Expr.Characters

/-!
# How few parentheses a formula needs

A text opens a group wherever it has an opening parenthesis. A formula of stratum `k` can stand
where the grammar asks for a stratum up to `k`; at every tighter place it has to be enclosed. The
printer encloses an operand exactly there, so no text of the formula opens fewer groups than its own.
-/

namespace Lindenmayer.Expr

open Text

/-- The loosest stratum that the left operand of `op` may have without parentheses. -/
def leftLevel (op : Op) : Nat :=
  if op.rightAssociative then op.precedence + 1 else op.precedence

/-- How many groups a formula needs where the grammar asks for the stratum `k`: those of its own
text, and one around it if it is looser than `k`. -/
def groupsAt (k : Nat) (e : Expr) : Nat :=
  e.text.count '(' + if e.stratum < k then 1 else 0

/-! ## What the printer writes -/

theorem leftLevel_le (op : Op) : leftLevel op ≤ 6 := by
  cases op <;> decide

/-- A left operand is enclosed just if its stratum is too loose. -/
theorem leftNeedsParens_eq (op : Op) (e : Expr) :
    leftNeedsParens op e = decide (e.stratum < leftLevel op) := by
  cases e with
  | binary inner left right =>
    rw [leftNeedsParens, stratum, leftLevel, Bool.eq_iff_iff]
    cases op.rightAssociative with
    | false => simp
    | true =>
      simp only [Bool.and_true, Bool.or_eq_true, decide_eq_true_eq, beq_iff_eq, ↓reduceIte]
      omega
  | _ => exact (decide_eq_false (Nat.not_lt.2 (leftLevel_le op))).symm

/-- A right operand is enclosed just if its stratum is too loose. -/
theorem rightNeedsParens_eq (op : Op) (e : Expr) :
    rightNeedsParens op e = decide (e.stratum < rightLevel op) := by
  cases e with
  | binary inner left right =>
    rw [rightNeedsParens, stratum, rightLevel, Bool.eq_iff_iff]
    cases op.rightAssociative with
    | false =>
      simp only [Bool.not_false, Bool.and_true, Bool.or_eq_true, decide_eq_true_eq, beq_iff_eq,
        Bool.false_eq_true, ↓reduceIte]
      omega
    | true => simp
  | _ => exact (decide_eq_false (Nat.not_lt.2 (rightLevel_le op))).symm

theorem count_parenthesize (needed : Bool) (text : List Char) :
    (Expr.parenthesize needed text).count '(' = text.count '(' + if needed then 1 else 0 := by
  cases needed with
  | false => rfl
  | true =>
    show ('(' :: text ++ [')']).count '(' = text.count '(' + 1
    rw [List.count_append, List.count_cons_self]
    rfl

/-- The groups of a formula are those that its operands need in their places. -/
theorem count_text_binary (op : Op) (left right : Expr) :
    (binary op left right).text.count '(' =
      groupsAt (leftLevel op) left + groupsAt (rightLevel op) right := by
  have hop : op.text.count '(' = 0 := by cases op <;> rfl
  rw [text, List.count_append, List.count_append, hop, count_parenthesize, count_parenthesize,
    leftNeedsParens_eq, rightNeedsParens_eq, Nat.add_zero]
  simp only [decide_eq_true_eq, groupsAt]

/-- At a looser place a formula needs no more groups. -/
theorem groupsAt_mono {k₁ k₂ : Nat} (e : Expr) (h : k₁ ≤ k₂) : groupsAt k₁ e ≤ groupsAt k₂ e := by
  unfold groupsAt
  split <;> split <;> omega

/-- At a place for its own stratum, or for a looser one, it needs those of its text. -/
theorem groupsAt_of_le {k : Nat} {e : Expr} (h : k ≤ e.stratum) :
    groupsAt k e = e.text.count '(' := by
  rw [groupsAt, if_neg (Nat.not_lt.2 h), Nat.add_zero]

/-- An operation at its own stratum needs the groups that its operands need in their places. -/
theorem groupsAt_binary (op : Op) (left right : Expr) :
    groupsAt op.precedence (binary op left right) =
      groupsAt (leftLevel op) left + groupsAt (rightLevel op) right := by
  have hown : groupsAt op.precedence (binary op left right) = _ := groupsAt_of_le (Nat.le_refl _)
  rw [hown, count_text_binary]

/-- A literal or a letter needs no group. -/
theorem groupsAt_term {e : Expr} (hstratum : e.stratum = 6) (hfree : '(' ∉ e.text) :
    groupsAt 6 e = 0 := by
  rw [groupsAt_of_le (Nat.le_of_eq hstratum.symm), List.count_eq_zero_of_not_mem hfree]

/-! ## What every text has to write -/

/-- A text from which a stratum derives a formula opens the groups that the formula needs there. -/
theorem Derives.groupsAt_le {k : Nat} {text : List Char} {e : Expr} (h : Derives k text e) :
    groupsAt k e ≤ text.count '(' := by
  induction h with
  | @literal blanks literal d hblanks hliteral =>
    have hprintable := (Derives.literal hblanks hliteral).printable
    obtain ⟨written, hwritten, -⟩ := exists_isLiteral hprintable
    have hfree : '(' ∉ (number d.toFloat).text := fun hc => absurd (hwritten.mem hc) (by decide)
    rw [groupsAt_term rfl hfree]
    exact Nat.zero_le _
  | @letter blanks c _ hletter =>
    have hfree : '(' ∉ (var (String.singleton c)).text := by
      rw [Expr.text, String.toList_singleton, List.mem_singleton]
      rintro rfl
      exact absurd hletter (by decide)
    rw [groupsAt_term rfl hfree]
    exact Nat.zero_le _
  | @group blanks inner blanks' e _ _ _ ih =>
    -- the pair of parentheses pays for the group that a loose formula needs
    have hloose : groupsAt 6 e ≤ groupsAt 1 e + 1 := by
      unfold groupsAt
      split <;> split <;> omega
    rw [List.count_append, List.count_cons_self, List.count_append]
    omega
  | tighter _ ih => exact Nat.le_trans (groupsAt_mono _ (Nat.le_succ _)) ih
  | @left k textₗ blanks textᵣ op eₗ eᵣ hop _ _ _ ihₗ ihᵣ =>
    obtain ⟨rfl, hassoc⟩ := mem_leftOperators.1 hop
    have hlevels : leftLevel op = op.precedence ∧ rightLevel op = op.precedence + 1 := by
      rw [leftLevel, rightLevel, hassoc]
      exact ⟨rfl, rfl⟩
    rw [groupsAt_binary, hlevels.1, hlevels.2, List.count_append, List.count_append,
      List.count_append]
    omega
  | @power textₗ blanks textᵣ eₗ eᵣ _ _ _ ihₗ ihᵣ =>
    have hlevels : groupsAt 5 (Expr.binary .pow eₗ eᵣ) = groupsAt 6 eₗ + groupsAt 5 eᵣ :=
      groupsAt_binary .pow eₗ eᵣ
    rw [hlevels, List.count_append, List.count_append, List.count_append]
    omega

/-- The text of a formula opens as few groups as any text that is parsed to the formula, and it is
one of those texts. -/
theorem text_has_fewest_groups {text : List Char} {e : Expr} (h : parse text = .ok e) :
    parse e.text = .ok e ∧ e.text.count '(' ≤ text.count '(' := by
  obtain ⟨formula, blanks, hderives, -, rfl⟩ := isFormula_of_parse h
  have hgroups := hderives.groupsAt_le
  rw [groupsAt_of_le (one_le_stratum e)] at hgroups
  refine ⟨(printable_of_parse h).parse_text, ?_⟩
  rw [List.count_append]
  omega

/-- The formula `a - (b - (c ^ d) ^ x)`. -/
def nested : Expr :=
  binary .sub (var "a") (binary .sub (var "b")
    (binary .pow (binary .pow (var "c") (var "d")) (var "x")))

/-- Of five groups two are needed: a difference on the right of a difference, and a power on the
left of a power. -/
theorem text_has_fewest_groups_nested :
    ∃ e, parse "(a)-((b-((c^d)^x)))".toList = .ok e ∧ e.text = "a-(b-(c^d)^x)".toList ∧
      parse e.text = .ok e ∧ e.text.count '(' ≤ "(a)-((b-((c^d)^x)))".toList.count '(' := by
  have hread : parse "(a)-((b-((c^d)^x)))".toList = .ok nested := by cbv
  exact ⟨nested, hread, by decide +kernel, text_has_fewest_groups hread⟩

end Lindenmayer.Expr
