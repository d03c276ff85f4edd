import Lindenmayer.Expr.Basic
import Lindenmayer.Proofs.Number.Literal
import Lindenmayer.Proofs.Text.Blank

/-!
# The grammar of formulas

The grammar has five strata of operators above the terms, with blanks before every token:

    E1 := E2 | E1 (|| or &&) E2
    E2 := E3 | E2 (== or > or < or >= or <=) E3
    E3 := E4 | E3 (+ or -) E4
    E4 := E5 | E4 (* or /) E5
    E5 := T | T ^ E5
    T := literal | letter | ( E1 )

The first four group from the left and the fifth from the right. `Derives k text e` says that the
text belongs to the stratum `E k`, or to the terms if `k` is 6, and that `e` is its tree.
-/

namespace Lindenmayer.Expr

open Text

/-- The operators that group from the left, stratum by stratum. -/
def leftOperators : Nat → List Op
  | 1 => [.or, .and]
  | 2 => [.eq, .gt, .lt, .ge, .le]
  | 3 => [.add, .sub]
  | 4 => [.mul, .div]
  | _ => []

/-- The texts of every stratum and their trees. -/
inductive Derives : Nat → List Char → Expr → Prop where
  | literal {blanks literal : List Char} {d : Decimal} (hblanks : IsBlanks blanks)
      (hliteral : Literal.IsLiteral literal d) :
      Derives 6 (blanks ++ literal) (.number d.toFloat)
  | letter {blanks : List Char} {c : Char} (hblanks : IsBlanks blanks) (hletter : c.isAlpha) :
      Derives 6 (blanks ++ [c]) (.var (String.singleton c))
  | group {blanks inner blanks' : List Char} {e : Expr} (hblanks : IsBlanks blanks)
      (hinner : Derives 1 inner e) (hblanks' : IsBlanks blanks') :
      Derives 6 (blanks ++ '(' :: (inner ++ (blanks' ++ [')']))) e
  | tighter {k : Nat} {text : List Char} {e : Expr} (h : Derives (k + 1) text e) :
      Derives k text e
  | left {k : Nat} {textₗ blanks textᵣ : List Char} {op : Op} {eₗ eᵣ : Expr}
      (hop : op ∈ leftOperators k) (hleft : Derives k textₗ eₗ) (hblanks : IsBlanks blanks)
      (hright : Derives (k + 1) textᵣ eᵣ) :
      Derives k (textₗ ++ (blanks ++ (op.text ++ textᵣ))) (.binary op eₗ eᵣ)
  | power {textₗ blanks textᵣ : List Char} {eₗ eᵣ : Expr} (hleft : Derives 6 textₗ eₗ)
      (hblanks : IsBlanks blanks) (hright : Derives 5 textᵣ eᵣ) :
      Derives 5 (textₗ ++ (blanks ++ (Op.pow.text ++ textᵣ))) (.binary .pow eₗ eᵣ)

/-- The texts of formulas and their trees: those of the first stratum, with blanks after the last
token. -/
def IsFormula (text : List Char) (e : Expr) : Prop :=
  ∃ formula blanks, Derives 1 formula e ∧ IsBlanks blanks ∧ text = formula ++ blanks

/-! ## Derivations -/

/-- The strata of the grammar are the levels of the operators. -/
theorem mem_leftOperators {op : Op} {k : Nat} :
    op ∈ leftOperators k ↔ op.precedence = k ∧ op.rightAssociative = false := by
  constructor
  · intro h
    unfold leftOperators at h
    split at h <;> cases op <;> simp_all [Op.precedence, Op.rightAssociative]
  · rintro ⟨rfl, hleft⟩
    cases op <;> simp_all [leftOperators, Op.precedence, Op.rightAssociative]

/-- What a tight stratum derives, every looser one derives too. -/
theorem Derives.mono {k₁ k₂ : Nat} {text : List Char} {e : Expr} (h : Derives k₂ text e)
    (hle : k₁ ≤ k₂) : Derives k₁ text e := by
  induction hle with
  | refl => exact h
  | step _ ih => exact ih (.tighter h)

/-- No text of a stratum is empty or begins with a mark that neither a literal nor a group begins
with. -/
theorem Derives.head_ne {mark : Char} (hblank : ¬isBlank mark) (hdigit : ¬isDigit mark)
    (hletter : ¬mark.isAlpha) (hmark : mark ∉ ['(', '+', '-', '.', 'e', 'E']) {k : Nat}
    {text : List Char} {e : Expr} (h : Derives k text e) :
    ∃ c rest, text = c :: rest ∧ c ≠ mark := by
  have hskip {blanks token : List Char} (hblanks : IsBlanks blanks)
      (htoken : ∃ c rest, token = c :: rest ∧ c ≠ mark) :
      ∃ c rest, blanks ++ token = c :: rest ∧ c ≠ mark := by
    cases blanks with
    | nil => exact htoken
    | cons c blanks =>
      refine ⟨c, blanks ++ token, rfl, ?_⟩
      rintro rfl
      exact hblank (hblanks _ List.mem_cons_self)
  have hlonger {left right : List Char} (hleft : ∃ c rest, left = c :: rest ∧ c ≠ mark) :
      ∃ c rest, left ++ right = c :: rest ∧ c ≠ mark := by
    obtain ⟨c, rest, rfl, hc⟩ := hleft
    exact ⟨c, rest ++ right, rfl, hc⟩
  induction h with
  | @literal blanks literal d hblanks hliteral =>
    refine hskip hblanks ?_
    cases literal with
    | nil => exact absurd rfl hliteral.ne_nil
    | cons c rest =>
      refine ⟨c, rest, rfl, ?_⟩
      rintro rfl
      rcases hliteral.mem List.mem_cons_self with hc | hc
      · exact hdigit hc
      · exact hmark (List.mem_cons_of_mem _ hc)
  | @letter blanks c hblanks hc =>
    refine hskip hblanks ⟨c, [], rfl, ?_⟩
    rintro rfl
    exact hletter hc
  | group hblanks _ _ _ =>
    refine hskip hblanks ⟨_, _, rfl, ?_⟩
    rintro rfl
    exact hmark List.mem_cons_self
  | tighter _ ih => exact ih
  | left _ _ _ _ ihleft _ => exact hlonger ihleft
  | power _ _ _ ihleft _ => exact hlonger ihleft

/-- No text of a stratum is empty or begins with an equals sign. -/
theorem Derives.head {k : Nat} {text : List Char} {e : Expr} (h : Derives k text e) :
    ∃ c rest, text = c :: rest ∧ c ≠ '=' :=
  h.head_ne (by decide) (by decide) (by decide) (by decide)

end Lindenmayer.Expr
