import Lindenmayer.Proofs.Element.Scanner
import Lindenmayer.Proofs.Expr.Printer

/-!
# The characters of written formulas

A formula is written without blanks, and what is written closes its own parentheses. So its text
can stand as a parameter among others, and as the condition of a production.
-/

namespace Lindenmayer.Expr

open Text

/-- The characters that occur in the texts of formulas. -/
def IsFormulaChar (c : Char) : Prop :=
  isDigit c ∨ c.isAlpha ∨
    c ∈ ['(', ')', '.', '|', '&', '=', '>', '<', '+', '-', '*', '/', '^']

instance (c : Char) : Decidable (IsFormulaChar c) :=
  inferInstanceAs (Decidable (_ ∨ _ ∨ _))

/-- There are no blanks in written formulas. -/
theorem IsFormulaChar.not_isBlank {c : Char} (h : IsFormulaChar c) : ¬isBlank c := by
  rcases h with hdigit | hletter | hmark
  · exact not_isBlank_of_isDigit hdigit
  · exact not_isBlank_of_isAlpha hletter
  · have hall : ∀ c ∈ ['(', ')', '.', '|', '&', '=', '>', '<', '+', '-', '*', '/', '^'],
        isBlank c = false :=
      forall_mem_of_all (by decide)
    rw [hall c hmark]
    exact Bool.false_ne_true

/-- The characters of numbers occur in formulas. -/
theorem isFormulaChar_of_mem_literal {literal : List Char} {d : Decimal}
    (h : Literal.IsLiteral literal d) {c : Char} (hc : c ∈ literal) : IsFormulaChar c := by
  rcases h.mem hc with hdigit | hmark
  · exact .inl hdigit
  · have hall : ∀ c ∈ ['+', '-', '.', 'e', 'E'], IsFormulaChar c :=
      forall_mem_of_all (by decide)
    exact hall c hmark

/-- So do those of operators. -/
theorem isFormulaChar_of_mem_op {op : Op} {c : Char} (hc : c ∈ op.text) : IsFormulaChar c := by
  have hall : ∀ c ∈ op.text, IsFormulaChar c := by
    cases op <;> exact forall_mem_of_all (by decide)
  exact hall c hc

/-- Parentheses are the only characters that grouping adds. -/
theorem mem_parenthesize {needed : Bool} {text : List Char} {c : Char}
    (hc : c ∈ parenthesize needed text) : c = '(' ∨ c = ')' ∨ c ∈ text := by
  unfold parenthesize at hc
  split at hc
  · simp only [List.cons_append, List.mem_cons, List.mem_append, List.not_mem_nil, or_false] at hc
    rcases hc with hc | hc | hc
    · exact .inl hc
    · exact .inr (.inr hc)
    · exact .inr (.inl hc)
  · exact .inr (.inr hc)

/-- A written formula has characters of formulas only. -/
theorem Printable.mem_text {e : Expr} (h : e.Printable) {c : Char} (hc : c ∈ e.text) :
    IsFormulaChar c := by
  induction e with
  | number value =>
    obtain ⟨d, hliteral, -⟩ := exists_isLiteral h
    exact isFormulaChar_of_mem_literal hliteral hc
  | var name =>
    obtain ⟨letter, hletter, rfl⟩ := h
    rw [text, String.toList_singleton, List.mem_singleton] at hc
    exact .inr (.inl (hc ▸ hletter))
  | binary op left right ihₗ ihᵣ =>
    rw [text, List.mem_append, List.mem_append] at hc
    have hparens {c : Char} (hc : c = '(' ∨ c = ')') : IsFormulaChar c := by
      rcases hc with rfl | rfl <;> decide
    rcases hc with (hc | hc) | hc
    · rcases mem_parenthesize hc with hc | hc | hc
      · exact hparens (.inl hc)
      · exact hparens (.inr hc)
      · exact ihₗ h.1 hc
    · exact isFormulaChar_of_mem_op hc
    · rcases mem_parenthesize hc with hc | hc | hc
      · exact hparens (.inl hc)
      · exact hparens (.inr hc)
      · exact ihᵣ h.2 hc

/-- A character that no formula has does not occur in the text of one. -/
theorem Printable.not_mem_text {e : Expr} (h : e.Printable) {c : Char} (hc : ¬IsFormulaChar c) :
    c ∉ e.text :=
  fun hmem => hc (h.mem_text hmem)

theorem Printable.text_ne_nil {e : Expr} (h : e.Printable) : e.text ≠ [] := by
  obtain ⟨c, rest, htext, -⟩ := h.derives.head
  rw [htext]
  exact nofun

/-! ## Parentheses -/

open Element (Closes closes_of_not_mem)

/-- A number has no parentheses. -/
theorem closes_literal {literal : List Char} {d : Decimal} (h : Literal.IsLiteral literal d) :
    Closes 0 literal := by
  have hnot (c : Char) (hdigit : isDigit c = false) (hmark : c ∉ ['+', '-', '.', 'e', 'E']) :
      c ∉ literal := by
    intro hc
    rcases h.mem hc with hd | hm
    · rw [hdigit] at hd
      exact Bool.false_ne_true hd
    · exact hmark hm
  exact closes_of_not_mem (hnot '(' (by decide) (by decide)) (hnot ')' (by decide) (by decide))

/-- Nor has an operator. -/
theorem closes_op (op : Op) : Closes 0 op.text := by
  cases op <;> exact closes_of_not_mem (by decide) (by decide)

/-- A formula closes the parentheses that it opens. -/
theorem Derives.closes {k : Nat} {text : List Char} {e : Expr} (h : Derives k text e) :
    Closes 0 text := by
  have hgap {blanks : List Char} (hblanks : IsBlanks blanks) : Closes 0 blanks :=
    Element.closes_blanks hblanks
  induction h with
  | literal hblanks hliteral => exact (hgap hblanks).append (closes_literal hliteral)
  | @letter blanks c hblanks hletter =>
    have hnot (d : Char) (hd : d.isAlpha = false) : d ∉ [c] := by
      intro hmem
      rw [List.mem_singleton.1 hmem, hletter] at hd
      exact Bool.noConfusion hd
    exact (hgap hblanks).append
      (closes_of_not_mem (hnot '(' (by decide)) (hnot ')' (by decide)))
  | group hblanks _ hblanks' ih =>
    rw [← List.append_assoc]
    exact (hgap hblanks).append (ih.append (hgap hblanks')).enclose
  | tighter _ ih => exact ih
  | left _ _ hblanks _ ihₗ ihᵣ =>
    exact ihₗ.append ((hgap hblanks).append ((closes_op _).append ihᵣ))
  | power _ hblanks _ ihₗ ihᵣ =>
    exact ihₗ.append ((hgap hblanks).append ((closes_op _).append ihᵣ))

/-- The text of a formula closes the parentheses that it opens. -/
theorem Printable.closes {e : Expr} (h : e.Printable) : Closes 0 e.text :=
  h.derives.closes

end Lindenmayer.Expr
