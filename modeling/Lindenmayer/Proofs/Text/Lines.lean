import Lindenmayer.Proofs.Text.Blank
import Lindenmayer.Text.Lines

/-!
# Cutting written lines

Lines that are written one after another, each with a line feed, are cut where they were joined.
-/

namespace Lindenmayer.Text

/-- Every line break is a blank. -/
theorem isBlank_of_isLineBreak {c : Char} (h : isLineBreak c) : isBlank c := by
  simp only [isLineBreak, isBlank, Bool.or_eq_true, Bool.and_eq_true, decide_eq_true_eq,
    beq_iff_eq] at h ⊢
  omega

theorem lines_cons {c : Char} (h : ¬isLineBreak c) (rest : List Char) :
    lines (c :: rest) = consLine c (lines rest) := by
  rw [lines]
  · rw [if_neg h]
  · rintro rest' rfl
    exact absurd rfl h

/-- A line feed ends a line. -/
theorem lines_append {line : List Char} (h : ∀ c ∈ line, ¬isLineBreak c) (rest : List Char) :
    lines (line ++ '\n' :: rest) = line :: lines rest := by
  induction line with
  | nil =>
    rw [List.nil_append, lines]
    · exact if_pos rfl
    · exact fun _ hc => absurd hc (by decide)
  | cons c line ih =>
    rw [List.cons_append, lines_cons (h c List.mem_cons_self),
      ih fun d hd => h d (List.mem_cons_of_mem c hd)]
    rfl

/-- No line has a break of its own. -/
theorem not_isLineBreak_of_mem_lines {text : List Char} :
    ∀ line ∈ lines text, ∀ c ∈ line, ¬isLineBreak c := by
  fun_induction lines text with
  | case1 => exact fun line hline => absurd hline List.not_mem_nil
  | case2 rest ih => exact List.forall_mem_cons.2 ⟨nofun, ih⟩
  | case3 c rest _ hbreak ih => exact List.forall_mem_cons.2 ⟨nofun, ih⟩
  | case4 c rest _ hbreak ih =>
    cases hlines : lines rest with
    | nil => exact List.forall_mem_singleton.2 (List.forall_mem_singleton.2 hbreak)
    | cons line others =>
      rw [hlines] at ih
      obtain ⟨hline, hothers⟩ := List.forall_mem_cons.1 ih
      exact List.forall_mem_cons.2 ⟨List.forall_mem_cons.2 ⟨hbreak, hline⟩, hothers⟩

/-- Lines without breaks of their own are read back. -/
theorem lines_flatMap {written : List (List Char)}
    (h : ∀ line ∈ written, ∀ c ∈ line, ¬isLineBreak c) :
    lines (written.flatMap (· ++ ['\n'])) = written := by
  induction written with
  | nil => rfl
  | cons line written ih =>
    rw [List.flatMap_cons, List.append_assoc, List.singleton_append,
      lines_append (h line List.mem_cons_self),
      ih fun other hother => h other (List.mem_cons_of_mem line hother)]

end Lindenmayer.Text
