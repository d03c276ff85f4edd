import Lindenmayer.Proofs.Text.Digits
import Lindenmayer.Text.Blank
import Lindenmayer.Text.WordChar

/-!
# Runs of blanks

What is skipped in front of a text, and the characters that are never skipped.
-/

namespace Lindenmayer.Text

/-- A text of blanks only. -/
def IsBlanks (blanks : List Char) : Prop :=
  ∀ c ∈ blanks, isBlank c

@[simp]
theorem isBlanks_nil : IsBlanks [] := nofun

/-- Blanks behind blanks are blanks. -/
theorem IsBlanks.append {left right : List Char} (hleft : IsBlanks left) (hright : IsBlanks right) :
    IsBlanks (left ++ right) :=
  fun c hc => (List.mem_append.1 hc).elim (hleft c) (hright c)

/-- A text is a run of blanks and what is left without them. -/
theorem exists_blanks (text : List Char) :
    ∃ blanks, IsBlanks blanks ∧ text = blanks ++ dropBlanks text := by
  refine ⟨text.takeWhile isBlank, fun c hc => ?_, List.takeWhile_append_dropWhile.symm⟩
  have hall := List.all_takeWhile (p := isBlank) (l := text)
  exact List.all_eq_true.1 hall c hc

/-- Blanks in front of a text are dropped. -/
theorem dropBlanks_append {blanks : List Char} (h : IsBlanks blanks) (rest : List Char) :
    dropBlanks (blanks ++ rest) = dropBlanks rest :=
  List.dropWhile_append_of_pos h

theorem dropBlanks_of_isBlanks {blanks : List Char} (h : IsBlanks blanks) :
    dropBlanks blanks = [] := by
  rw [← List.append_nil blanks, dropBlanks_append h, dropBlanks_nil]

/-- If nothing is left, there were blanks only. -/
theorem isBlanks_of_dropBlanks {text : List Char} (h : dropBlanks text = []) : IsBlanks text := by
  obtain ⟨blanks, hblanks, htext⟩ := exists_blanks text
  rw [h, List.append_nil] at htext
  rwa [htext]

/-- Nothing is skipped in front of a character that is not a blank. -/
theorem dropBlanks_eq_self {text : List Char} (h : ∀ c ∈ text.head?, ¬isBlank c) :
    dropBlanks text = text := by
  cases text with
  | nil => rfl
  | cons c rest => exact dropBlanks_cons_of_not_blank (h c rfl) rest

/-! ## Trimming -/

/-- A last character that is no blank is not dropped. -/
theorem exists_dropBlanks_append {c : Char} (h : ¬isBlank c) (text : List Char) :
    ∃ text', dropBlanks (text ++ [c]) = text' ++ [c] := by
  induction text with
  | nil => exact ⟨[], dropBlanks_cons_of_not_blank h []⟩
  | cons d text ih =>
    by_cases hd : isBlank d
    · rw [List.cons_append, dropBlanks_cons_of_blank hd]
      exact ih
    · rw [List.cons_append, dropBlanks_cons_of_not_blank hd]
      exact ⟨d :: text, rfl⟩

/-- Trimming keeps the first character if it is not a blank. -/
theorem exists_trim_cons {c : Char} (h : ¬isBlank c) (rest : List Char) :
    ∃ rest', trim (c :: rest) = c :: rest' := by
  obtain ⟨text, htext⟩ := exists_dropBlanks_append h rest.reverse
  refine ⟨text.reverse, ?_⟩
  rw [trim, dropBlanks_cons_of_not_blank h, List.reverse_cons, htext]
  simp

/-- A text is trimmed already if no blank stands at its ends. -/
theorem trim_eq_self {text : List Char} (hfirst : ∀ c ∈ text.head?, ¬isBlank c)
    (hlast : ∀ c ∈ text.getLast?, ¬isBlank c) : trim text = text := by
  have hback : dropBlanks text.reverse = text.reverse := by
    apply dropBlanks_eq_self
    rwa [List.head?_reverse]
  rw [trim, dropBlanks_eq_self hfirst, hback, List.reverse_reverse]

/-- A text without blanks stays as it is. -/
theorem trim_of_no_blanks {text : List Char} (h : ∀ c ∈ text, ¬isBlank c) : trim text = text :=
  trim_eq_self (fun c hc => h c (List.mem_of_mem_head? hc))
    fun c hc => h c (List.mem_of_mem_getLast? hc)

/-- Blanks in front do not matter when a text is trimmed. -/
theorem trim_blanks_append {blanks : List Char} (hblanks : IsBlanks blanks) (text : List Char) :
    trim (blanks ++ text) = trim text := by
  rw [trim, dropBlanks_append hblanks, ← trim]

/-- Nor do blanks behind it. -/
theorem trim_append_blanks {blanks : List Char} (hblanks : IsBlanks blanks) (text : List Char) :
    trim (text ++ blanks) = trim text := by
  unfold trim
  by_cases hnil : dropBlanks text = []
  · rw [dropBlanks_append (isBlanks_of_dropBlanks hnil), dropBlanks_of_isBlanks hblanks, hnil]
  · have hkept : dropBlanks (text ++ blanks) = dropBlanks text ++ blanks := by
      have hempty : ¬(text.dropWhile isBlank).isEmpty := fun h => hnil (List.isEmpty_iff.1 h)
      show (text ++ blanks).dropWhile isBlank = text.dropWhile isBlank ++ blanks
      rw [List.dropWhile_append, if_neg hempty]
    have hreverse : IsBlanks blanks.reverse := fun c hc => hblanks c (List.mem_reverse.1 hc)
    rw [hkept, List.reverse_append, dropBlanks_append hreverse]

/-- A text that has no blank at its ends. -/
def IsTrimmed (text : List Char) : Prop :=
  (∃ c, text.head? = some c ∧ ¬isBlank c) ∧ ∃ c, text.getLast? = some c ∧ ¬isBlank c

/-- What begins and ends with other characters stays as it is. -/
theorem IsTrimmed.trim_eq {text : List Char} (h : IsTrimmed text) : trim text = text := by
  obtain ⟨⟨c, hc, hfirst⟩, ⟨d, hd, hlast⟩⟩ := h
  refine trim_eq_self (fun b hb => ?_) (fun b hb => ?_)
  · rw [hc] at hb
    rwa [← Option.mem_some.1 hb]
  · rw [hd] at hb
    rwa [← Option.mem_some.1 hb]

/-- Whatever stands between such texts, the whole is one, too. -/
theorem IsTrimmed.append {left right : List Char} (hleft : IsTrimmed left)
    (hright : IsTrimmed right) (middle : List Char) : IsTrimmed (left ++ (middle ++ right)) := by
  obtain ⟨c, hc, hfirst⟩ := hleft.1
  obtain ⟨d, hd, hlast⟩ := hright.2
  refine ⟨⟨c, ?_, hfirst⟩, ⟨d, ?_, hlast⟩⟩
  · rw [List.head?_append, hc]
    rfl
  · rw [List.getLast?_append, List.getLast?_append, hd]
    rfl

theorem isTrimmed_of_forall {text : List Char} (hne : text ≠ []) (h : ∀ c ∈ text, ¬isBlank c) :
    IsTrimmed text :=
  ⟨⟨text.head hne, List.head?_eq_some_head hne, h _ (List.head_mem hne)⟩,
    ⟨text.getLast hne, List.getLast?_eq_some_getLast hne, h _ (List.getLast_mem hne)⟩⟩

/-- Around a trimmed text stand only blanks. -/
theorem exists_blanks_trim (text : List Char) :
    ∃ front back, IsBlanks front ∧ IsBlanks back ∧ text = front ++ (trim text ++ back) := by
  obtain ⟨front, hfront, htext⟩ := exists_blanks text
  obtain ⟨back, hback, hreverse⟩ := exists_blanks (dropBlanks text).reverse
  refine ⟨front, back.reverse, hfront, fun c hc => hback c (List.mem_reverse.1 hc), ?_⟩
  rw [trim, ← List.reverse_append, ← hreverse, List.reverse_reverse]
  exact htext

/-- Trimming twice is trimming once. -/
@[simp]
theorem trim_trim (text : List Char) : trim (trim text) = trim text := by
  obtain ⟨front, back, hfront, hback, htext⟩ := exists_blanks_trim text
  conv_rhs => rw [htext, trim_blanks_append hfront, trim_append_blanks hback]

@[simp]
theorem isBlanks_space : IsBlanks [' '] := by
  intro c hc
  rw [List.mem_singleton.1 hc]
  rfl

/-! ## Characters that are no blanks -/

/-- A letter is no blank. -/
theorem not_isBlank_of_isAlpha {c : Char} (h : c.isAlpha) : ¬isBlank c := by
  have hrange := toNat_of_isAlpha h
  simp only [isBlank, Bool.or_eq_true, Bool.and_eq_true, decide_eq_true_eq, beq_iff_eq]
  omega

/-- The ranges of digits contain no blank. -/
theorem not_isBlank_of_mem_zeros :
    ∀ first ∈ zeros, ∀ i < 10, isBlank (Char.ofNat (first + i)) = false := by
  decide +kernel

/-- A digit is no blank. -/
theorem not_isBlank_of_isDigit {c : Char} (h : isDigit c) : ¬isBlank c := by
  obtain ⟨first, hfirst, hrange⟩ := exists_zero_of_isDigit h
  have hfree := not_isBlank_of_mem_zeros first hfirst (c.toNat - first) (by omega)
  rw [Nat.add_sub_cancel' hrange.1, Char.ofNat_toNat] at hfree
  rw [hfree]
  exact Bool.false_ne_true

/-- The blanks beyond ASCII lie outside all ranges of word characters. -/
theorem not_mem_wordRanges :
    ∀ code ∈ [0x85, 0xA0, 0x1680, 0x2028, 0x2029, 0x202F, 0x205F, 0x3000] ++
      (List.range 11).map (0x2000 + ·), wordRanges.contains code = false := by
  decide +kernel

/-- No character of a word is a blank. -/
theorem not_isBlank_of_isWordChar {c : Char} (h : isWordChar c) : ¬isBlank c := by
  intro hblank
  simp only [isBlank, Bool.or_eq_true, Bool.and_eq_true, decide_eq_true_eq, beq_iff_eq] at hblank
  unfold isWordChar at h
  split at h
  · simp only [Char.isAlphanum, Char.isDigit, Bool.or_eq_true, beq_iff_eq, Bool.and_eq_true,
      decide_eq_true_eq] at h
    rcases h with (hletter | hdigit) | rfl
    · have := toNat_of_isAlpha hletter
      omega
    · have : 48 ≤ c.toNat ∧ c.toNat ≤ 57 := by
        simpa [UInt32.le_iff_toNat_le] using hdigit
      omega
    · exact absurd hblank (by decide)
  · have hcode : c.toNat ∈ [0x85, 0xA0, 0x1680, 0x2028, 0x2029, 0x202F, 0x205F, 0x3000] ++
        (List.range 11).map (0x2000 + ·) := by
      rw [List.mem_append, List.mem_map]
      by_cases hgeneral : 0x2000 ≤ c.toNat ∧ c.toNat ≤ 0x200A
      · refine .inr ⟨c.toNat - 0x2000, List.mem_range.2 (by omega), by omega⟩
      · left
        simp only [List.mem_cons, List.not_mem_nil, or_false]
        omega
    rw [not_mem_wordRanges _ hcode] at h
    exact Bool.false_ne_true h

end Lindenmayer.Text
