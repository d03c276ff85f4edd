import Lindenmayer.Proofs.Text.Blank

/-!
# Blanks between the pieces of a text

A text that has been cut into pieces is spread if more blanks stand between the pieces or around
them. Its other characters stay the same, in the same order; where the pieces are single characters,
blanks may stand anywhere.
-/

namespace Lindenmayer.Text

/-- The pieces of a text that is cut before and after every character. -/
def characters (text : List Char) : List (List Char) :=
  text.map fun c => [c]

/-- The texts that come of pieces when blanks are put before them, between them and after them. -/
inductive Spreads : List (List Char) → List Char → Prop where
  | nil {blanks : List Char} (hblanks : IsBlanks blanks) : Spreads [] blanks
  | cons {blanks piece rest : List Char} {pieces : List (List Char)} (hblanks : IsBlanks blanks)
      (hrest : Spreads pieces rest) : Spreads (piece :: pieces) (blanks ++ (piece ++ rest))

/-! ## Single characters -/

@[simp]
theorem characters_append (left right : List Char) :
    characters (left ++ right) = characters left ++ characters right :=
  List.map_append

@[simp]
theorem characters_cons (c : Char) (text : List Char) :
    characters (c :: text) = [c] :: characters text :=
  rfl

@[simp]
theorem flatten_characters (text : List Char) : (characters text).flatten = text := by
  induction text with
  | nil => rfl
  | cons c text ih => simp [ih]

/-- Pieces that are single characters are all there is of the text. -/
theorem eq_characters {pieces : List (List Char)} (h : ∀ piece ∈ pieces, ∃ c, piece = [c]) :
    pieces = characters pieces.flatten := by
  induction pieces with
  | nil => rfl
  | cons piece pieces ih =>
    obtain ⟨⟨c, rfl⟩, hrest⟩ := List.forall_mem_cons.1 h
    rw [List.flatten_cons, List.singleton_append, characters_cons, ← ih hrest]

/-! ## Spread texts -/

/-- A blank may be put before every piece. -/
theorem spreads_spaced (pieces : List (List Char)) :
    Spreads pieces (pieces.flatMap fun piece => ' ' :: piece) := by
  induction pieces with
  | nil => exact .nil isBlanks_nil
  | cons piece pieces ih =>
    have hspace : IsBlanks [' '] := List.forall_mem_singleton.2 rfl
    exact .cons hspace ih

namespace Spreads

variable {left right pieces : List (List Char)} {text : List Char}

/-- Blanks may be added behind a text that is spread. -/
theorem append_blanks (h : Spreads pieces text) {blanks : List Char} (hblanks : IsBlanks blanks) :
    Spreads pieces (text ++ blanks) := by
  induction h with
  | nil hblanks' => exact .nil (hblanks'.append hblanks)
  | cons hblanks' _ ih =>
    rw [List.append_assoc, List.append_assoc]
    exact .cons hblanks' ih

/-- A spread text is cut where its pieces are. -/
theorem exists_append (h : Spreads (left ++ right) text) :
    ∃ l r, text = l ++ r ∧ Spreads left l ∧ Spreads right r := by
  induction left generalizing text with
  | nil => exact ⟨[], text, rfl, .nil isBlanks_nil, h⟩
  | cons piece left ih =>
    cases h with
    | @cons blanks _ rest _ hblanks hrest =>
      obtain ⟨l, r, rfl, hleft, hright⟩ := ih hrest
      refine ⟨blanks ++ (piece ++ l), r, ?_, .cons hblanks hleft, hright⟩
      rw [List.append_assoc, List.append_assoc]

/-- A spread text is cut at a mark that is a piece. -/
theorem exists_mark {mark : Char} (h : Spreads (left ++ [mark] :: right) text) :
    ∃ l r, text = l ++ mark :: r ∧ Spreads left l ∧ Spreads right r := by
  obtain ⟨l, r, rfl, hleft, hright⟩ := h.exists_append
  cases hright with
  | @cons blanks _ rest _ hblanks hrest =>
    refine ⟨l ++ blanks, rest, ?_, hleft.append_blanks hblanks, hrest⟩
    rw [List.append_assoc, List.singleton_append]

/-- Spreading blanks gives blanks. -/
theorem isBlanks {blanks : List Char} (h : Spreads (characters text) blanks)
    (hblanks : IsBlanks text) : IsBlanks blanks := by
  induction text generalizing blanks with
  | nil =>
    cases h with
    | nil hblanks => exact hblanks
  | cons c text ih =>
    obtain ⟨hc, htext⟩ := List.forall_mem_cons.1 hblanks
    cases h with
    | cons hfront hrest =>
      exact hfront.append (List.forall_mem_cons.2 ⟨hc, ih hrest htext⟩)

/-- A spread text begins with a blank or as before. -/
theorem head (h : Spreads pieces text) :
    ∀ c ∈ text.head?, isBlank c ∨ c ∈ pieces.flatten.head? := by
  induction h with
  | nil hblanks => exact fun c hc => .inl (hblanks c (List.mem_of_mem_head? hc))
  | @cons blanks piece rest pieces hblanks _ ih =>
    intro c hc
    cases blanks with
    | cons b blanks => exact .inl (hblanks c (List.mem_of_mem_head? hc))
    | nil =>
      cases piece with
      | nil => exact ih c hc
      | cons d piece => exact .inr hc

end Spreads

/-! ## Single tokens -/

/-- Cuts a text of one token: what stands between the blanks at its ends stays whole. -/
def tokenLexemes (text : List Char) : List (List Char) :=
  characters (text.takeWhile isBlank) ++
    trim text :: characters ((dropBlanks text).reverse.takeWhile isBlank).reverse

theorem isBlanks_takeWhile (text : List Char) : IsBlanks (text.takeWhile isBlank) :=
  fun c hc => List.all_eq_true.1 List.all_takeWhile c hc

/-- A token is made of its lexemes. -/
@[simp]
theorem flatten_tokenLexemes (text : List Char) : (tokenLexemes text).flatten = text := by
  have hfront := List.takeWhile_append_dropWhile (p := isBlank) (l := text)
  have hback := List.takeWhile_append_dropWhile (p := isBlank) (l := (dropBlanks text).reverse)
  have hdrop :
      dropBlanks (dropBlanks text).reverse = (dropBlanks text).reverse.dropWhile isBlank := rfl
  rw [tokenLexemes, List.flatten_append, List.flatten_cons, flatten_characters, flatten_characters,
    trim, ← List.reverse_append, hdrop, hback, List.reverse_reverse]
  exact hfront

/-- Trimming takes off what spreading a token adds. -/
theorem trim_of_spreads {text text' : List Char} (h : Spreads (tokenLexemes text) text') :
    trim text' = trim text := by
  have hback : IsBlanks ((dropBlanks text).reverse.takeWhile isBlank).reverse :=
    fun c hc => isBlanks_takeWhile _ c (List.mem_reverse.1 hc)
  obtain ⟨front, tail, rfl, hfront, htail⟩ := h.exists_append
  cases htail with
  | @cons gap _ after _ hgap hafter =>
    rw [trim_blanks_append (hfront.isBlanks (isBlanks_takeWhile text)), trim_blanks_append hgap,
      trim_append_blanks (hafter.isBlanks hback), trim_trim]

/-- A single character is found again. -/
theorem trim_of_spreads_singleton {text text' : List Char} {c : Char} (htrim : trim text = [c])
    (h : Spreads (characters text) text') : trim text' = [c] := by
  obtain ⟨front, back, hfront, hback, htext⟩ := exists_blanks_trim text
  rw [htext, htrim, List.singleton_append, characters_append, characters_cons] at h
  obtain ⟨left, right, rfl, hleft, hright⟩ := h.exists_mark
  rw [trim_blanks_append (hleft.isBlanks hfront), ← List.singleton_append,
    trim_append_blanks (hright.isBlanks hback), ← htrim, trim_trim]

/-! ## The characters that are no blanks -/

/-- A text without any blanks. -/
def solid (text : List Char) : List Char :=
  text.filter fun c => !isBlank c

@[simp]
theorem solid_append (left right : List Char) : solid (left ++ right) = solid left ++ solid right :=
  List.filter_append ..

/-- Nothing of blanks counts. -/
theorem solid_of_isBlanks {blanks : List Char} (h : IsBlanks blanks) : solid blanks = [] :=
  List.filter_eq_nil_iff.2 fun c hc => by simp [h c hc]

theorem mem_solid {c : Char} (h : ¬isBlank c) {text : List Char} : c ∈ solid text ↔ c ∈ text := by
  rw [solid, List.mem_filter]
  simp [h]

/-- Spreading a text adds nothing but blanks. -/
theorem Spreads.solid_eq {pieces : List (List Char)} {text : List Char} (h : Spreads pieces text) :
    solid text = solid pieces.flatten := by
  induction h with
  | nil hblanks => exact solid_of_isBlanks hblanks
  | cons hblanks _ ih => simp [solid_of_isBlanks hblanks, ih]

/-- A character other than a blank occurs in a spread text just if it did before. -/
theorem Spreads.mem_iff {pieces : List (List Char)} {text : List Char} (h : Spreads pieces text)
    {c : Char} (hc : ¬isBlank c) : c ∈ text ↔ c ∈ pieces.flatten := by
  rw [← mem_solid hc, h.solid_eq, mem_solid hc]

end Lindenmayer.Text
