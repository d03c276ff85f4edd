import Lindenmayer.Proofs.Production.Reader

/-!
# Formulas and names as parameters

The parameters of a successor are formulas, those of a predecessor and of the contexts are names of
one letter. The texts of both can stand in a group, and an element with names is read back.
-/

namespace Lindenmayer

open Element (IsSymbol IsSolid)

/-! ## Parameters -/

/-- A written formula can be a parameter: it has no blanks and no loose commas. -/
theorem Expr.Printable.isSolid {e : Expr} (h : e.Printable) : IsSolid e.text where
  ne_nil := h.text_ne_nil
  not_isBlank := fun _ hc => (h.mem_text hc).not_isBlank
  no_comma := h.not_mem_text (by decide)
  closes := h.closes
  no_slash := by
    obtain ⟨c, rest, htext, hc⟩ := @Derives.head_ne '/' (by decide) (by decide) (by decide)
      (by decide) _ _ _ h.derives
    rw [htext]
    exact fun d hd => Option.some.inj hd ▸ hc

/-- The name of a formal parameter is a single letter. -/
theorem exists_letter_of_isFormalName {name : String} (h : isFormalName name) :
    ∃ c : Char, c.isAlpha ∧ name.toList = [c] := by
  unfold isFormalName at h
  split at h
  · exact ⟨_, h, ‹_›⟩
  · exact absurd h nofun

/-- A formal parameter is one letter, and so is its text. -/
theorem isAlpha_of_mem_formalName {name : String} (h : isFormalName name) {c : Char}
    (hc : c ∈ name.toList) : c.isAlpha := by
  obtain ⟨letter, hletter, htext⟩ := exists_letter_of_isFormalName h
  rw [htext, List.mem_singleton] at hc
  rwa [hc]

/-- A formal parameter can stand between commas. -/
theorem isSolid_of_isFormalName {name : String} (h : isFormalName name) :
    IsSolid name.toList where
  ne_nil := by
    obtain ⟨c, -, htext⟩ := exists_letter_of_isFormalName h
    rw [htext]
    exact List.cons_ne_nil c []
  not_isBlank := fun _ hc => Text.not_isBlank_of_isAlpha (isAlpha_of_mem_formalName h hc)
  no_comma := fun hc => absurd (isAlpha_of_mem_formalName h hc) (by decide)
  closes := by
    apply Element.closes_of_not_mem
    · exact fun hc => absurd (isAlpha_of_mem_formalName h hc) (by decide)
    · exact fun hc => absurd (isAlpha_of_mem_formalName h hc) (by decide)
  no_slash := by
    rintro c hc rfl
    exact absurd (isAlpha_of_mem_formalName h (List.mem_of_mem_head? hc)) (by decide)

/-- A formal parameter is read back from its text. -/
theorem Production.readFormalName_text {name : String} (h : isFormalName name) :
    readFormalName (Written.text name) = .ok name := by
  show readFormalName name.toList = .ok name
  unfold readFormalName
  simp only [String.ofList_toList, h, ↓reduceIte]

namespace Production

/-! ## Elements of the head -/

/-- An element whose parameters are formal. -/
structure IsFormal (e : Element String) : Prop where
  symbol : IsSymbol e.symbol
  names : ∀ name ∈ e.params.values, isFormalName name

section
variable {e : Element String}

/-- Predecessors and contexts can be written. -/
theorem IsFormal.isWritable (h : IsFormal e) : e.IsWritable :=
  ⟨h.symbol, fun name hname => isSolid_of_isFormalName (h.names name hname)⟩

/-- A predecessor or a context is read back. -/
theorem IsFormal.readFormal_text (h : IsFormal e) : readFormal e.text = .ok e := by
  have hscanned : Element.scanFrom readFormalName e.text (elementsText [e]) = .ok [e] :=
    Element.scanFrom_elementsText (List.forall_mem_singleton.2 h.isWritable)
      (List.forall_mem_singleton.2 fun name hname => readFormalName_text (h.names name hname))
      e.text
  rw [Element.elementsText_cons, elementsText, List.flatMap_nil, List.append_nil] at hscanned
  exact readFormal_eq_ok.2 hscanned

/-- In the written parameters there are letters and punctuation only. -/
theorem IsFormal.not_mem_params (h : IsFormal e) {c : Char} (hletter : ¬c.isAlpha)
    (hmark : c ∉ ['(', ')', ',', ' ']) : c ∉ e.params.text := by
  intro hc
  rcases Element.mem_params_text hc with hc | ⟨name, hname, hc⟩
  · exact hmark hc
  · exact hletter (isAlpha_of_mem_formalName (h.names name hname) hc)

/-- A mark that is not the symbol of an element does not occur in its text. -/
theorem IsFormal.not_mem_text (h : IsFormal e) {c : Char} (hletter : ¬c.isAlpha)
    (hmark : c ∉ ['(', ')', ',', ' ']) (hne : e.symbol ≠ c) : c ∉ e.text := by
  show c ∉ e.symbol :: e.params.text
  rw [List.mem_cons, not_or]
  exact ⟨Ne.symm hne, h.not_mem_params hletter hmark⟩

end

end Production

end Lindenmayer
