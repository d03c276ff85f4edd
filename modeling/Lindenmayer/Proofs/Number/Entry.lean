import Lindenmayer.Number.Entry
import Lindenmayer.Proofs.Number.Literal

/-!
# Literals as entries

Numbers that people enter include the literals of formulas, with the same values.
-/

namespace Lindenmayer.Entry

open Text

theorem dropUnderscores_of_not_mem {text : List Char} (h : '_' ∉ text) (afterDigit : Bool) :
    dropUnderscores afterDigit text = some text := by
  induction text generalizing afterDigit with
  | nil => rfl
  | cons c text ih =>
    rw [List.mem_cons, not_or] at h
    have hc : (c == '_') = false := beq_false_of_ne (Ne.symm h.1)
    rw [dropUnderscores]
    · rw [hc, if_neg Bool.false_ne_true, ih h.2]
      rfl
    · exact fun d rest hd => absurd hd (Ne.symm h.1)

theorem toLower_of_not_isAlpha {c : Char} (h : ¬c.isAlpha) : c.toLower = c := by
  unfold Char.toLower
  rw [dif_neg]
  intro hupper
  apply h
  rw [Char.isAlpha, Char.isUpper, decide_eq_true hupper]
  rfl

/-- No name begins with a character that is not a letter. -/
theorem named?_cons {c : Char} (h : ¬c.isAlpha) (negative : Bool) (rest : List Char) :
    named? negative (c :: rest) = none := by
  have hne (d : Char) (hd : d.isAlpha) : c ≠ d := by
    rintro rfl
    exact h hd
  unfold named?
  simp [toLower_of_not_isAlpha h, hne 'i' (by decide), hne 'n' (by decide)]

/-- A mantissa begins with a character that is not a letter. -/
theorem exists_mantissa_cons {mantissa whole fraction : List Char}
    (h : Literal.IsMantissa mantissa whole fraction) :
    ∃ c rest, mantissa = c :: rest ∧ ¬c.isAlpha := by
  have hrun {digits : List Char} (hrun : Literal.IsRun digits) :
      ∃ c rest, digits = c :: rest ∧ ¬c.isAlpha := by
    obtain ⟨hne, hall⟩ := hrun
    cases digits with
    | nil => exact absurd rfl hne
    | cons c rest =>
      exact ⟨c, rest, rfl, fun hc => not_isDigit_of_isAlpha hc (hall c List.mem_cons_self)⟩
  cases h with
  | whole hdigits => exact hrun hdigits
  | pointed hdigits _ =>
    obtain ⟨c, rest, rfl, hc⟩ := hrun hdigits
    exact ⟨c, _, rfl, hc⟩
  | fraction _ => exact ⟨'.', _, rfl, by decide⟩

/-- A literal is an entry with the same value. -/
theorem float?_of_isLiteral {literal : List Char} {d : Decimal} (h : Literal.IsLiteral literal d) :
    float? literal = some d.toFloat := by
  have htake := Literal.take?_append h Literal.endsLiteral_nil
  rw [List.append_nil] at htake
  have hunderscore : '_' ∉ literal := by
    intro hmem
    exact absurd (h.mem hmem) (by decide)
  have hnamed : named? (Literal.takeSign literal).1 (Literal.takeSign literal).2 = none := by
    obtain ⟨hsign, hmantissa, _⟩ := h
    rw [List.append_assoc, Literal.takeSign_append hsign hmantissa.head_ne]
    obtain ⟨c, rest, rfl, hc⟩ := exists_mantissa_cons hmantissa
    exact named?_cons hc _ _
  unfold float?
  simp only [hnamed, dropUnderscores_of_not_mem hunderscore]
  show (Literal.take? literal >>= _) = _
  rw [htake]
  rfl

/-- No entry begins with a mark that is neither a sign nor a point. -/
theorem float?_of_head {c : Char} (hdigit : ¬isDigit c) (hletter : ¬c.isAlpha)
    (hmark : c ∉ ['+', '-', '.', '_']) (rest : List Char) : float? (c :: rest) = none := by
  simp only [List.mem_cons, List.not_mem_nil, or_false, not_or] at hmark
  have hsign : Literal.takeSign (c :: rest) = (false, c :: rest) :=
    @Literal.takeSign_append [] (c :: rest) false .absent (by simp [hmark])
  have htake (tail : List Char) : Literal.take? (c :: tail) = none :=
    Literal.take?_of_head hdigit (by simp [hmark]) tail
  have hdrop : dropUnderscores false (c :: rest) =
      (dropUnderscores (isDigit c) rest).map (c :: ·) := by
    rw [dropUnderscores]
    · rw [beq_false_of_ne hmark.2.2.2, if_neg Bool.false_ne_true]
    · exact fun d tail hd => absurd hd hmark.2.2.2
  unfold float?
  simp only [hsign, named?_cons hletter, hdrop]
  cases dropUnderscores (isDigit c) rest with
  | none => rfl
  | some tail =>
    show (Literal.take? (c :: tail) >>= _) = none
    rw [htake]
    rfl

/-! ## The characters of entries -/

theorem mem_of_dropUnderscores {afterDigit : Bool} {text kept : List Char}
    (h : dropUnderscores afterDigit text = some kept) {c : Char} (hc : c ∈ text) :
    c = '_' ∨ c ∈ kept := by
  fun_induction dropUnderscores afterDigit text generalizing kept with
  | case1 => exact absurd hc List.not_mem_nil
  | case2 afterDigit d rest hdigit ih =>
    obtain ⟨others, hothers, rfl⟩ := Option.map_eq_some_iff.1 h
    rcases List.mem_cons.1 hc with hc | hc
    · exact .inl hc
    · rcases List.mem_cons.1 hc with rfl | hc
      · exact .inr List.mem_cons_self
      · exact (ih hothers hc).imp_right (List.mem_cons_of_mem d)
  | case3 => exact absurd h nofun
  | case4 => exact absurd h nofun
  | case5 afterDigit d rest _ hd ih =>
    obtain ⟨others, hothers, rfl⟩ := Option.map_eq_some_iff.1 h
    rcases List.mem_cons.1 hc with rfl | hc
    · exact .inr List.mem_cons_self
    · exact (ih hothers hc).imp_right (List.mem_cons_of_mem d)

theorem isAlpha_of_toLower {c : Char} (h : c.toLower.isAlpha) : c.isAlpha := by
  by_contra hletter
  rw [toLower_of_not_isAlpha hletter] at h
  exact hletter h

/-- A value with a name is written in letters. -/
theorem isAlpha_of_named? {negative : Bool} {text : List Char} {x : Float}
    (h : named? negative text = some x) {c : Char} (hc : c ∈ text) : c.isAlpha := by
  have hall : (text.map Char.toLower).all Char.isAlpha = true := by
    unfold named? at h
    simp only at h
    split at h
    · rename_i hname
      rw [Bool.or_eq_true, decide_eq_true_eq, decide_eq_true_eq] at hname
      rcases hname with hname | hname <;> (rw [hname]; rfl)
    · split at h
      · rename_i hname
        rw [hname]
        rfl
      · exact absurd h nofun
  exact isAlpha_of_toLower (List.all_eq_true.1 hall _ (List.mem_map_of_mem hc))

/-- The characters of entries. -/
theorem mem_of_float? {text : List Char} {x : Float} (h : float? text = some x) {c : Char}
    (hc : c ∈ text) : isDigit c ∨ c.isAlpha ∨ c ∈ ['+', '-', '.', '_'] := by
  have hsigns {sign : List Char} {negative : Bool} (hsign : Literal.IsSign sign negative)
      (hc : c ∈ sign) : c ∈ ['+', '-', '.', '_'] := by
    cases hsign <;> simp_all
  obtain ⟨sign, hsign, htext⟩ := Literal.isSign_takeSign text
  unfold float? at h
  simp only at h
  split at h
  · rename_i hnamed
    rw [htext] at hc
    rcases List.mem_append.1 hc with hc | hc
    · exact .inr (.inr (hsigns hsign hc))
    · exact .inr (.inl (isAlpha_of_named? hnamed hc))
  · simp only [Option.bind_eq_bind, Option.bind_eq_some_iff] at h
    obtain ⟨kept, hkept, ⟨d, rest⟩, htake, hrest⟩ := h
    obtain ⟨literal, hliteral, rfl⟩ := Literal.isLiteral_of_take? htake
    have hnil : rest = [] := by
      simp only at hrest
      split at hrest
      · rwa [← List.isEmpty_iff]
      · exact absurd hrest nofun
    rw [hnil, List.append_nil] at hkept
    rcases mem_of_dropUnderscores hkept hc with rfl | hc
    · exact .inr (.inr (by decide))
    · rcases hliteral.mem hc with hdigit | hmark
      · exact .inl hdigit
      · have hall : ∀ c ∈ ['+', '-', '.', 'e', 'E'],
            c.isAlpha = true ∨ c ∈ ['+', '-', '.', '_'] :=
          forall_mem_of_all (by decide)
        exact .inr (hall c hmark)

end Lindenmayer.Entry
