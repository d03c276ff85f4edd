import Lindenmayer.Proofs.Grammar.Reader
import Lindenmayer.Proofs.Production.Printer
import Lindenmayer.Proofs.Text.Lines

/-!
# Lines that are read as they stand

The reader of a grammar cuts its text into lines, takes the comments off, and trims what is left.
Written elements and productions come through: blanks stand only inside groups and before a
successor, and no slash follows one.
-/

namespace Lindenmayer.Grammar

open Element (IsSolid IsWritable)
open Production (IsFormal Parts)
open Text (isBlank isLineBreak lines trim)

/-- What does not begin a comment is kept. -/
theorem stripInner_cons (c : Char) (rest : List Char) :
    (isBlank c → ∀ d ∈ rest.head?, d ≠ '/') → stripInner (c :: rest) = c :: stripInner rest := by
  intro h
  rw [stripInner_cons_eq, if_neg]
  rintro ⟨hblank, comment, rfl⟩
  exact h hblank '/' rfl rfl

/-- Texts that may stand in a line: they have no line break, and no comment begins in them or behind
them. -/
structure IsInline (text : List Char) : Prop where
  no_break : ∀ c ∈ text, ¬isLineBreak c
  stripInner_append : ∀ rest, stripInner (text ++ rest) = text ++ stripInner rest

@[simp]
theorem isInline_nil : IsInline [] :=
  ⟨nofun, fun _ => rfl⟩

/-- Such texts may stand one behind the other. -/
theorem IsInline.append {left right : List Char} (hleft : IsInline left)
    (hright : IsInline right) : IsInline (left ++ right) := by
  refine ⟨fun c hc => ?_, fun rest => ?_⟩
  · exact (List.mem_append.1 hc).elim (hleft.no_break c) (hright.no_break c)
  · rw [List.append_assoc, hleft.stripInner_append, hright.stripInner_append, List.append_assoc]

theorem isInline_singleton {c : Char} (h : ¬isBlank c) : IsInline [c] := by
  have hbreak : ¬isLineBreak c := fun hc => h (Text.isBlank_of_isLineBreak hc)
  refine ⟨List.forall_mem_singleton.2 hbreak, fun rest => ?_⟩
  exact stripInner_cons c rest fun hblank => absurd hblank h

/-- A character may stand in front of such a text. -/
theorem IsInline.cons {c : Char} {text : List Char} (h : IsInline text) (hc : ¬isBlank c) :
    IsInline (c :: text) :=
  (isInline_singleton hc).append h

/-- A comment begins behind a blank, so that there is none without blanks. -/
theorem isInline_of_no_blanks {text : List Char} (h : ∀ c ∈ text, ¬isBlank c) : IsInline text := by
  induction text with
  | nil => exact isInline_nil
  | cons c text ih =>
    exact (ih fun d hd => h d (List.mem_cons_of_mem c hd)).cons (h c List.mem_cons_self)

/-- A space may stand before any character but a slash. -/
theorem IsInline.space_cons {text : List Char} (h : IsInline text) (hne : text ≠ [])
    (hslash : ∀ c ∈ text.head?, c ≠ '/') : IsInline (' ' :: text) := by
  cases text with
  | nil => exact absurd rfl hne
  | cons c text =>
    refine ⟨List.forall_mem_cons.2 ⟨by decide, h.no_break⟩, fun rest => ?_⟩
    -- the space is kept because no slash follows it
    have hkept := h.stripInner_append rest
    rw [List.cons_append] at hkept
    have hspace : stripInner (' ' :: c :: (text ++ rest)) =
        ' ' :: stripInner (c :: (text ++ rest)) := stripInner_cons ' ' _ fun _ => hslash
    rw [List.cons_append, List.cons_append, hspace, hkept]
    rfl

/-! ## Elements -/

theorem isInline_intercalate {texts : List (List Char)} (h : ∀ text ∈ texts, IsSolid text) :
    IsInline ([',', ' '].intercalate texts) := by
  induction texts with
  | nil => exact isInline_nil
  | cons text texts ih =>
    have hsolid := h text List.mem_cons_self
    have hfirst : IsInline text := isInline_of_no_blanks hsolid.not_isBlank
    cases texts with
    | nil =>
      rw [List.intercalate_singleton]
      exact hfirst
    | cons next texts =>
      have hnext := h next (List.mem_cons_of_mem _ List.mem_cons_self)
      have hrest := ih fun t ht => h t (List.mem_cons_of_mem _ ht)
      obtain ⟨c, tail, rfl⟩ := List.exists_cons_of_ne_nil hnext.ne_nil
      have hhead := Element.head?_intercalate [',', ' '] c tail texts
      -- the space behind the comma stands before a parameter
      have hspace : IsInline (' ' :: [',', ' '].intercalate ((c :: tail) :: texts)) := by
        refine hrest.space_cons (fun hnil => ?_) fun d hd => ?_
        · rw [hnil] at hhead
          exact absurd hhead nofun
        · rw [hhead] at hd
          exact hnext.no_slash d hd
      rw [List.intercalate_cons_cons, List.append_assoc]
      exact hfirst.append (hspace.cons (by decide))

theorem isInline_text {α : Type} [Written α] {e : Element α} (h : e.IsWritable) :
    IsInline e.text := by
  have hparams : IsInline e.params.text := by
    unfold Params.text
    split
    · exact isInline_nil
    · have hgroup := isInline_intercalate (List.forall_mem_map.2 h.params)
      exact (hgroup.append (isInline_singleton (by decide : ¬isBlank ')'))).cons (by decide)
  exact hparams.cons h.symbol.1

/-- Written elements hold no comment. -/
theorem isInline_elementsText {α : Type} [Written α] {elements : List (Element α)}
    (h : ∀ e ∈ elements, e.IsWritable) : IsInline (elementsText elements) := by
  induction elements with
  | nil => exact isInline_nil
  | cons e elements ih =>
    exact (isInline_text (h e List.mem_cons_self)).append
      (ih fun f hf => h f (List.mem_cons_of_mem e hf))

/-- No text of elements ends with a blank. -/
theorem not_isBlank_getLast_elementsText {α : Type} [Written α] {elements : List (Element α)}
    (h : ∀ e ∈ elements, e.IsWritable) : ∀ c ∈ (elementsText elements).getLast?, ¬isBlank c := by
  induction elements with
  | nil => exact nofun
  | cons e elements ih =>
    intro c hc
    rw [Element.elementsText_cons, List.getLast?_append, Option.mem_def,
      Option.or_eq_some_iff] at hc
    rcases hc with hc | ⟨-, hc⟩
    · exact ih (fun f hf => h f (List.mem_cons_of_mem e hf)) c hc
    · unfold Element.text Params.text at hc
      split at hc
      · obtain rfl : e.symbol = c := Option.some.inj hc
        exact (h e List.mem_cons_self).symbol.1
      · rw [← List.cons_append, List.getLast?_append] at hc
        obtain rfl : ')' = c := Option.some.inj hc
        decide

/-! ## Productions -/

/-- The marks that may follow an element in the text of a production. -/
def headMarks : List Char := ['(', '<', '>', ':', '~', '=']

/-- A text that begins with one of the marks still does so behind another that does, or behind
nothing. -/
theorem exists_headMark_append {left right : List Char}
    (hleft : ∀ c ∈ left.head?, c ∈ headMarks)
    (hright : ∃ c rest, right = c :: rest ∧ c ∈ headMarks) :
    ∃ c rest, left ++ right = c :: rest ∧ c ∈ headMarks := by
  cases left with
  | nil => exact hright
  | cons c left => exact ⟨c, left ++ right, rfl, hleft c rfl⟩

theorem headMark_of_params (params : Params String) :
    ∀ c ∈ params.text.head?, c ∈ headMarks := by
  unfold Params.text
  split
  · exact nofun
  · intro c hc
    obtain rfl : '(' = c := Option.some.inj hc
    decide

theorem headMark_of_marked {mark : Char} (hmark : mark ∈ headMarks) (part : Option (List Char)) :
    ∀ c ∈ (Production.marked mark part).head?, c ∈ headMarks := by
  intro c hc
  rwa [Production.head?_marked c hc]

/-- The second character of a production is a mark. -/
theorem exists_text_cons (p : Parts) :
    ∃ e c rest, p.text = e.symbol :: c :: rest ∧ e ∈ p.head ∧ c ∈ headMarks := by
  -- at the latest the separator follows
  have hbody : ∃ c rest, '=' :: p.sections.body = c :: rest ∧ c ∈ headMarks :=
    ⟨_, _, rfl, by decide⟩
  have hbehind : ∃ c rest, Production.marked ':' p.sections.condition ++
      (Production.marked '~' p.sections.probability ++ '=' :: p.sections.body) = c :: rest ∧
        c ∈ headMarks :=
    exists_headMark_append (headMark_of_marked (by decide) _)
      (exists_headMark_append (headMark_of_marked (by decide) _) hbody)
  have htext : p.text = p.headText ++ (Production.marked ':' p.sections.condition ++
      (Production.marked '~' p.sections.probability ++ '=' :: p.sections.body)) := by
    rw [Parts.text_eq, Production.Sections.text, Production.Sections.head, List.append_assoc,
      List.append_assoc]
    rfl
  rw [htext, Parts.headText]
  generalize Production.marked ':' p.sections.condition ++ _ = behind at hbehind
  cases hp : p.left with
  | some e =>
    obtain ⟨c, rest, htext, hc⟩ := exists_headMark_append (headMark_of_params e.params)
      ⟨'<', p.predecessor.text ++ Production.marked '>' (p.right.map Element.text) ++ behind, rfl,
        by decide⟩
    refine ⟨e, c, rest, ?_, Parts.left_mem_head hp, hc⟩
    rw [← htext]
    simp [Production.leftText, Element.text]
  | none =>
    have hright : '>' ∈ headMarks := by decide
    obtain ⟨c, rest, htext, hc⟩ := exists_headMark_append
      (headMark_of_params p.predecessor.params)
      (exists_headMark_append (headMark_of_marked hright (p.right.map Element.text)) hbehind)
    refine ⟨p.predecessor, c, rest, ?_, Parts.predecessor_mem_head, hc⟩
    rw [← htext]
    simp [Production.leftText, Element.text]

section
variable {p : Production}

/-- The text of a head holds no comment. -/
theorem isInline_headText (h : p.IsReadable) : IsInline p.headText :=
  Parts.headText_induction (fun _ _ => IsInline.append) isInline_nil
    (fun _ he => isInline_text (Production.isFormal_of_mem_head h he).isWritable)
    (isInline_singleton (by decide)) (isInline_singleton (by decide))

/-- Nor does the text of a successor. -/
theorem isInline_successorText (h : p.IsReadable) :
    IsInline (p.gap ++ elementsText p.successor) := by
  have hsuccessor := isInline_elementsText fun e he =>
    Production.isWritable_of_mem_successor h he
  unfold Parts.gap
  split
  · rename_i hgap
    rw [Bool.and_eq_true, beq_iff_eq] at hgap
    refine hsuccessor.space_cons (fun hnil => ?_) fun c hc => ?_
    · rw [hnil] at hgap
      exact absurd hgap.2 nofun
    · rw [hgap.2] at hc
      obtain rfl : '=' = c := Option.some.inj hc
      decide
  · exact hsuccessor

/-- The text of a production that has been read may stand in a line. -/
theorem isInline_productionText (h : p.IsReadable) : IsInline p.text := by
  have hcondition : IsInline (Production.marked ':' p.sections.condition) := by
    unfold Parts.sections
    cases hp : p.condition with
    | none => exact isInline_nil
    | some e =>
      exact (isInline_of_no_blanks (h.condition e hp).isSolid.not_isBlank).cons (by decide)
  have hprobability : IsInline (Production.marked '~' p.sections.probability) := by
    unfold Parts.sections
    split
    · exact isInline_nil
    · obtain ⟨d, hliteral, -⟩ := Production.exists_isLiteral_probability p
      have hblank : ∀ c ∈ shortText p.probability, ¬isBlank c := fun c hc =>
        (Expr.isFormulaChar_of_mem_literal hliteral hc).not_isBlank
      exact (isInline_of_no_blanks hblank).cons (by decide)
  rw [Parts.text_eq]
  exact (((isInline_headText h).append hcondition).append hprobability).append
    ((isInline_successorText h).cons (by decide))

theorem not_isBlank_getLast_productionText (h : p.IsReadable) :
    ∀ c ∈ p.text.getLast?, ¬isBlank c := by
  have hlast := not_isBlank_getLast_elementsText fun e he =>
    Production.isWritable_of_mem_successor h he
  intro c hc
  rw [Parts.text_eq, Production.Sections.text, Parts.sections, List.getLast?_append] at hc
  cases hbody : elementsText p.successor with
  | nil =>
    -- without a successor the separator stands last
    have hgap : p.gap = [] := by
      unfold Parts.gap
      rw [hbody]
      simp
    rw [hgap, hbody] at hc
    obtain rfl : '=' = c := Option.some.inj hc
    decide
  | cons d body =>
    rw [hbody] at hlast
    rw [hbody, List.getLast?_cons, List.getLast?_append, List.getLast?_cons] at hc
    exact hlast c (by rw [List.getLast?_cons]; exact hc)

end

/-! ## Whole lines -/

/-- A line that is read as it stands: it is not cut, has no comment, and is trimmed already. -/
structure IsWhole (line : List Char) : Prop where
  no_break : ∀ c ∈ line, ¬isLineBreak c
  ne_nil : line ≠ []
  stripComment_eq : stripComment line = line
  trim_eq : trim line = line

/-- Nothing is stripped from such a text. -/
theorem IsInline.stripInner_eq {line : List Char} (h : IsInline line) : stripInner line = line := by
  have hkept : stripInner (line ++ []) = line ++ [] := h.stripInner_append []
  rwa [List.append_nil] at hkept

/-- A text without blanks at its ends is a whole line, unless it is a comment. -/
theorem IsInline.isWhole {line : List Char} (h : IsInline line) (hne : line ≠ [])
    (hfirst : ∀ c ∈ line.head?, ¬isBlank c) (hlast : ∀ c ∈ line.getLast?, ¬isBlank c)
    (hcomment : ∀ rest, line ≠ '/' :: '/' :: rest) : IsWhole line where
  no_break := h.no_break
  ne_nil := hne
  stripComment_eq := by
    unfold stripComment
    split
    · exact absurd rfl (hcomment _)
    · exact h.stripInner_eq
  trim_eq := Text.trim_eq_self hfirst hlast

/-- A production that has been read is written as a whole line. -/
theorem isWhole_productionText {p : Production} (h : p.IsReadable) : IsWhole p.text := by
  obtain ⟨e, c, rest, htext, he, hc⟩ := exists_text_cons p.toParts
  refine (isInline_productionText h).isWhole ?_ ?_ (not_isBlank_getLast_productionText h) ?_
  · rw [htext]
    exact List.cons_ne_nil _ _
  · rw [htext]
    intro d hd
    obtain rfl : e.symbol = d := Option.some.inj hd
    exact (Production.isFormal_of_mem_head h he).symbol.1
  · rintro rest' heq
    rw [htext] at heq
    obtain rfl := (List.cons.inj (List.cons.inj heq).2).1
    exact absurd hc (by decide)

/-- No production is written as a setting. -/
theorem splitSetting?_productionText (p : Production) : splitSetting? p.text = none := by
  obtain ⟨e, c, rest, htext, -, hc⟩ := exists_text_cons p.toParts
  have hall : ∀ c ∈ headMarks, isBlank c = false ∧ (c.isAlpha || c == '_') = false :=
    Text.forall_mem_of_all (by decide)
  -- the name of a setting would have to begin with the mark
  obtain ⟨hblank, hname⟩ := hall c hc
  have hdrop : Text.dropBlanks (c :: rest) = c :: rest :=
    Text.dropBlanks_cons_of_not_blank (Bool.eq_false_iff.1 hblank) rest
  rw [htext]
  unfold splitSetting?
  split
  · rename_i heq
    obtain rfl := (List.cons.inj heq).2
    simp only [hdrop, hname]
    rfl
  · rfl

/-! ## Reading lines -/

variable {draft next : Draft} {number : Nat} {line : List Char} {rest : List (List Char)}

/-- A whole line is read by itself, and the others after it. -/
theorem Draft.readLines_whole (h : IsWhole line) :
    draft.readLines number (line :: rest) = .ok next ↔
      ∃ read, draft.readLine line = .ok read ∧ read.readLines (number + 1) rest = .ok next := by
  have hempty : line.isEmpty = false := by simpa using h.ne_nil
  rw [readLines]
  simp only [h.stripComment_eq, h.trim_eq, hempty]
  rw [if_neg Bool.false_ne_true]
  cases hline : draft.readLine line with
  | ok read => simp
  | error e => simp

/-- Of a comment nothing is left. -/
theorem Draft.readLines_comment (text : List Char) :
    draft.readLines number (('/' :: '/' :: text) :: rest) = draft.readLines (number + 1) rest := by
  rw [readLines]
  exact if_pos rfl

/-- How many axioms and productions a draft has. -/
def Draft.size (draft : Draft) : Nat :=
  draft.initial.toList.length + draft.productions.length

/-- A line adds at most one entry. -/
theorem Draft.size_readLine (h : draft.readLine line = .ok next) :
    next.size ≤ draft.size + 1 := by
  rcases readLine_cases h with ⟨_, _, _, _, _, rfl⟩ | ⟨_, hinitial, _, _, rfl⟩ |
    ⟨_, _, _, _, _, rfl⟩
  · exact Nat.le_succ _
  · unfold size
    rw [hinitial]
    simp
    omega
  · unfold size
    simp
    omega

/-- No line adds more than an axiom or a production. -/
theorem Draft.size_readLines (h : draft.readLines number rest = .ok next) :
    next.size ≤ draft.size + rest.length := by
  induction rest generalizing draft number with
  | nil =>
    obtain rfl : draft = next := by simpa [readLines] using h
    exact Nat.le_refl _
  | cons raw rest ih =>
    rw [List.length_cons]
    unfold readLines at h
    simp only at h
    split at h
    · have := ih h
      omega
    · split at h
      · rename_i hline
        have hfirst := size_readLine hline
        have hothers := ih h
        omega
      · cases h

end Lindenmayer.Grammar
