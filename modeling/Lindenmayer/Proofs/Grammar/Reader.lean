import Lindenmayer.Grammar.Reader
import Lindenmayer.Proofs.Production.Binding

/-!
# Grammars that have been read

A draft changes line by line, in one of three ways. What every line keeps up holds of the grammar
in the end.
-/

namespace Lindenmayer.Grammar

/-! ## Comments -/

/-- A comment begins with two slashes. -/
def slashes : List Char := ['/', '/']

theorem stripInner_cons_eq (c : Char) (rest : List Char) :
    stripInner (c :: rest) =
      if Text.isBlank c ∧ slashes <+: rest then [] else c :: stripInner rest := by
  rw [stripInner.eq_def]
  dsimp only
  split
  · rename_i hblank
    rw [if_pos ⟨hblank, List.prefix_append slashes _⟩]
  · rename_i hother
    rw [if_neg]
    rintro ⟨hblank, comment, rfl⟩
    exact hother comment hblank rfl

theorem stripComment_eq (line : List Char) :
    stripComment line = if slashes <+: line then [] else stripInner line := by
  unfold stripComment
  split
  · exact (if_pos (List.prefix_append slashes _)).symm
  · rename_i hother
    rw [if_neg]
    rintro ⟨comment, rfl⟩
    exact hother comment rfl

/-! ## Lines -/

/-- A line is read as a setting, as the axiom or as a production. -/
theorem Draft.readLine_cases {draft next : Draft} {line : List Char}
    (h : draft.readLine line = .ok next) :
    (∃ name value setting, splitSetting? line = some (name, value) ∧
      readSetting value = .ok setting ∧
      next = { draft with settings := draft.settings.set (String.ofList name) setting }) ∨
    (splitSetting? line = none ∧ draft.initial = none ∧
      ∃ word, Word.parse line = .ok word ∧ next = { draft with initial := some word }) ∨
    (splitSetting? line = none ∧ draft.initial ≠ none ∧
      ∃ p, Production.parse line = .ok p ∧ p.validate = .ok () ∧
        next = { draft with productions := draft.productions ++ [p] }) := by
  unfold Draft.readLine at h
  split at h
  · rename_i name value hsplit
    rw [bind_eq_ok] at h
    obtain ⟨setting, hsetting, hnext⟩ := h
    exact .inl ⟨name, value, setting, hsplit, hsetting, (Except.ok.inj hnext).symm⟩
  · rename_i hsplit hinitial
    rw [bind_eq_ok] at h
    obtain ⟨word, hword, hnext⟩ := h
    exact .inr (.inl ⟨hsplit, hinitial, word, hword, (Except.ok.inj hnext).symm⟩)
  · rename_i hsplit hinitial
    rw [bind_eq_ok] at h
    obtain ⟨p, hp, h⟩ := h
    rw [bind_eq_ok] at h
    obtain ⟨_, hvalid, hnext⟩ := h
    refine .inr (.inr ⟨hsplit, ?_, p, hp, hvalid, (Except.ok.inj hnext).symm⟩)
    rw [hinitial]
    exact nofun

/-- What each line keeps up, the reading of several lines keeps up. -/
theorem Draft.readLines_induction {P : Draft → Prop}
    (hstep : ∀ draft line next, P draft → draft.readLine line = .ok next → P next)
    {draft next : Draft} {number : Nat} {lines : List (List Char)} (hdraft : P draft)
    (h : draft.readLines number lines = .ok next) : P next := by
  induction lines generalizing draft number with
  | nil =>
    obtain rfl : draft = next := by simpa [readLines] using h
    exact hdraft
  | cons raw rest ih =>
    unfold readLines at h
    simp only at h
    split at h
    · exact ih hdraft h
    · split at h
      · rename_i hline
        exact ih (hstep _ _ _ hdraft hline) h
      · exact absurd h nofun

/-- A grammar that has been read is the end of a draft that began empty. -/
theorem parse_eq_ok {text : List Char} {g : Grammar} :
    parse text = .ok g ↔ ∃ draft, Draft.readLines {} 1 (Text.lines text) = .ok draft ∧
      draft.initial = some g.initial ∧ draft.productions = g.productions ∧
      draft.settings = g.settings := by
  rw [parse, bind_eq_ok]
  constructor
  · rintro ⟨draft, hdraft, hfinish⟩
    unfold Draft.finish at hfinish
    split at hfinish
    · rename_i hinitial
      obtain rfl := Except.ok.inj hfinish
      exact ⟨draft, hdraft, hinitial, rfl, rfl⟩
    · exact absurd hfinish nofun
  · rintro ⟨draft, hdraft, hinitial, hproductions, hsettings⟩
    refine ⟨draft, hdraft, ?_⟩
    rw [Draft.finish, hinitial, hproductions, hsettings]

/-- The productions of a grammar that has been read have no unbound variables. -/
theorem bound_of_parse {text : List Char} {g : Grammar} (h : parse text = .ok g) :
    ∀ p ∈ g.productions, p.Bound := by
  obtain ⟨draft, hdraft, -, hproductions, -⟩ := parse_eq_ok.1 h
  rw [← hproductions]
  refine Draft.readLines_induction (P := fun draft => ∀ p ∈ draft.productions, p.Bound)
    (fun draft line next hbound hline => ?_) (fun _ hp => absurd hp List.not_mem_nil) hdraft
  rcases Draft.readLine_cases hline with ⟨_, _, _, _, _, rfl⟩ | ⟨_, _, _, _, rfl⟩ |
    ⟨_, _, p, _, hvalid, rfl⟩
  · exact hbound
  · exact hbound
  · intro q hq
    rcases List.mem_append.1 hq with hq | hq
    · exact hbound q hq
    · obtain rfl := List.mem_singleton.1 hq
      exact Production.validate_eq_ok.1 hvalid

end Lindenmayer.Grammar
