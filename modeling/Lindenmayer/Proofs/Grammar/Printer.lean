import Lindenmayer.Proofs.Grammar.Setting

/-!
# Reading back written grammars

The text of a grammar is read line by line: first the settings, then the axiom, then the
productions. Each line is read back as what it was written for, unless a NaN has no literal, the
axiom looks like a comment or a setting, or a production has a loose tilde.
-/

namespace Lindenmayer.Grammar

open Production (Parts)
open Text (isLineBreak)

/-! ## What reading leaves behind -/

/-- A draft whose parts can be written. -/
structure Draft.IsReadable (draft : Draft) : Prop where
  initial : ∀ word, draft.initial = some word → word.IsReadable
  productions : ∀ p ∈ draft.productions, p.IsReadable
  settings : draft.settings.IsReadable

theorem Draft.IsReadable.readLine {draft next : Draft} {line : List Char} (h : draft.IsReadable)
    (hline : draft.readLine line = .ok next) : next.IsReadable := by
  rcases readLine_cases hline with ⟨name, value, setting, hsplit, -, rfl⟩ |
    ⟨-, -, word, hword, rfl⟩ | ⟨-, -, p, hp, -, rfl⟩
  · exact ⟨h.initial, h.productions, h.settings.set (isSettingName_of_splitSetting? hsplit) setting⟩
  · refine ⟨fun other hother => ?_, h.productions, h.settings⟩
    obtain rfl := Option.some.inj hother
    exact Word.isReadable_of_parse hword
  · refine ⟨h.initial, fun q hq => ?_, h.settings⟩
    rcases List.mem_append.1 hq with hq | hq
    · exact h.productions q hq
    · rw [List.mem_singleton.1 hq]
      exact Production.isReadable_of_parse hp

/-- A grammar as the draft that it was finished from. -/
def draft (g : Grammar) : Draft where
  initial := some g.initial
  productions := g.productions
  settings := g.settings

theorem parse_eq_ok_iff_draft {text : List Char} {g : Grammar} :
    parse text = .ok g ↔ Draft.readLines {} 1 (Text.lines text) = .ok g.draft := by
  rw [parse_eq_ok]
  constructor
  · rintro ⟨⟨initial, productions, settings⟩, hdraft, rfl, rfl, rfl⟩
    exact hdraft
  · intro hdraft
    exact ⟨g.draft, hdraft, rfl, rfl, rfl⟩

theorem isReadable_of_parse {text : List Char} {g : Grammar} (h : parse text = .ok g) :
    g.draft.IsReadable := by
  have hempty : Draft.IsReadable {} := ⟨nofun, nofun, ⟨nofun, List.nodup_nil⟩⟩
  exact Draft.readLines_induction (fun _ _ _ hdraft hline => hdraft.readLine hline) hempty
    (parse_eq_ok_iff_draft.1 h)

/-! ## Productions -/

section
variable {draft next : Draft} {number : Nat} {word : Word} {productions : List Production}

/-- Once there is an axiom, the text of a production is read as the production, unless it has a
loose tilde. -/
theorem Draft.readLine_productionText {p : Production} (h : p.IsReadable) (hbound : p.Bound)
    (hinitial : draft.initial = some word) :
    draft.readLine p.text = .ok next ↔
      ¬p.HasLooseTilde ∧ next = { draft with productions := draft.productions ++ [p] } := by
  unfold readLine
  rw [splitSetting?_productionText, hinitial]
  by_cases hloose : p.HasLooseTilde
  · obtain ⟨text, herror⟩ := Production.parse_text_of_hasLooseTilde h hloose
    rw [herror]
    exact ⟨nofun, fun hread => absurd hloose hread.1⟩
  · have hvalid := Production.validate_eq_ok.2 hbound
    simp only [Production.parse_text_of_isReadable h hloose, bind_eq_ok]
    constructor
    · rintro ⟨q, hq, -, -, hnext⟩
      obtain rfl := Except.ok.inj hq
      exact ⟨hloose, (Except.ok.inj hnext).symm⟩
    · rintro ⟨-, rfl⟩
      exact ⟨p, rfl, (), hvalid, rfl⟩

theorem Draft.readLines_productions
    (h : ∀ p ∈ productions, p.IsReadable ∧ p.Bound) (hinitial : draft.initial = some word) :
    draft.readLines number (productions.map (·.text)) = .ok next ↔
      (∀ p ∈ productions, ¬p.HasLooseTilde) ∧
        next = { draft with productions := draft.productions ++ productions } := by
  induction productions generalizing draft number with
  | nil =>
    rw [List.append_nil]
    constructor
    · intro hread
      exact ⟨nofun, (Except.ok.inj hread).symm⟩
    · rintro ⟨-, rfl⟩
      rfl
  | cons p productions ih =>
    obtain ⟨⟨hp, hbound⟩, hothers⟩ := List.forall_mem_cons.1 h
    have happend : draft.productions ++ p :: productions =
        draft.productions ++ [p] ++ productions := by
      rw [List.append_assoc, List.singleton_append]
    have hrest := @ih { draft with productions := draft.productions ++ [p] } (number + 1)
      hothers hinitial
    rw [List.map_cons, readLines_whole (isWhole_productionText hp), happend]
    constructor
    · rintro ⟨read, hread, hnext⟩
      obtain ⟨hloose, rfl⟩ := (readLine_productionText hp hbound hinitial).1 hread
      obtain ⟨hall, rfl⟩ := hrest.1 hnext
      exact ⟨List.forall_mem_cons.2 ⟨hloose, hall⟩, rfl⟩
    · rintro ⟨hloose, rfl⟩
      obtain ⟨hfirst, hall⟩ := List.forall_mem_cons.1 hloose
      exact ⟨_, (readLine_productionText hp hbound hinitial).2 ⟨hfirst, rfl⟩,
        hrest.2 ⟨hall, rfl⟩⟩

/-! ## The axiom -/

/-- If the line of the axiom is read as something else, an axiom or a production is missing in the
end. -/
theorem Draft.size_le_of_lost (hsize : draft.size = 0) (hword : word.IsReadable)
    (hlost : (∃ rest, word.text = '/' :: '/' :: rest) ∨ splitSetting? word.text ≠ none)
    (h : draft.readLines number (word.text :: productions.map (·.text)) = .ok next) :
    next.size ≤ productions.length := by
  by_cases hcomment : ∃ rest, word.text = '/' :: '/' :: rest
  · obtain ⟨rest, htext⟩ := hcomment
    rw [htext, readLines_comment] at h
    have hothers := size_readLines h
    rw [List.length_map] at hothers
    omega
  · rw [readLines_whole (hword.isWhole_text fun rest htext => hcomment ⟨rest, htext⟩)] at h
    obtain ⟨read, hread, h⟩ := h
    have hothers := size_readLines h
    rw [List.length_map] at hothers
    -- the line is no axiom and no production, so it can only be a setting
    have hsame : read.size = draft.size := by
      rcases readLine_cases hread with ⟨_, _, _, _, _, rfl⟩ | ⟨hnone, _⟩ | ⟨hnone, _⟩
      · rfl
      · exact absurd hnone (hlost.resolve_left hcomment)
      · exact absurd hnone (hlost.resolve_left hcomment)
    omega

/-- A word that is written as the first line after the settings is read back as the axiom. -/
theorem Draft.readLine_wordText (hword : word.IsReadable) (hinitial : draft.initial = none)
    (hsetting : splitSetting? word.text = none) :
    draft.readLine word.text = .ok next ↔
      word.IsNumeric ∧ next = { draft with initial := some word } := by
  unfold readLine
  rw [hsetting, hinitial]
  simp only [bind_eq_ok, hword.parse_text_eq_ok]
  constructor
  · rintro ⟨_, ⟨hnumeric, rfl⟩, hnext⟩
    exact ⟨hnumeric, (Except.ok.inj hnext).symm⟩
  · rintro ⟨hnumeric, rfl⟩
    exact ⟨word, ⟨hnumeric, rfl⟩, rfl⟩

end

/-! ## Grammars -/

/-- A grammar that its text stands for: none of its numbers is NaN, its axiom looks neither like a
comment nor like a setting, and no production has a loose tilde. -/
structure IsFaithful (g : Grammar) : Prop where
  settings : g.settings.IsNumeric
  initial : g.initial.IsNumeric
  no_comment : ∀ rest, g.initial.text ≠ '/' :: '/' :: rest
  no_setting : splitSetting? g.initial.text = none
  productions : ∀ p ∈ g.productions, ¬p.HasLooseTilde

theorem lines_text {g : Grammar} (h : g.draft.IsReadable) : Text.lines g.text = g.lines := by
  refine Text.lines_flatMap fun line hline => ?_
  rcases List.mem_append.1 hline with hline | hline
  · obtain ⟨⟨name, value⟩, hentry, rfl⟩ := List.mem_map.1 hline
    exact (isWhole_settingLine (h.settings.names _ hentry) value).no_break
  · rcases List.mem_cons.1 hline with rfl | hline
    · exact (isInline_elementsText fun e he => (h.initial _ rfl).isWritable he).no_break
    · obtain ⟨p, hp, rfl⟩ := List.mem_map.1 hline
      exact (isInline_productionText (h.productions p hp)).no_break

/-- A grammar whose parts can be written is read from its text if that stands for it. -/
theorem parse_text_of_isFaithful {g : Grammar} (hreadable : g.draft.IsReadable)
    (hbound : ∀ p ∈ g.productions, p.Bound) (hfaithful : g.IsFaithful) : parse g.text = .ok g := by
  have hword := hreadable.initial _ rfl
  have hproductions : ∀ p ∈ g.productions, p.IsReadable ∧ p.Bound := fun p hp =>
    ⟨hreadable.productions p hp, hbound p hp⟩
  have hinitial : Draft.readLine { settings := g.settings } g.initial.text =
      .ok { initial := some g.initial, settings := g.settings } :=
    (Draft.readLine_wordText hword rfl hfaithful.no_setting).2 ⟨hfaithful.initial, rfl⟩
  have hsettings := @Draft.readLines_settings {} g.draft 1 g.settings
    (g.initial.text :: g.productions.map (·.text)) hreadable.settings.names
    hreadable.settings.nodup
  rw [parse_eq_ok_iff_draft, lines_text hreadable, lines, hsettings]
  refine ⟨hfaithful.settings,
    (Draft.readLines_whole (hword.isWhole_text hfaithful.no_comment)).2 ⟨_, hinitial, ?_⟩⟩
  exact (Draft.readLines_productions hproductions rfl).2 ⟨hfaithful.productions, rfl⟩

/-- A grammar that has been read is read back from its text exactly if its text stands for it. -/
theorem parse_text_eq_ok_iff {text : List Char} {g : Grammar} (h : parse text = .ok g) :
    parse g.text = .ok g ↔ g.IsFaithful := by
  have hreadable := isReadable_of_parse h
  have hword := hreadable.initial _ rfl
  have hproductions : ∀ p ∈ g.productions, p.IsReadable ∧ p.Bound := fun p hp =>
    ⟨hreadable.productions p hp, bound_of_parse h p hp⟩
  have hsettings := @Draft.readLines_settings {} g.draft 1 g.settings
    (g.initial.text :: g.productions.map (·.text)) hreadable.settings.names
    hreadable.settings.nodup
  have hsize : g.draft.size = g.productions.length + 1 := Nat.add_comm 1 _
  rw [parse_eq_ok_iff_draft, lines_text hreadable, lines, hsettings]
  constructor
  · rintro ⟨hnumeric, hread⟩
    -- nothing is left over for a line that is lost
    have hkept : ¬((∃ rest, g.initial.text = '/' :: '/' :: rest) ∨
        splitSetting? g.initial.text ≠ none) := by
      intro hlost
      have := Draft.size_le_of_lost rfl hword hlost hread
      omega
    rw [not_or, not_exists, Decidable.not_not] at hkept
    obtain ⟨hcomment, hsetting⟩ := hkept
    obtain ⟨read, hinitial, hread⟩ :=
      (Draft.readLines_whole (hword.isWhole_text hcomment)).1 hread
    obtain ⟨hword, rfl⟩ := (Draft.readLine_wordText hword rfl hsetting).1 hinitial
    obtain ⟨hloose, -⟩ := (Draft.readLines_productions hproductions rfl).1 hread
    exact ⟨hnumeric, hword, hcomment, hsetting, hloose⟩
  · intro hfaithful
    refine ⟨hfaithful.settings, (Draft.readLines_whole
      (hword.isWhole_text hfaithful.no_comment)).2 ⟨_, (Draft.readLine_wordText hword rfl
        hfaithful.no_setting).2 ⟨hfaithful.initial, rfl⟩, ?_⟩⟩
    exact (Draft.readLines_productions hproductions rfl).2 ⟨hfaithful.productions, rfl⟩

/-- The axiom `B` with the production `A < B ~ 0.5 = AB`. -/
def induced : Grammar where
  initial := [.plain 'B']
  productions := [{
    predecessor := .plain 'B'
    left := some (.plain 'A')
    probability := 0.5
    successor := [.plain 'A', .plain 'B']
    wellFormed := ⟨by decide, by decide, by decide, by decide⟩ }]

/-- A stochastic production with a left context comes through. -/
theorem parse_text_eq_ok_iff_context :
    ∃ g, parse "B\nA<B ~ .5 = AB\n".toList = .ok g ∧ g.IsFaithful := by
  have hread : parse "B\nA<B ~ .5 = AB\n".toList = .ok induced :=
    toOption_eq_some.1 (by decide +kernel)
  have hback : parse induced.text = .ok induced := toOption_eq_some.1 (by decide +kernel)
  exact ⟨induced, hread, (parse_text_eq_ok_iff hread).1 hback⟩

/-- The axiom `A` with the production that replaces a tilde. -/
def unreadable : Grammar where
  initial := [.plain 'A']
  productions := [Production.tilde]

/-- A production that replaces a tilde with probability 1 is written as a line that is rejected. -/
theorem parse_text_ne_ok_of_tilde :
    ∃ g, parse "A\n~~1=A\n".toList = .ok g ∧ ∀ other, parse g.text ≠ .ok other := by
  have hread : parse "A\n~~1=A\n".toList = .ok unreadable :=
    toOption_eq_some.1 (by decide +kernel)
  have hlost : (parse unreadable.text).toOption = none := by decide +kernel
  refine ⟨unreadable, hread, fun other hother => ?_⟩
  rw [toOption_eq_some.2 hother] at hlost
  exact absurd hlost nofun

end Lindenmayer.Grammar
