import Lindenmayer.Proofs.Element.Scanner
import Lindenmayer.Proofs.Text.Layout

/-!
# The layout of elements

Blanks are neither parentheses nor separators, so a text that is spread by blanks has its groups and
its separators in the same places. Outside groups it may be spread between any two characters,
inside them where the parameters may be spread: its elements stay the same.
-/

namespace Lindenmayer.Element

open Text

/-! ## Parentheses and separators -/

/-- A blank is no mark. -/
theorem ne_of_isBlank {c mark : Char} (hmark : ¬isBlank mark) (hc : isBlank c) : c ≠ mark := by
  rintro rfl
  exact hmark hc

/-- A blank does not count. -/
theorem solid_blank {c : Char} (h : isBlank c) (rest : List Char) :
    solid (c :: rest) = solid rest :=
  List.filter_cons_of_neg (by simp [h])

/-- Every other character counts. -/
theorem solid_other {c : Char} (h : ¬isBlank c) (rest : List Char) :
    solid (c :: rest) = c :: solid rest :=
  List.filter_cons_of_pos (by simp [h])

/-- Blanks do not matter for parentheses. -/
@[simp]
theorem closes_solid {d : Nat} {text : List Char} : Closes d (solid text) ↔ Closes d text := by
  induction text generalizing d with
  | nil => exact Iff.rfl
  | cons c rest ih =>
    by_cases hblank : isBlank c
    · rw [solid_blank hblank, ih, closes_other (ne_of_isBlank (by decide) hblank)
        (ne_of_isBlank (by decide) hblank)]
    · rw [solid_other hblank]
      by_cases hopen : c = '('
      · rw [hopen, closes_open, closes_open, ih]
      · by_cases hclose : c = ')'
        · simp only [hclose, closes_close, ih]
        · rw [closes_other hopen hclose, closes_other hopen hclose, ih]

theorem nest_blank {c : Char} (h : isBlank c) (depth : Int) : nest depth c = depth :=
  nest_other depth (ne_of_isBlank (by decide) h) (ne_of_isBlank (by decide) h)

/-- Nor do they change the depth. -/
@[simp]
theorem depthAfter_solid (depth : Int) (text : List Char) :
    depthAfter depth (solid text) = depthAfter depth text := by
  induction text generalizing depth with
  | nil => rfl
  | cons c rest ih =>
    by_cases hblank : isBlank c
    · rw [solid_blank hblank, ih, depthAfter_cons, nest_blank hblank]
    · rw [solid_other hblank, depthAfter_cons, depthAfter_cons, ih]

/-- Nor do they hide a separator. -/
theorem free_solid {separator : Char} (hseparator : ¬isBlank separator) {depth : Int}
    {text : List Char} : Free separator depth (solid text) ↔ Free separator depth text := by
  induction text generalizing depth with
  | nil => exact Iff.rfl
  | cons c rest ih =>
    by_cases hblank : isBlank c
    · have hne : ¬(c = separator ∧ depth = 0) := fun h => ne_of_isBlank hseparator hblank h.1
      rw [solid_blank hblank, ih, Free, nest_blank hblank]
      exact (and_iff_right hne).symm
    · rw [solid_other hblank, Free, Free, ih]

section
variable {pieces : List (List Char)} {text text' : List Char} (hpieces : pieces.flatten = text)
  (h : Spreads pieces text')

include hpieces h

/-- A text that is spread still closes its parentheses. -/
theorem closes_of_spreads {d : Nat} (hcloses : Closes d text) : Closes d text' := by
  rwa [← closes_solid, h.solid_eq, hpieces, closes_solid]

theorem depthAfter_of_spreads (depth : Int) : depthAfter depth text' = depthAfter depth text := by
  rw [← depthAfter_solid, h.solid_eq, hpieces, depthAfter_solid]

/-- It is still free of a separator. -/
theorem free_of_spreads {separator : Char} (hseparator : ¬isBlank separator) {depth : Int}
    (hfree : Free separator depth text) : Free separator depth text' := by
  rwa [← free_solid hseparator, h.solid_eq, hpieces, free_solid hseparator]

end

/-! ## Lexemes -/

/-- Cuts the text of a group. -/
def groupLexemes (cut : List Char → List (List Char)) (group : List Char) : List (List Char) :=
  [[',']].intercalate ((splitOutside ',' 0 group).map cut)

/-- Cuts a text of elements before and after every character, except for the parameters, which have
a cut of their own. -/
def lexemes (cut : List Char → List (List Char)) (text : List Char) : List (List Char) :=
  match text with
  | [] => []
  | c :: rest =>
    if c == '(' then
      match hgroup : takeGroup 0 rest with
      | some (group, after) =>
        have : after.length ≤ rest.length := Nat.le_of_lt (length_lt_of_takeGroup hgroup)
        ['('] :: (groupLexemes cut group ++ [')'] :: lexemes cut after)
      | none => ['('] :: lexemes cut rest
    else [c] :: lexemes cut rest
termination_by text.length

section
variable (cut : List Char → List (List Char))

@[simp]
theorem lexemes_nil : lexemes cut [] = [] := by
  rw [lexemes]

/-- Outside groups every character is a lexeme of its own. -/
theorem lexemes_other {c : Char} (h : c ≠ '(') (rest : List Char) :
    lexemes cut (c :: rest) = [c] :: lexemes cut rest := by
  rw [lexemes, if_neg (by simpa using h)]

/-- A group is cut into the lexemes of its parameters, between its parentheses. -/
theorem lexemes_group {group : List Char} (h : Closes 0 group) (after : List Char) :
    lexemes cut ('(' :: (group ++ ')' :: after)) =
      ['('] :: (groupLexemes cut group ++ [')'] :: lexemes cut after) := by
  have htake : takeGroup 0 (group ++ ')' :: after) = some (group, after) :=
    takeGroup_eq_some.2 ⟨rfl, h⟩
  rw [lexemes, if_pos (by decide)]
  split
  · rename_i hsome
    rw [htake] at hsome
    obtain ⟨rfl, rfl⟩ := Prod.mk.inj (Option.some.inj hsome)
    rfl
  · rename_i hnone
    rw [htake] at hnone
    cases hnone

/-- A parenthesis that nothing closes is a lexeme like other characters. -/
theorem lexemes_unclosed {rest : List Char} (h : takeGroup 0 rest = none) :
    lexemes cut ('(' :: rest) = ['('] :: lexemes cut rest := by
  rw [lexemes, if_pos (by decide)]
  split
  · rename_i hsome
    rw [h] at hsome
    cases hsome
  · rfl

theorem lexemes_blanks {blanks : List Char} (h : IsBlanks blanks) (rest : List Char) :
    lexemes cut (blanks ++ rest) = characters blanks ++ lexemes cut rest := by
  induction blanks with
  | nil => rfl
  | cons c blanks ih =>
    obtain ⟨hc, hblanks⟩ := List.forall_mem_cons.1 h
    rw [List.cons_append, lexemes_other cut (ne_of_isBlank (by decide) hc), ih hblanks]
    rfl

/-- A single parameter is cut as it is. -/
theorem groupLexemes_last {group : List Char} (h : Free ',' 0 group) :
    groupLexemes cut group = cut group := by
  rw [groupLexemes, splitOutside_of_free h, List.map_singleton, List.intercalate_singleton]

/-- The comma between parameters is a lexeme. -/
theorem groupLexemes_cons {text rest : List Char} (hfree : Free ',' 0 text)
    (hdepth : depthAfter 0 text = 0) :
    groupLexemes cut (text ++ ',' :: rest) = cut text ++ [','] :: groupLexemes cut rest := by
  unfold groupLexemes
  rw [splitOutside_append hfree hdepth, List.map_cons]
  cases hpieces : splitOutside ',' 0 rest with
  | nil => exact absurd hpieces (splitOutside_ne_nil _ _ _)
  | cons piece pieces =>
    rw [List.map_cons, List.intercalate_cons_cons, List.append_assoc, List.singleton_append]

/-- A group without separators or the first part of one. -/
theorem groupLexemes_cases (group : List Char) :
    groupLexemes cut group = cut group ∨
      ∃ text rest, group = text ++ ',' :: rest ∧
        groupLexemes cut group = cut text ++ [','] :: groupLexemes cut rest := by
  cases hpieces : splitOutside ',' 0 group with
  | nil => exact absurd hpieces (splitOutside_ne_nil _ _ _)
  | cons piece pieces =>
    rcases splitOutside_eq_cons hpieces with ⟨-, -, hfree⟩ | ⟨rest, rfl, hfree, hdepth, -⟩
    · exact .inl (groupLexemes_last cut hfree)
    · exact .inr ⟨piece, rest, rfl, groupLexemes_cons cut hfree hdepth⟩

variable {cut}

/-- Nothing is lost when a group is cut. -/
theorem groupLexemes_spec (hcut : ∀ text, (cut text).flatten = text) (group : List Char) :
    (groupLexemes cut group).flatten = group ∧
      ∀ piece ∈ groupLexemes cut group, (∃ c, piece = [c]) ∨ ∃ text, piece ∈ cut text := by
  induction hn : group.length using Nat.strongRecOn generalizing group with
  | _ n ih =>
    subst hn
    rcases groupLexemes_cases cut group with hlast | ⟨text, rest, rfl, hmore⟩
    · rw [hlast]
      exact ⟨hcut group, fun piece hpiece => .inr ⟨group, hpiece⟩⟩
    · have hshorter : rest.length < (text ++ ',' :: rest).length := by
        rw [List.length_append, List.length_cons]
        omega
      obtain ⟨hflatten, hpieces⟩ := ih rest.length hshorter rest rfl
      rw [hmore, List.flatten_append, List.flatten_cons, hcut, hflatten]
      refine ⟨rfl, List.forall_mem_append.2 ⟨fun piece hpiece => .inr ⟨text, hpiece⟩, ?_⟩⟩
      exact List.forall_mem_cons.2 ⟨.inl ⟨',', rfl⟩, hpieces⟩

/-- Nothing is lost when elements are cut, and what is left whole is a piece of a parameter. -/
theorem lexemes_spec (hcut : ∀ text, (cut text).flatten = text) (text : List Char) :
    (lexemes cut text).flatten = text ∧
      ∀ piece ∈ lexemes cut text, (∃ c, piece = [c]) ∨ ∃ param, piece ∈ cut param := by
  induction hn : text.length using Nat.strongRecOn generalizing text with
  | _ n ih =>
    subst hn
    cases text with
    | nil =>
      rw [lexemes_nil]
      exact ⟨rfl, fun piece hpiece => absurd hpiece List.not_mem_nil⟩
    | cons c rest =>
      have hfirst (hlexemes : lexemes cut (c :: rest) = [c] :: lexemes cut rest) :
          (lexemes cut (c :: rest)).flatten = c :: rest ∧
            ∀ piece ∈ lexemes cut (c :: rest), (∃ c, piece = [c]) ∨ ∃ param, piece ∈ cut param := by
        obtain ⟨hflatten, hpieces⟩ := ih rest.length (Nat.lt_succ_self _) rest rfl
        rw [hlexemes, List.flatten_cons, hflatten]
        exact ⟨rfl, List.forall_mem_cons.2 ⟨.inl ⟨c, rfl⟩, hpieces⟩⟩
      by_cases hopen : c = '('
      · subst hopen
        cases htake : takeGroup 0 rest with
        | none => exact hfirst (lexemes_unclosed cut htake)
        | some taken =>
          obtain ⟨group, after⟩ := taken
          obtain ⟨rfl, hcloses⟩ := takeGroup_eq_some.1 htake
          have hshorter : after.length < ('(' :: (group ++ ')' :: after)).length :=
            Nat.lt_succ_of_lt (length_lt_of_takeGroup htake)
          obtain ⟨hflatten, hpieces⟩ := ih after.length hshorter after rfl
          obtain ⟨hgroup, hparams⟩ := groupLexemes_spec hcut group
          rw [lexemes_group cut hcloses, List.flatten_cons, List.flatten_append, List.flatten_cons,
            hgroup, hflatten]
          refine ⟨rfl, List.forall_mem_cons.2 ⟨.inl ⟨'(', rfl⟩, List.forall_mem_append.2 ⟨hparams,
            List.forall_mem_cons.2 ⟨.inl ⟨')', rfl⟩, hpieces⟩⟩⟩⟩
      · exact hfirst (lexemes_other cut hopen rest)

end

/-- A text in which the parameters are single characters too is cut everywhere. -/
theorem lexemes_characters (text : List Char) : lexemes characters text = characters text := by
  obtain ⟨hflatten, hpieces⟩ := lexemes_spec flatten_characters text
  have hsingle : ∀ piece ∈ lexemes characters text, ∃ c, piece = [c] := by
    intro piece hpiece
    rcases hpieces piece hpiece with hsingle | ⟨param, hparam⟩
    · exact hsingle
    · obtain ⟨c, -, rfl⟩ := List.mem_map.1 hparam
      exact ⟨c, rfl⟩
  rw [eq_characters hsingle, hflatten]

/-! ## Longer texts of elements -/

variable {α : Type}

/-- A cut of parameters at which blanks do not change what is read. -/
structure IsCut (convert : List Char → Except Error α) (cut : List Char → List (List Char)) :
    Prop where
  flatten_eq : ∀ text, (cut text).flatten = text
  convert_eq : ∀ {text text' value}, convert (trim text) = .ok value → Spreads (cut text) text' →
    convert (trim text') = .ok value
  convert_nil : ∀ value, convert [] ≠ .ok value

variable {convert : List Char → Except Error α} {cut : List Char → List (List Char)}

section
variable (hcut : IsCut convert cut)

include hcut

/-- A parameter is still read as the same value when it is spread. -/
theorem IsParam.spreads {text text' : List Char} {value : α} (h : IsParam convert text value)
    (hspread : Spreads (cut text) text') : IsParam convert text' value := by
  obtain ⟨hfree, -, hvalue⟩ := h
  have hvalue' := hcut.convert_eq hvalue hspread
  refine ⟨free_of_spreads (hcut.flatten_eq text) hspread (by decide) hfree, fun hnil => ?_, hvalue'⟩
  rw [hnil] at hvalue'
  exact hcut.convert_nil value hvalue'

/-- So are all parameters of a group. -/
theorem IsParams.spreads {group group' : List Char} {values : List α}
    (h : IsParams convert group values) (hspread : Spreads (groupLexemes cut group) group') :
    IsParams convert group' values := by
  induction h generalizing group' with
  | last hparam =>
    rw [groupLexemes_last cut hparam.1] at hspread
    exact .last (hparam.spreads hcut hspread)
  | @cons text rest value values hparam hdepth _ ih =>
    rw [groupLexemes_cons cut hparam.1 hdepth] at hspread
    obtain ⟨text', rest', rfl, htext, hrest⟩ := hspread.exists_mark
    have hdepth' := depthAfter_of_spreads (hcut.flatten_eq text) htext 0
    exact .cons (hparam.spreads hcut htext) (hdepth'.trans hdepth) (ih hrest)

/-- Elements stay the same when their text is spread. -/
theorem IsElements.spreads {text text' : List Char} {elements : List (Element α)}
    (h : IsElements convert text elements) (hspread : Spreads (lexemes cut text) text') :
    IsElements convert text' elements := by
  induction h generalizing text' with
  | @nil blanks hblanks =>
    rw [← List.append_nil blanks, lexemes_blanks cut hblanks, lexemes_nil, List.append_nil]
      at hspread
    exact .nil (hspread.isBlanks hblanks)
  | @plain blanks rest c elements hblanks hsymbol _ ih =>
    rw [lexemes_blanks cut hblanks, lexemes_other cut hsymbol.2.1] at hspread
    obtain ⟨front, back, rfl, hfront, hback⟩ := hspread.exists_mark
    exact .plain (hfront.isBlanks hblanks) hsymbol (ih hback)
  | @group blanks blanks' group rest c params elements hblanks hsymbol hblanks' hgroup hparams _
      ih =>
    rw [lexemes_blanks cut hblanks, lexemes_other cut hsymbol.2.1, lexemes_blanks cut hblanks',
      lexemes_group cut hgroup] at hspread
    obtain ⟨front, back, rfl, hfront, hback⟩ := hspread.exists_mark
    obtain ⟨gap, inner, rfl, hgap, hinner⟩ := hback.exists_mark
    obtain ⟨group', rest', rfl, hgroup', hrest'⟩ := hinner.exists_mark
    have hflatten := (groupLexemes_spec hcut.flatten_eq group).1
    exact .group (hfront.isBlanks hblanks) hsymbol (hgap.isBlanks hblanks')
      (closes_of_spreads hflatten hgroup' hgroup) (hparams.spreads hcut hgroup') (ih hrest')

end

end Lindenmayer.Element
