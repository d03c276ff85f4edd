import Lindenmayer.Production.Reader
import Lindenmayer.Proofs.Element.Scanner

/-!
# Spellings of elements

A text of elements is cut into spellings: blanks, a symbol, and behind some symbols a group, whose
separators cut it into one to three pieces. No text can be cut in two ways. The scanner accepts a
text just if it can be cut and its pieces are read, and it gives one element for each spelling.
-/

namespace Lindenmayer.Element

open Text

/-! ## Pieces -/

/-- The texts between the separators of a group. -/
structure IsPiece (text : List Char) : Prop where
  closes : Closes 0 text
  free : Free ',' 0 text
  trim_ne_nil : trim text ≠ []

theorem closes_intercalate_pieces {pieces : List (List Char)}
    (h : ∀ piece ∈ pieces, IsPiece piece) : Closes 0 ([','].intercalate pieces) :=
  .intercalate (closes_of_not_mem (by decide) (by decide)) fun piece hpiece =>
    (h piece hpiece).closes

/-- Joined pieces are cut where they were joined. -/
theorem splitOutside_intercalate {pieces : List (List Char)} (hne : pieces ≠ [])
    (h : ∀ piece ∈ pieces, IsPiece piece) :
    splitOutside ',' 0 ([','].intercalate pieces) = pieces := by
  induction pieces with
  | nil => exact absurd rfl hne
  | cons piece pieces ih =>
    obtain ⟨hpiece, hothers⟩ := List.forall_mem_cons.1 h
    cases pieces with
    | nil =>
      rw [List.intercalate_singleton]
      exact splitOutside_of_free hpiece.free
    | cons next pieces =>
      rw [List.intercalate_cons_cons, List.append_assoc, List.singleton_append,
        splitOutside_append hpiece.free (hpiece.closes.depthAfter_self 0),
        ih (List.cons_ne_nil _ _) hothers]

/-! ## Spellings -/

/-- A group as it is written, with the blanks in front of it. -/
@[ext]
structure Group where
  blanks : List Char
  pieces : List (List Char)
  isBlanks : IsBlanks blanks
  isPiece : ∀ piece ∈ pieces, IsPiece piece
  ne_nil : pieces ≠ []
  length_le : pieces.length ≤ maxParams

/-- What stands between the parentheses of a group. -/
def Group.inner (g : Group) : List Char :=
  [','].intercalate g.pieces

def Group.text (g : Group) : List Char :=
  g.blanks ++ '(' :: (g.inner ++ [')'])

/-- An element as it is written, with the blanks in front of it. -/
@[ext]
structure Spelling where
  blanks : List Char
  symbol : Char
  group : Option Group
  isBlanks : IsBlanks blanks
  isSymbol : IsSymbol symbol

namespace Spelling

def text (s : Spelling) : List Char :=
  s.blanks ++ s.symbol :: s.group.elim [] Group.text

/-- The texts of the parameters, of which there are none without a group. -/
def pieces (s : Spelling) : List (List Char) :=
  s.group.elim [] Group.pieces

end Spelling

/-- A text cut into spellings; there may be blanks at its end. -/
@[ext]
structure Decomposition (text : List Char) where
  spellings : List Spelling
  blanks : List Char
  isBlanks : IsBlanks blanks
  text_eq : spellings.flatMap Spelling.text ++ blanks = text

/-! ## Uniqueness -/

/-- Blanks end at the first character that is none. -/
theorem append_cons_inj_of_blanks {blanks blanks' rest rest' : List Char} {c c' : Char}
    (hblanks : IsBlanks blanks) (hblanks' : IsBlanks blanks') (hc : ¬isBlank c) (hc' : ¬isBlank c')
    (h : blanks ++ c :: rest = blanks' ++ c' :: rest') :
    blanks = blanks' ∧ c = c' ∧ rest = rest' := by
  have hdrop := congrArg dropBlanks h
  rw [dropBlanks_append hblanks, dropBlanks_append hblanks', dropBlanks_cons_of_not_blank hc,
    dropBlanks_cons_of_not_blank hc'] at hdrop
  obtain ⟨rfl, rfl⟩ := List.cons.inj hdrop
  exact ⟨List.append_cancel_right h, rfl, rfl⟩

theorem dropBlanks_group (g : Group) (after : List Char) :
    dropBlanks (g.text ++ after) = '(' :: (g.inner ++ ')' :: after) := by
  rw [Group.text, List.append_assoc, dropBlanks_append g.isBlanks, List.cons_append,
    dropBlanks_cons_of_not_blank (by decide), List.append_assoc, List.singleton_append]

/-- A group ends where its own parenthesis is closed, and its pieces are those between its
separators. -/
theorem Group.append_inj {g g' : Group} {after after' : List Char}
    (h : g.text ++ after = g'.text ++ after') : g = g' ∧ after = after' := by
  have hshape (g : Group) (after : List Char) :
      g.text ++ after = g.blanks ++ '(' :: (g.inner ++ ')' :: after) := by simp [Group.text]
  have hcloses (g : Group) : Closes 0 g.inner := closes_intercalate_pieces g.isPiece
  rw [hshape, hshape] at h
  obtain ⟨hblanks, -, hinner⟩ :=
    append_cons_inj_of_blanks g.isBlanks g'.isBlanks (by decide) (by decide) h
  -- what is taken up to the closing parenthesis is the inside of both groups
  have htake : takeGroup 0 (g.inner ++ ')' :: after) = some (g.inner, after) :=
    takeGroup_eq_some.2 ⟨rfl, hcloses g⟩
  rw [hinner, takeGroup_eq_some.2 ⟨rfl, hcloses g'⟩, Option.some.injEq, Prod.mk.injEq] at htake
  obtain ⟨hsame, rfl⟩ := htake
  have hpieces : g.pieces = g'.pieces := by
    rw [← splitOutside_intercalate g.ne_nil g.isPiece,
      ← splitOutside_intercalate g'.ne_nil g'.isPiece]
    exact congrArg _ hsame.symm
  exact ⟨Group.ext hblanks hpieces, rfl⟩

/-- Where no group follows, a spelling is told from what is behind it. -/
theorem Spelling.append_inj {s s' : Spelling} {after after' : List Char}
    (hafter : ∀ inner, dropBlanks after ≠ '(' :: inner)
    (hafter' : ∀ inner, dropBlanks after' ≠ '(' :: inner)
    (h : s.text ++ after = s'.text ++ after') : s = s' ∧ after = after' := by
  obtain ⟨blanks, symbol, group, hblanks, hsymbol⟩ := s
  obtain ⟨blanks', symbol', group', hblanks', hsymbol'⟩ := s'
  simp only [text, List.append_assoc, List.cons_append] at h
  obtain ⟨rfl, rfl, hrest⟩ := append_cons_inj_of_blanks hblanks hblanks' hsymbol.1 hsymbol'.1 h
  -- a group in one spelling only would stand behind the other spelling
  cases group with
  | none =>
    cases group' with
    | none => exact ⟨rfl, hrest⟩
    | some g' =>
      obtain rfl : after = g'.text ++ after' := hrest
      exact absurd (dropBlanks_group g' after') (hafter _)
  | some g =>
    cases group' with
    | none =>
      obtain rfl : g.text ++ after = after' := hrest
      exact absurd (dropBlanks_group g after) (hafter' _)
    | some g' =>
      obtain ⟨rfl, rfl⟩ := Group.append_inj hrest
      exact ⟨rfl, rfl⟩

/-- Spellings do not begin with a group. -/
theorem dropBlanks_spellings_ne {blanks : List Char} (hblanks : IsBlanks blanks)
    (spellings : List Spelling) (inner : List Char) :
    dropBlanks (spellings.flatMap Spelling.text ++ blanks) ≠ '(' :: inner := by
  cases spellings with
  | nil =>
    rw [List.flatMap_nil, List.nil_append, dropBlanks_of_isBlanks hblanks]
    exact nofun
  | cons s spellings =>
    rw [List.flatMap_cons, Spelling.text, List.append_assoc, List.append_assoc,
      dropBlanks_append s.isBlanks, List.cons_append, dropBlanks_cons_of_not_blank s.isSymbol.1]
    intro heq
    exact s.isSymbol.2.1 (List.cons.inj heq).1

/-- A text is cut in one way only, by induction on the spellings. -/
theorem spellings_inj {spellings spellings' : List Spelling} {blanks blanks' : List Char}
    (hblanks : IsBlanks blanks) (hblanks' : IsBlanks blanks')
    (h : spellings.flatMap Spelling.text ++ blanks = spellings'.flatMap Spelling.text ++ blanks') :
    spellings = spellings' ∧ blanks = blanks' := by
  -- blanks alone have no symbol in them
  have hempty {blanks rest : List Char} {s : Spelling} (hblanks : IsBlanks blanks) :
      blanks ≠ s.text ++ rest := by
    rintro rfl
    exact s.isSymbol.1 (hblanks s.symbol (by simp [Spelling.text]))
  induction spellings generalizing spellings' with
  | nil =>
    cases spellings' with
    | nil => exact ⟨rfl, h⟩
    | cons s' spellings' =>
      rw [List.flatMap_nil, List.nil_append, List.flatMap_cons, List.append_assoc] at h
      exact absurd h (hempty hblanks)
  | cons s spellings ih =>
    cases spellings' with
    | nil =>
      rw [List.flatMap_nil, List.nil_append, List.flatMap_cons, List.append_assoc] at h
      exact absurd h.symm (hempty hblanks')
    | cons s' spellings' =>
      rw [List.flatMap_cons, List.flatMap_cons, List.append_assoc, List.append_assoc] at h
      obtain ⟨rfl, hrest⟩ := Spelling.append_inj (dropBlanks_spellings_ne hblanks spellings)
        (dropBlanks_spellings_ne hblanks' spellings') h
      obtain ⟨rfl, rfl⟩ := ih hrest
      exact ⟨rfl, rfl⟩

instance (text : List Char) : Subsingleton (Decomposition text) where
  allEq d d' := by
    obtain ⟨hspellings, hblanks⟩ :=
      spellings_inj d.isBlanks d'.isBlanks (d.text_eq.trans d'.text_eq.symm)
    exact Decomposition.ext hspellings hblanks

/-! ## Reading -/

section
variable {α : Type} {convert : List Char → Except Error α}

/-- An element has the symbol of its spelling, and its parameters are read from the pieces. -/
structure Spelling.Reads (convert : List Char → Except Error α) (s : Spelling) (e : Element α) :
    Prop where
  symbol_eq : e.symbol = s.symbol
  params : List.Forall₂ (fun piece v => convert (trim piece) = .ok v) s.pieces e.params.values

/-- All pieces of a text are read. -/
def Decomposition.IsRead {text : List Char} (convert : List Char → Except Error α)
    (d : Decomposition text) : Prop :=
  ∀ s ∈ d.spellings, ∀ piece ∈ s.pieces, ∃ v, convert (trim piece) = .ok v

/-- The values of a group are read from its pieces. -/
theorem exists_pieces_of_isParams {inner : List Char} {values : List α}
    (h : IsParams convert inner values) (hcloses : Closes 0 inner) :
    ∃ pieces, [','].intercalate pieces = inner ∧ pieces ≠ [] ∧ (∀ piece ∈ pieces, IsPiece piece) ∧
      List.Forall₂ (fun piece v => convert (trim piece) = .ok v) pieces values := by
  induction h with
  | @last text _ hparam =>
    obtain ⟨hfree, hne, hvalue⟩ := hparam
    exact ⟨[text], List.intercalate_singleton, List.cons_ne_nil _ _,
      List.forall_mem_singleton.2 ⟨hcloses, hfree, hne⟩, .cons hvalue .nil⟩
  | @cons text rest _ _ hparam hdepth _ ih =>
    obtain ⟨hfree, hne, hvalue⟩ := hparam
    obtain ⟨htext, hrest⟩ := closes_of_append hcloses hdepth
    obtain ⟨pieces, rfl, hpieces, hall, hvalues⟩ :=
      ih ((closes_other (by decide) (by decide)).1 hrest)
    refine ⟨text :: pieces, ?_, List.cons_ne_nil _ _,
      List.forall_mem_cons.2 ⟨⟨htext, hfree, hne⟩, hall⟩, .cons hvalue hvalues⟩
    obtain ⟨next, others, rfl⟩ := List.exists_cons_of_ne_nil hpieces
    rw [List.intercalate_cons_cons, List.append_assoc, List.singleton_append]

theorem isParams_of_pieces_read {pieces : List (List Char)} {values : List α}
    (h : List.Forall₂ (fun piece v => convert (trim piece) = .ok v) pieces values)
    (hne : pieces ≠ []) (hall : ∀ piece ∈ pieces, IsPiece piece) :
    IsParams convert ([','].intercalate pieces) values := by
  induction h with
  | nil => exact absurd rfl hne
  | @cons piece v pieces values hvalue hvalues ih =>
    obtain ⟨hpiece, hothers⟩ := List.forall_mem_cons.1 hall
    have hparam : IsParam convert piece v := ⟨hpiece.free, hpiece.trim_ne_nil, hvalue⟩
    cases pieces with
    | nil =>
      cases hvalues
      rw [List.intercalate_singleton]
      exact .last hparam
    | cons next pieces =>
      rw [List.intercalate_cons_cons, List.append_assoc]
      exact .cons hparam (hpiece.closes.depthAfter_self 0) (ih (List.cons_ne_nil _ _) hothers)

/-- A text of elements can be cut so that each element is read from its spelling. -/
theorem IsElements.exists_decomposition {text : List Char} {elements : List (Element α)}
    (h : IsElements convert text elements) :
    ∃ d : Decomposition text, List.Forall₂ (Spelling.Reads convert) d.spellings elements := by
  induction h with
  | @nil blanks hblanks => exact ⟨⟨[], blanks, hblanks, rfl⟩, .nil⟩
  | @plain blanks _ c _ hblanks hsymbol _ ih =>
    obtain ⟨⟨spellings, rest, hrest, rfl⟩, hreads⟩ := ih
    exact ⟨⟨⟨blanks, c, none, hblanks, hsymbol⟩ :: spellings, rest, hrest, by simp [Spelling.text]⟩,
      .cons ⟨rfl, .nil⟩ hreads⟩
  | @group blanks blanks' inner _ c _ _ hblanks hsymbol hblanks' hgroup hparams _ ih =>
    obtain ⟨⟨spellings, rest, hrest, rfl⟩, hreads⟩ := ih
    obtain ⟨pieces, rfl, hne, hall, hvalues⟩ := exists_pieces_of_isParams hparams hgroup
    have hlength : pieces.length ≤ maxParams := by
      rw [hvalues.length_eq]
      exact Params.length_le _
    exact ⟨⟨⟨blanks, c, some ⟨blanks', pieces, hblanks', hall, hne, hlength⟩, hblanks, hsymbol⟩ ::
      spellings, rest, hrest, by simp [Spelling.text, Group.text, Group.inner]⟩,
      .cons ⟨rfl, hvalues⟩ hreads⟩

theorem isElements_of_spellings {spellings : List Spelling} {elements : List (Element α)}
    (h : List.Forall₂ (Spelling.Reads convert) spellings elements) {blanks : List Char}
    (hblanks : IsBlanks blanks) :
    IsElements convert (spellings.flatMap Spelling.text ++ blanks) elements := by
  induction h with
  | nil => exact .nil hblanks
  | @cons s e spellings elements hreads _ ih =>
    obtain ⟨front, symbol, group, hfront, hsymbol⟩ := s
    obtain ⟨_, params⟩ := e
    obtain ⟨rfl, hvalues⟩ := hreads
    rw [List.flatMap_cons, List.append_assoc]
    cases group with
    | none =>
      obtain ⟨values, hlength⟩ := params
      obtain rfl : [] = values := by simpa [Spelling.pieces] using hvalues
      simp only [Spelling.text, List.append_assoc, List.cons_append]
      exact .plain hfront hsymbol ih
    | some g =>
      have hinner := isParams_of_pieces_read hvalues g.ne_nil g.isPiece
      have hgroup := closes_intercalate_pieces g.isPiece
      have hparams := IsElements.group hfront hsymbol g.isBlanks hgroup hinner ih
      simpa [Spelling.text, Group.text, Group.inner] using hparams

/-- The scanner gives the elements that are read from the spellings of a text. -/
theorem scan_eq_ok_iff_reads {text : List Char} {elements : List (Element α)} :
    scan convert text = .ok elements ↔
      ∃ d : Decomposition text, List.Forall₂ (Spelling.Reads convert) d.spellings elements := by
  rw [scan_eq_ok]
  constructor
  · exact IsElements.exists_decomposition
  · rintro ⟨⟨spellings, blanks, hblanks, rfl⟩, h⟩
    exact isElements_of_spellings h hblanks

theorem exists_forall₂_iff {β γ : Type} {R : β → γ → Prop} {items : List β} :
    (∃ results, List.Forall₂ R items results) ↔ ∀ a ∈ items, ∃ b, R a b := by
  induction items with
  | nil => exact ⟨fun _ a ha => absurd ha List.not_mem_nil, fun _ => ⟨[], .nil⟩⟩
  | cons a items ih =>
    rw [List.forall_mem_cons, ← ih]
    constructor
    · rintro ⟨_, h⟩
      cases h with
      | cons hfirst hothers => exact ⟨⟨_, hfirst⟩, _, hothers⟩
    · rintro ⟨⟨b, hb⟩, results, hresults⟩
      exact ⟨b :: results, .cons hb hresults⟩

theorem Spelling.length_pieces_le (s : Spelling) : s.pieces.length ≤ maxParams := by
  unfold pieces
  cases s.group with
  | none => exact Nat.zero_le _
  | some g => exact g.length_le

/-- An element can be read from a spelling just if all pieces are read. -/
theorem Spelling.exists_reads_iff {s : Spelling} :
    (∃ e, s.Reads convert e) ↔ ∀ piece ∈ s.pieces, ∃ v, convert (trim piece) = .ok v := by
  rw [← exists_forall₂_iff]
  constructor
  · rintro ⟨e, he⟩
    exact ⟨e.params.values, he.params⟩
  · rintro ⟨values, hvalues⟩
    have hlength : values.length ≤ maxParams := hvalues.length_eq ▸ s.length_pieces_le
    exact ⟨⟨s.symbol, values, hlength⟩, rfl, hvalues⟩

theorem Decomposition.isRead_iff {text : List Char} {d : Decomposition text} :
    d.IsRead convert ↔ ∃ elements, List.Forall₂ (Spelling.Reads convert) d.spellings elements := by
  simp only [IsRead, exists_forall₂_iff, Spelling.exists_reads_iff]

/-- A text is accepted just if it can be cut so that all pieces are read. -/
theorem exists_scan_iff {text : List Char} :
    (∃ elements, scan convert text = .ok elements) ↔
      ∃ d : Decomposition text, d.IsRead convert := by
  simp only [scan_eq_ok_iff_reads, Decomposition.isRead_iff]
  exact exists_comm

/-! ## Errors -/

theorem isSystem_of_ofList {values : List α} {e : Error}
    (h : Params.ofList values = .error e) : e.kind.isSystem := by
  rw [Params.ofList] at h
  by_cases hlength : values.length ≤ maxParams
  · rw [dif_pos hlength] at h
    exact absurd h nofun
  · rw [dif_neg hlength] at h
    obtain rfl := Except.error.inj h
    rfl

section
variable (hconvert : ∀ piece e, convert piece = .error e → e.kind.isSystem)

include hconvert

theorem isSystem_of_readParams {symbol : Char} {group : List Char} {e : Error}
    (h : readParams convert symbol group = .error e) : e.kind.isSystem := by
  unfold readParams at h
  simp only at h
  cases hempty : ((splitOutside ',' 0 group).map trim).any List.isEmpty with
  | true =>
    rw [hempty] at h
    obtain rfl := Except.error.inj h
    rfl
  | false =>
    rw [hempty] at h
    -- all pieces are read before they are counted
    have hread :
        ((splitOutside ',' 0 group).map trim).mapM convert >>= Params.ofList = .error e := h
    rcases bind_eq_error.1 hread with hpieces | ⟨values, -, hvalues⟩
    · obtain ⟨piece, -, hpiece⟩ := exists_error_of_mapM hpieces
      exact hconvert piece e hpiece
    · exact isSystem_of_ofList hvalues

/-- The scanner fails with errors of its own or with those of the pieces. -/
theorem isSystem_of_scanFrom {whole text : List Char} {e : Error}
    (h : scanFrom convert whole text = .error e) : e.kind.isSystem := by
  -- a parenthesis or a separator outside of groups and a group without end are faults of the text
  fun_induction scanFrom convert whole text with
  | case1 => exact absurd h nofun
  | case2 _ _ _ ih => exact ih h
  | case3 =>
    obtain rfl := Except.error.inj h
    rfl
  | case4 =>
    obtain rfl := Except.error.inj h
    rfl
  | case5 c rest _ _ inner _ group after _ _ ih =>
    rw [bind_eq_error] at h
    rcases h with hparams | ⟨params, -, h⟩
    · exact isSystem_of_readParams hconvert hparams
    · rw [bind_eq_error] at h
      rcases h with hafter | ⟨elements, -, h⟩
      · exact ih hafter
      · exact absurd h nofun
  | case6 _ _ _ _ _ ih =>
    rw [bind_eq_error] at h
    rcases h with hrest | ⟨elements, -, h⟩
    · exact ih hrest
    · exact absurd h nofun

end

/-- A text is accepted just if it can be cut into spellings whose pieces are all read. There is no
second way to cut it, so that the elements have the symbols of the text in their order and its
pieces as parameters. Every other text is refused with an error about the system, if the reader of
parameters has no other errors. -/
theorem scan_accepts_spellings (convert : List Char → Except Error α) (text : List Char) :
    ((∃ elements, scan convert text = .ok elements) ↔
      ∃ d : Decomposition text, d.IsRead convert) ∧
    (∀ d d' : Decomposition text, d = d') ∧
    (∀ elements, scan convert text = .ok elements → ∀ d : Decomposition text,
      List.Forall₂ (Spelling.Reads convert) d.spellings elements) ∧
    ((∀ piece e, convert piece = .error e → e.kind.isSystem) →
      (¬∃ d : Decomposition text, d.IsRead convert) →
        ∃ e, scan convert text = .error e ∧ e.kind.isSystem) := by
  refine ⟨exists_scan_iff, Subsingleton.elim, fun elements h d => ?_, fun hconvert hnone => ?_⟩
  · obtain ⟨d', hreads⟩ := scan_eq_ok_iff_reads.1 h
    rwa [Subsingleton.elim d d']
  · rw [← exists_scan_iff] at hnone
    cases hscan : scan convert text with
    | ok elements => exact absurd ⟨elements, hscan⟩ hnone
    | error e => exact ⟨e, rfl, isSystem_of_scanFrom hconvert hscan⟩

end

/-- Names are read from a group with blanks in it, and a group with a missing name is refused. -/
theorem scan_accepts_spellings_names :
    (∀ piece e, Production.readFormalName piece = .error e → e.kind.isSystem) ∧
    (∃ d : Decomposition " A (x ,y)B".toList, d.IsRead Production.readFormalName ∧
      List.Forall₂ (Spelling.Reads Production.readFormalName) d.spellings
        [⟨'A', ⟨["x", "y"], by decide⟩⟩, .plain 'B']) ∧
    (¬∃ d : Decomposition "A(x,)B".toList, d.IsRead Production.readFormalName) ∧
    ∃ e, scan Production.readFormalName "A(x,)B".toList = .error e ∧ e.kind.isSystem := by
  have hconvert : ∀ piece e, Production.readFormalName piece = .error e → e.kind.isSystem := by
    intro piece e h
    unfold Production.readFormalName at h
    simp only at h
    split at h
    · exact absurd h nofun
    · obtain rfl := Except.error.inj h
      rfl
  have hread : scan Production.readFormalName " A (x ,y)B".toList =
      .ok [⟨'A', ⟨["x", "y"], by decide⟩⟩, .plain 'B'] :=
    toOption_eq_some.1 (by decide +kernel)
  have hfails : scan Production.readFormalName "A(x,)B".toList =
      .error (.grammar (.emptyParameter 'A' "x,".toList)) := by decide +kernel
  obtain ⟨haccepts, -, hreads, -⟩ :=
    scan_accepts_spellings Production.readFormalName " A (x ,y)B".toList
  obtain ⟨hrefuses, -, -, herror⟩ :=
    scan_accepts_spellings Production.readFormalName "A(x,)B".toList
  obtain ⟨d, hd⟩ := haccepts.1 ⟨_, hread⟩
  have hnone : ¬∃ d : Decomposition "A(x,)B".toList, d.IsRead Production.readFormalName := by
    intro h
    obtain ⟨elements, helements⟩ := hrefuses.2 h
    exact absurd (hfails.symm.trans helements) nofun
  exact ⟨hconvert, ⟨d, hd, hreads _ hread d⟩, hnone, herror hconvert hnone⟩

end Lindenmayer.Element
