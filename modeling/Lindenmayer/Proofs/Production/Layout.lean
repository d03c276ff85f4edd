import Lindenmayer.Proofs.Element.Layout
import Lindenmayer.Proofs.Expr.Layout
import Lindenmayer.Proofs.Production.Printer

/-!
# The layout of productions

Each section of a line is cut in its own way, and blanks may be put wherever the line is cut: the
longer line is made of longer sections, from which the same parts are read.
-/

namespace Lindenmayer.Production

open Text (Spreads characters tokenLexemes isBlank trim)

/-! ## Lexemes -/

/-- Cuts a section that a mark announces. -/
def markedLexemes (mark : Char) (cut : List Char → List (List Char)) :
    Option (List Char) → List (List Char)
  | none => []
  | some text => [mark] :: cut text

/-- Cuts the sections of a line. The front is cut everywhere; in the condition and in the parameters
of the successor literals and operators stay whole, and the probability does. -/
def Sections.headLexemes (s : Sections) : List (List Char) :=
  characters s.front ++ markedLexemes ':' (Expr.lexemes true) s.condition ++
    markedLexemes '~' tokenLexemes s.probability

def Sections.lexemes (s : Sections) : List (List Char) :=
  s.headLexemes ++ ['='] :: Element.lexemes (Expr.lexemes true) s.body

/-- Cuts a line. -/
def lexemes (line : List Char) : List (List Char) :=
  match Sections.ofLine? line with
  | none => characters line
  | some s => s.lexemes

/-! ## The parameters of elements -/

/-- The parameters of a successor are formulas, whose lexemes are numbers and operators. -/
theorem isCut_expr : Element.IsCut Expr.parse (Expr.lexemes true) where
  flatten_eq := fun text => (Expr.lexemes_spec true text).1
  convert_eq := Expr.parse_trim_of_spreads
  convert_nil := fun e h => by
    obtain ⟨formula, blanks, hformula, -, hnil⟩ := Expr.isFormula_of_parse h
    obtain ⟨c, rest, rfl, -⟩ := hformula.head
    exact absurd hnil nofun

/-- A formal parameter is a single letter. -/
theorem exists_singleton_of_readFormalName {text : List Char} {name : String}
    (h : readFormalName text = .ok name) : ∃ c, text = [c] := by
  unfold readFormalName at h
  simp only at h
  split at h
  · rename_i hname
    obtain ⟨c, -, htext⟩ := exists_letter_of_isFormalName hname
    rw [String.toList_ofList] at htext
    exact ⟨c, htext⟩
  · exact absurd h nofun

/-- Formal parameters are cut into single characters. -/
theorem isCut_formal : Element.IsCut readFormalName characters where
  flatten_eq := Text.flatten_characters
  convert_eq := fun h hspread => by
    obtain ⟨c, htrim⟩ := exists_singleton_of_readFormalName h
    rwa [Text.trim_of_spreads_singleton htrim hspread, ← htrim]
  convert_nil := fun name h => by
    obtain ⟨c, hnil⟩ := exists_singleton_of_readFormalName h
    exact absurd hnil nofun

/-- A predecessor or context is still read when it is spread. -/
theorem readFormal_of_spreads {text text' : List Char} {e : Element String}
    (h : readFormal text = .ok e) (hspread : Spreads (characters text) text') :
    readFormal text' = .ok e := by
  rw [readFormal_eq_ok, Element.scan_eq_ok] at h ⊢
  rw [← Element.lexemes_characters] at hspread
  exact h.spreads isCut_formal hspread

/-- A successor is still read when it is spread. -/
theorem readSuccessor_of_spreads {body body' : List Char} {successor : List (Element Expr)}
    (h : readSuccessor body = .ok successor)
    (hspread : Spreads (Element.lexemes (Expr.lexemes true) body) body') :
    readSuccessor body' = .ok successor := by
  rw [readSuccessor_eq_ok] at h ⊢
  exact h.spreads isCut_expr hspread

/-! ## Parts that may be missing -/

/-- Either there is no text, or it is spread. -/
def PartSpreads (cut : List Char → List (List Char)) (part part' : Option (List Char)) : Prop :=
  Option.Rel (fun text text' => Spreads (cut text) text') part part'

section
variable {α : Type} {read : List Char → Except Error α} {cut : List Char → List (List Char)}
  {part part' : Option (List Char)} {value : Option α}

/-- What is read from a text is read from the spread text, too. -/
theorem IsPart.spreads
    (hread : ∀ {text text' x}, read text = .ok x → Spreads (cut text) text' → read text' = .ok x)
    (h : IsPart read part value) (hspread : PartSpreads cut part part') :
    IsPart read part' value := by
  cases hspread with
  | none => exact h
  | some htext =>
    cases h with
    | some hx => exact .some (hread hx htext)

/-- Spreading neither adds a text nor takes it away. -/
theorem PartSpreads.isSome_eq (h : PartSpreads cut part part') : part.isSome = part'.isSome := by
  cases h <;> rfl

theorem PartSpreads.eq_none (h : PartSpreads cut part none) : part = none := by
  cases h
  rfl

/-- The pieces of a text that may be missing are spread piece by piece. -/
theorem exists_partSpreads {pieces : List (List Char)}
    (h : List.Forall₂ (fun piece piece' => Spreads (cut piece) piece') part.toList pieces) :
    ∃ part' : Option (List Char), pieces = part'.toList ∧ PartSpreads cut part part' := by
  cases part with
  | none =>
    cases h
    exact ⟨none, rfl, .none⟩
  | some text =>
    obtain ⟨piece, others, hpiece, hothers, rfl⟩ := List.forall₂_cons_left_iff.1 h
    cases hothers
    exact ⟨some piece, rfl, .some hpiece⟩

end

/-! ## The front -/

/-- The pieces between marks that count are spread one by one. -/
theorem splitOutside_of_spreads {mark : Char} (hmark : ¬isBlank mark) {text text' : List Char}
    (hspread : Spreads (characters text) text') :
    List.Forall₂ (fun piece piece' => Spreads (characters piece) piece')
      (Element.splitOutside mark 0 text) (Element.splitOutside mark 0 text') := by
  generalize hpieces : Element.splitOutside mark 0 text = pieces
  induction pieces generalizing text text' with
  | nil => exact absurd hpieces (Element.splitOutside_ne_nil _ _ _)
  | cons piece pieces ih =>
    have hflatten := Text.flatten_characters
    rcases Element.splitOutside_eq_cons hpieces with
      ⟨rfl, rfl, hfree⟩ | ⟨rest, rfl, hfree, hdepth, hrest⟩
    · rw [Element.splitOutside_of_free
        (Element.free_of_spreads (hflatten piece) hspread hmark hfree)]
      exact .cons hspread .nil
    · rw [Text.characters_append, Text.characters_cons] at hspread
      obtain ⟨piece', rest', rfl, hpiece', hrest'⟩ := hspread.exists_mark
      have hdepth' := Element.depthAfter_of_spreads (hflatten piece) hpiece' 0
      rw [Element.splitOutside_append
        (Element.free_of_spreads (hflatten piece) hpiece' hmark hfree) (hdepth'.trans hdepth)]
      exact .cons hpiece' (ih hrest' hrest)

/-- A front that is spread still has its left context. -/
theorem readLeft_of_spreads {front front' middle : List Char} {left : Option (Element String)}
    (h : readLeft front = .ok (middle, left)) (hspread : Spreads (characters front) front') :
    ∃ middle', Spreads (characters middle) middle' ∧ readLeft front' = .ok (middle', left) := by
  obtain ⟨before, hpieces, hcontext⟩ := readLeft_eq_ok.1 h
  have hpieces' := splitOutside_of_spreads (show ¬isBlank '<' by decide) hspread
  rw [hpieces] at hpieces'
  -- the last piece is the middle, and the others are the context
  have hinit := List.forall₂_take before.toList.length hpieces'
  have hlast := List.forall₂_drop before.toList.length hpieces'
  rw [List.take_left] at hinit
  rw [List.drop_left] at hlast
  obtain ⟨before', htake, hbefore⟩ := exists_partSpreads hinit
  obtain ⟨middle', nothing, hmiddle, hnil, hdrop⟩ := List.forall₂_cons_left_iff.1 hlast
  cases hnil
  refine ⟨middle', hmiddle, readLeft_eq_ok.2 ⟨before', ?_, ?_⟩⟩
  · rw [← htake, ← hdrop, List.take_append_drop]
  · exact hcontext.spreads readFormal_of_spreads hbefore

/-- What is left of it still has its right context. -/
theorem readRight_of_spreads {head head' text text' middle : List Char}
    {right : Option (Element String)} (h : readRight head text = .ok (middle, right))
    (hspread : Spreads (characters text) text') :
    ∃ middle', Spreads (characters middle) middle' ∧
      readRight head' text' = .ok (middle', right) := by
  obtain ⟨after, hpieces, hcontext⟩ := readRight_eq_ok.1 h
  have hpieces' := splitOutside_of_spreads (show ¬isBlank '>' by decide) hspread
  rw [hpieces] at hpieces'
  obtain ⟨middle', others, hmiddle, hothers, hsplit⟩ := List.forall₂_cons_left_iff.1 hpieces'
  obtain ⟨after', rfl, hafter⟩ := exists_partSpreads hothers
  exact ⟨middle', hmiddle,
    readRight_eq_ok.2 ⟨after', hsplit, hcontext.spreads readFormal_of_spreads hafter⟩⟩

/-- A front that is spread still shows its contexts and its predecessor. -/
theorem IsFront.spreads {front front' : List Char} {p : Parts} (h : IsFront front p)
    (hspread : Spreads (characters front) front') : IsFront front' p := by
  obtain ⟨middle, last, hleft, hright, hpredecessor⟩ := h
  obtain ⟨middle', hmiddle, hleft'⟩ := readLeft_of_spreads hleft hspread
  obtain ⟨last', hlast, hright'⟩ := readRight_of_spreads hright hmiddle
  exact ⟨middle', last', hleft', hright', readFormal_of_spreads hpredecessor hlast⟩

/-! ## Longer lines -/

theorem flatten_markedLexemes {mark : Char} {cut : List Char → List (List Char)}
    (hcut : ∀ text, (cut text).flatten = text) (part : Option (List Char)) :
    (markedLexemes mark cut part).flatten = marked mark part := by
  cases part with
  | none => rfl
  | some text =>
    rw [markedLexemes, List.flatten_cons, hcut]
    rfl

/-- A head is made of its lexemes. -/
theorem Sections.flatten_headLexemes (s : Sections) : s.headLexemes.flatten = s.head := by
  rw [Sections.headLexemes, List.flatten_append, List.flatten_append, Text.flatten_characters,
    flatten_markedLexemes isCut_expr.flatten_eq, flatten_markedLexemes Text.flatten_tokenLexemes]
  rfl

/-- Nothing is lost when a line is cut. -/
theorem Sections.flatten_lexemes (s : Sections) : s.lexemes.flatten = s.text := by
  rw [Sections.lexemes, List.flatten_append, List.flatten_cons, s.flatten_headLexemes,
    (Element.lexemes_spec isCut_expr.flatten_eq s.body).1]
  rfl

/-- A section that a mark announces is spread behind its mark. -/
theorem exists_marked_of_spreads {mark : Char} {cut : List Char → List (List Char)}
    {left : List (List Char)} {part : Option (List Char)} {text : List Char}
    (h : Spreads (left ++ markedLexemes mark cut part) text) :
    ∃ l part', text = l ++ marked mark part' ∧ Spreads left l ∧
      PartSpreads cut part part' := by
  cases part with
  | none =>
    rw [markedLexemes, List.append_nil] at h
    exact ⟨text, none, (List.append_nil text).symm, h, .none⟩
  | some before =>
    obtain ⟨l, after, rfl, hleft, hafter⟩ := h.exists_mark
    exact ⟨l, some after, rfl, hleft, .some hafter⟩

/-- A probability is still read as the same number. -/
theorem IsProbability.spreads {part part' : Option (List Char)} {x : Float}
    (h : IsProbability part x) (hspread : PartSpreads tokenLexemes part part') :
    IsProbability part' x := by
  cases hspread with
  | none => exact h
  | some htext =>
    show Entry.float? (trim _) = some x
    rw [Text.trim_of_spreads htext]
    exact h

/-- Sections that are read stay so when they are spread. -/
theorem Sections.Reads.spreads {s : Sections} {p : Parts} (h : s.Reads p) {text : List Char}
    (hspread : Spreads s.lexemes text) : ∃ s' : Sections, text = s'.text ∧ s'.Reads p := by
  obtain ⟨head, body, rfl, hhead, hbody⟩ := hspread.exists_mark
  obtain ⟨before, probability, rfl, hbefore, hprobability⟩ := exists_marked_of_spreads hhead
  obtain ⟨front, condition, rfl, hfront, hcondition⟩ := exists_marked_of_spreads hbefore
  refine ⟨⟨front, condition, probability, body⟩, rfl, ⟨h.front.spreads hfront,
    h.condition.spreads Expr.parse_eq_ok_of_spreads hcondition, h.probability.spreads hprobability,
    readSuccessor_of_spreads h.successor hbody, ?_, ?_, ?_⟩, ?_⟩
  · rw [hfront.mem_iff (by decide), Text.flatten_characters]
    exact h.no_colon
  · exact Element.free_of_spreads (Text.flatten_characters _) hfront (by decide) h.no_equals
  · intro hsome hnone hequals
    obtain rfl : probability = none := hnone
    have hsome' : s.condition.isSome := hcondition.isSome_eq.trans hsome
    rcases hbody.head '=' hequals with hblank | hfirst
    · exact absurd hblank (by decide)
    · rw [(Element.lexemes_spec isCut_expr.flatten_eq s.body).1] at hfirst
      exact h.gap hsome' hprobability.eq_none hfirst
  · intro hnone
    obtain rfl : probability = none := hnone
    show '~' ∉ front ++ marked ':' condition ++ marked '~' none
    rw [hhead.mem_iff (by decide), s.flatten_headLexemes]
    exact h.no_tilde hprobability.eq_none

/-! ### The pieces -/

/-- The pieces into which a line is cut. -/
def IsLexeme (piece : List Char) : Prop :=
  Expr.IsLexeme piece ∨ ∃ x, Entry.float? piece = some x

theorem isLexeme_of_mem_characters {text piece : List Char} (h : piece ∈ characters text) :
    IsLexeme piece := by
  obtain ⟨c, -, rfl⟩ := List.mem_map.1 h
  exact .inl (.inl ⟨c, rfl⟩)

/-- The lexemes of a successor are single characters, numbers and operators. -/
theorem isLexeme_of_mem_successor {body piece : List Char}
    (h : piece ∈ Element.lexemes (Expr.lexemes true) body) : IsLexeme piece := by
  rcases (Element.lexemes_spec isCut_expr.flatten_eq body).2 piece h with hsingle | ⟨param, hparam⟩
  · exact .inl (.inl hsingle)
  · exact .inl ((Expr.lexemes_spec true param).2 piece hparam)

theorem isLexeme_of_mem_marked {mark : Char} {cut : List Char → List (List Char)}
    {part : Option (List Char)}
    (h : ∀ text, part = some text → ∀ piece ∈ cut text, IsLexeme piece) :
    ∀ piece ∈ markedLexemes mark cut part, IsLexeme piece := by
  cases part with
  | none => exact fun piece hpiece => absurd hpiece List.not_mem_nil
  | some text => exact List.forall_mem_cons.2 ⟨.inl (.inl ⟨mark, rfl⟩), h text rfl⟩

/-- What stands between the blanks of a probability is a number. -/
theorem isLexeme_of_mem_probability {part : Option (List Char)} {x : Float}
    (h : IsProbability part x) {text : List Char} (hpart : part = some text) :
    ∀ piece ∈ tokenLexemes text, IsLexeme piece := by
  rw [hpart] at h
  exact List.forall_mem_append.2 ⟨fun _ => isLexeme_of_mem_characters,
    List.forall_mem_cons.2 ⟨.inr ⟨x, h⟩, fun _ => isLexeme_of_mem_characters⟩⟩

/-- The lexemes of a line are single characters, numbers and operators. -/
theorem Sections.Reads.isLexeme {s : Sections} {p : Parts} (h : s.Reads p) :
    ∀ piece ∈ s.lexemes, IsLexeme piece := by
  have hcondition := @isLexeme_of_mem_marked ':' (Expr.lexemes true) s.condition
    fun text _ piece hpiece => .inl ((Expr.lexemes_spec true text).2 piece hpiece)
  have hprobability := @isLexeme_of_mem_marked '~' tokenLexemes s.probability
    fun _ => isLexeme_of_mem_probability h.probability
  have hhead : ∀ piece ∈ s.headLexemes, IsLexeme piece :=
    List.forall_mem_append.2 ⟨List.forall_mem_append.2 ⟨fun _ => isLexeme_of_mem_characters,
      hcondition⟩, hprobability⟩
  exact List.forall_mem_append.2 ⟨hhead, List.forall_mem_cons.2 ⟨.inl (.inl ⟨'=', rfl⟩),
    fun _ => isLexeme_of_mem_successor⟩⟩

/-- Layout does not matter. A line that is read is cut into single characters, whole numbers and
whole operators, and with any blanks before, between and after these it is read as the same
production. -/
theorem parse_of_spreads {line : List Char} {p : Production} (h : parse line = .ok p) :
    (lexemes line).flatten = line ∧ (∀ piece ∈ lexemes line, IsLexeme piece) ∧
      ∀ line', Spreads (lexemes line) line' → parse line' = .ok p := by
  obtain ⟨s, hs, rfl, hreads⟩ := exists_reads_of_parse h
  have hlexemes : lexemes s.text = s.lexemes := by
    rw [lexemes, hs]
  rw [hlexemes]
  refine ⟨s.flatten_lexemes, hreads.isLexeme, fun line' hspread => ?_⟩
  obtain ⟨s', hline', hreads'⟩ := hreads.spreads hspread
  exact parse_eq_ok.2 ⟨s', hline'.symm, hreads'⟩

/-- The production `A(x):x>=-1~0.5=B(x*-1)`. -/
def mirror : Production where
  predecessor := ⟨'A', ⟨["x"], by decide⟩⟩
  condition := some (.binary .ge (.var "x") (.number (-1.0)))
  probability := 0.5
  successor := [⟨'B', ⟨[.binary .mul (.var "x") (.number (-1.0))], by decide⟩⟩]
  wellFormed := ⟨by decide, by decide, by decide, by decide⟩

/-- This production can be written. -/
theorem isReadable_mirror : mirror.IsReadable where
  left := nofun
  predecessor := ⟨by unfold Element.IsSymbol; decide, by decide⟩
  right := nofun
  condition := fun e he => by
    cases he
    exact ⟨⟨'x', by decide, rfl⟩, rfl⟩
  successor_symbol := List.forall_mem_singleton.2 (by unfold Element.IsSymbol; decide)
  successor_params :=
    List.forall_mem_singleton.2 (List.forall_mem_singleton.2 ⟨⟨'x', by decide, rfl⟩, rfl⟩)

/-- It is read with a blank before every piece; its numbers keep their signs. -/
theorem parse_of_spreads_mirror :
    parse "A(x):x>=-1~0.5=B(x*-1)".toList = .ok mirror ∧
      lexemes "A(x):x>=-1~0.5=B(x*-1)".toList =
        ["A", "(", "x", ")", ":", "x", ">=", "-1", "~", "0.5", "=", "B", "(", "x", "*", "-1",
          ")"].map String.toList ∧
      parse " A ( x ) : x >= -1 ~ 0.5 = B ( x * -1 )".toList = .ok mirror := by
  have htext : mirror.text = "A(x):x>=-1~0.5=B(x*-1)".toList := by decide +kernel
  have hhalf : (0.5 : Float) ≠ 1.0 := fun h => absurd (congrArg (· == (1.0 : Float)) h) (by decide)
  have hread : parse "A(x):x>=-1~0.5=B(x*-1)".toList = .ok mirror := by
    rw [← htext]
    exact parse_text_of_isReadable isReadable_mirror fun hloose => hhalf hloose.1
  have hspread := Text.spreads_spaced (lexemes "A(x):x>=-1~0.5=B(x*-1)".toList)
  have hspaced : ((lexemes "A(x):x>=-1~0.5=B(x*-1)".toList).flatMap fun piece => ' ' :: piece) =
      " A ( x ) : x >= -1 ~ 0.5 = B ( x * -1 )".toList := by
    decide +kernel
  rw [hspaced] at hspread
  exact ⟨hread, by decide +kernel, (parse_of_spreads hread).2.2 _ hspread⟩

end Lindenmayer.Production
