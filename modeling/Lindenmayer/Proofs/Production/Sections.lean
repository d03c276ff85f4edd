import Lindenmayer.Proofs.Production.Reader

/-!
# The sections of a production line

A line has up to four sections: the front with the predecessor and its contexts, a condition, a
probability and the successor. A line is read just if it is made of sections that are read one by
one, and no mark in them cuts it in another place. Hence the symbols of a production that was read
are none of the marks at which the line was cut.
-/

namespace Lindenmayer.Production

open Element (Closes Free IsSymbol)
open Text (trim)

/-! ## Sections -/

/-- The sections of a line. -/
structure Sections where
  front : List Char
  condition : Option (List Char)
  probability : Option (List Char)
  body : List Char

namespace Sections

/-- What stands before the separator. -/
def head (s : Sections) : List Char :=
  s.front ++ marked ':' s.condition ++ marked '~' s.probability

/-- The whole line. -/
def text (s : Sections) : List Char :=
  s.head ++ '=' :: s.body

/-- The sections of a line that has a separator. -/
def ofLine? (line : List Char) : Option Sections :=
  (splitAtSeparator 0 false line).map fun (head, body) =>
    let (before, probability) := cutProbability head
    let (front, condition) := cutCondition before
    { front, condition, probability, body }

end Sections

/-! ## Fronts -/

/-- A front with the contexts and the predecessor that are read from it. -/
def IsFront (front : List Char) (p : Parts) : Prop :=
  ∃ middle middle', readLeft front = .ok (middle, p.left) ∧
    readRight front middle = .ok (middle', p.right) ∧ readFormal middle' = .ok p.predecessor

/-- A front without contexts consists of the predecessor. -/
theorem isFront_of_readFormal {front : List Char} {p : Parts} (hleft : p.left = none)
    (hright : p.right = none) (hfree : ∀ mark ∈ ['<', '>'], Free mark 0 front)
    (hpredecessor : readFormal front = .ok p.predecessor) : IsFront front p := by
  have hpieces : ∀ mark ∈ ['<', '>'], Element.splitOutside mark 0 front = [front] :=
    fun mark hmark => Element.splitOutside_of_free (hfree mark hmark)
  refine ⟨front, front, readLeft_eq_ok.2 ⟨none, hpieces '<' (by decide), ?_⟩,
    readRight_eq_ok.2 ⟨none, hpieces '>' (by decide), ?_⟩, hpredecessor⟩
  · rw [hleft]
    exact .none
  · rw [hright]
    exact .none

/-- What closes its parentheses piece by piece does so as a whole. -/
theorem closes_of_splitOutside {mark : Char} (hmark : mark ≠ '(' ∧ mark ≠ ')') {text : List Char}
    (h : ∀ piece ∈ Element.splitOutside mark 0 text, Closes 0 piece) : Closes 0 text := by
  generalize hpieces : Element.splitOutside mark 0 text = pieces at h
  induction pieces generalizing text with
  | nil => exact absurd hpieces (Element.splitOutside_ne_nil _ _ _)
  | cons piece pieces ih =>
    obtain ⟨hpiece, hothers⟩ := List.forall_mem_cons.1 h
    rcases Element.splitOutside_eq_cons hpieces with ⟨-, rfl, -⟩ | ⟨rest, rfl, -, -, hrest⟩
    · exact hpiece
    · exact hpiece.append ((Element.closes_other hmark.1 hmark.2).2 (ih hrest hothers))

/-- The pieces are free of the mark at which the text was cut, and of every other mark of which the
text is free. -/
theorem free_of_splitOutside {mark : Char} (hmark : mark ≠ '(' ∧ mark ≠ ')')
    {marks text : List Char} (hfree : ∀ c ∈ marks, Free c 0 text) :
    ∀ piece ∈ Element.splitOutside mark 0 text, ∀ c ∈ mark :: marks, Free c 0 piece := by
  generalize hpieces : Element.splitOutside mark 0 text = pieces
  induction pieces generalizing text with
  | nil => exact nofun
  | cons piece pieces ih =>
    rcases Element.splitOutside_eq_cons hpieces with
      ⟨rfl, rfl, hpiece⟩ | ⟨rest, rfl, hpiece, hdepth, hrest⟩
    · exact List.forall_mem_singleton.2 (List.forall_mem_cons.2 ⟨hpiece, hfree⟩)
    · -- behind the piece no parenthesis is open, and the mark opens none
      have hcut : ∀ c ∈ marks, Free c 0 piece ∧ Free c 0 rest := by
        intro c hc
        obtain ⟨hbefore, -, hafter⟩ := Element.free_append.1 (hfree c hc)
        rw [hdepth, Element.nest_other 0 hmark.1 hmark.2] at hafter
        exact ⟨hbefore, hafter⟩
      refine List.forall_mem_cons.2 ⟨List.forall_mem_cons.2 ⟨hpiece, fun c hc => (hcut c hc).1⟩, ?_⟩
      exact ih (fun c hc => (hcut c hc).2) hrest

/-- The text of an element closes its parentheses. -/
theorem closes_of_readFormal {text : List Char} {e : Element String} (h : readFormal text = .ok e) :
    Closes 0 text :=
  (Element.scan_eq_ok.1 (readFormal_eq_ok.1 h)).closes

/-- So does the text of a context, if there is one. -/
theorem closes_of_isPart {part : Option (List Char)} {context : Option (Element String)}
    (h : IsPart readFormal part context) : ∀ piece ∈ part.toList, Closes 0 piece := by
  cases h with
  | none => exact fun piece hpiece => absurd hpiece List.not_mem_nil
  | some he => exact List.forall_mem_singleton.2 (closes_of_readFormal he)

/-- A front closes its parentheses. -/
theorem IsFront.closes {front : List Char} {p : Parts} (h : IsFront front p) : Closes 0 front := by
  obtain ⟨middle, middle', hleft, hright, hpredecessor⟩ := h
  have hmiddle : Closes 0 middle := by
    obtain ⟨after, hpieces, hcontext⟩ := readRight_eq_ok.1 hright
    apply @closes_of_splitOutside '>' (by decide)
    rw [hpieces]
    exact List.forall_mem_cons.2 ⟨closes_of_readFormal hpredecessor, closes_of_isPart hcontext⟩
  obtain ⟨before, hpieces, hcontext⟩ := readLeft_eq_ok.1 hleft
  apply @closes_of_splitOutside '<' (by decide)
  rw [hpieces]
  exact List.forall_mem_append.2 ⟨closes_of_isPart hcontext, List.forall_mem_singleton.2 hmiddle⟩

/-! ## Symbols that are no marks -/

/-- A symbol that is none of the given marks. -/
def IsUnmarked (marks : List Char) (c : Char) : Prop :=
  IsSymbol c ∧ c ∉ marks

/-- Among fewer marks a symbol is still none of them. -/
theorem IsUnmarked.mono {marks marks' : List Char} {c : Char} (h : IsUnmarked marks c)
    (hsub : ∀ d ∈ marks', d ∈ marks) : IsUnmarked marks' c :=
  ⟨h.1, fun hmem => h.2 (hsub c hmem)⟩

/-- The symbol of an element is none of the marks of which its text is free. -/
theorem isUnmarked_of_readFormal {text : List Char} {e : Element String} {marks : List Char}
    (h : readFormal text = .ok e) (hfree : ∀ c ∈ marks, Free c 0 text) :
    IsUnmarked marks e.symbol := by
  have hscanned := Element.scan_eq_ok.1 (readFormal_eq_ok.1 h)
  refine ⟨hscanned.isSymbol e List.mem_cons_self, fun hmem => ?_⟩
  exact hscanned.ne_of_free (hfree _ hmem) e List.mem_cons_self rfl

/-- Nor is the symbol of a context, if there is one. -/
theorem isUnmarked_of_isPart {part : Option (List Char)} {context : Option (Element String)}
    {marks : List Char} (h : IsPart readFormal part context)
    (hfree : ∀ piece ∈ part.toList, ∀ c ∈ marks, Free c 0 piece) :
    ∀ e, context = some e → IsUnmarked marks e.symbol := by
  cases h with
  | none => exact nofun
  | @some text _ he =>
    intro e heq
    obtain rfl := Option.some.inj heq
    exact isUnmarked_of_readFormal he (hfree text List.mem_cons_self)

section
variable {front marks : List Char} {p : Parts}

/-- The marks at which a front is cut, and those of which it is free, are no symbols of it; only the
left context, which is cut off first, may be the mark of the right one. -/
theorem IsFront.isUnmarked (h : IsFront front p) (hfree : ∀ c ∈ marks, Free c 0 front) :
    (∀ e, p.left = some e → IsUnmarked ('<' :: marks) e.symbol) ∧
      IsUnmarked ('>' :: '<' :: marks) p.predecessor.symbol ∧
        ∀ e, p.right = some e → IsUnmarked ('>' :: '<' :: marks) e.symbol := by
  obtain ⟨middle, middle', hleft, hright, hpredecessor⟩ := h
  obtain ⟨before, hpieces, hcontext⟩ := readLeft_eq_ok.1 hleft
  obtain ⟨after, hpieces', hcontext'⟩ := readRight_eq_ok.1 hright
  have hfront := @free_of_splitOutside '<' (by decide) marks front hfree
  rw [hpieces, List.forall_mem_append, List.forall_mem_singleton] at hfront
  have hmiddle := @free_of_splitOutside '>' (by decide) ('<' :: marks) middle hfront.2
  rw [hpieces', List.forall_mem_cons] at hmiddle
  exact ⟨isUnmarked_of_isPart hcontext hfront.1, isUnmarked_of_readFormal hpredecessor hmiddle.1,
    isUnmarked_of_isPart hcontext' hmiddle.2⟩

end

/-! ## Sections that are read -/

/-- Sections that are read as the parts of a production and between which the separator is found. -/
structure Sections.Shows (s : Sections) (p : Parts) : Prop where
  front : IsFront s.front p
  condition : IsPart Expr.parse s.condition p.condition
  probability : IsProbability s.probability p.probability
  successor : readSuccessor s.body = .ok p.successor
  no_colon : ':' ∉ s.front
  no_equals : Free '=' 0 s.front
  /-- The separator is not the first sign of a comparison. -/
  gap : s.condition.isSome → s.probability = none → s.body.head? ≠ some '='

/-- Sections at which the head is cut, too: no tilde takes the place of a missing probability. -/
structure Sections.Reads (s : Sections) (p : Parts) : Prop extends s.Shows p where
  no_tilde : s.probability = none → '~' ∉ s.head

/-! ### The separator -/

/-- A text that is read as a formula is passed as a whole. -/
theorem passes_of_parse {text : List Char} {e : Expr} (h : Expr.parse text = .ok e) :
    Passes true text := by
  obtain ⟨formula, blanks, hformula, hblanks, rfl⟩ := Expr.isFormula_of_parse h
  exact (passes_of_derives hformula).append (passes_blanks hblanks)

/-- No mark occurs in a section of a probability. -/
theorem not_mark_of_float? {text : List Char} {x : Float} (h : Entry.float? (trim text) = some x) :
    ∀ c ∈ text, c ∉ ['(', ')', ':', '~', '=', '<', '>'] := by
  have hall : ∀ c ∈ ['(', ')', ':', '~', '=', '<', '>'],
      ¬(Text.isDigit c = true ∨ c.isAlpha = true ∨ c ∈ ['+', '-', '.', '_']) :=
    Text.forall_mem_of_all (by decide)
  obtain ⟨front, back, hfront, hback, htext⟩ := Text.exists_blanks_trim text
  rw [htext]
  refine List.forall_mem_append.2 ⟨fun c hc => not_mark_of_isBlank (hfront c hc),
    List.forall_mem_append.2 ⟨fun c hc hmark => ?_, fun c hc => not_mark_of_isBlank (hback c hc)⟩⟩
  exact hall c hmark (Entry.mem_of_float? h hc)

/-- Behind a colon comparisons may occur. -/
theorem splitAtSeparator_condition {condition : Option (List Char)}
    (h : ∀ text, condition = some text → Passes true text) (rest : List Char) :
    splitAtSeparator 0 false (marked ':' condition ++ rest) =
      (splitAtSeparator 0 condition.isSome rest).map (prepend (marked ':' condition)) := by
  cases condition with
  | none => exact (map_prepend_nil _).symm
  | some text =>
    show splitAtSeparator 0 false (':' :: (text ++ rest)) = _
    rw [splitAtSeparator_colon, h text rfl, marked, map_prepend_cons ':' text]
    rfl

/-- Behind a tilde they may not. -/
theorem splitAtSeparator_probability {probability : Option (List Char)}
    (h : ∀ text, probability = some text → Passes false text) (inCondition : Bool)
    (rest : List Char) :
    splitAtSeparator 0 inCondition (marked '~' probability ++ rest) =
      (splitAtSeparator 0 (inCondition && probability.isNone) rest).map
        (prepend (marked '~' probability)) := by
  cases probability with
  | none =>
    rw [Option.isNone_none, Bool.and_true]
    exact (map_prepend_nil _).symm
  | some text =>
    rw [Option.isNone_some, Bool.and_false]
    show splitAtSeparator 0 inCondition ('~' :: (text ++ rest)) = _
    rw [splitAtSeparator_tilde, h text rfl, marked, map_prepend_cons '~' text]

section
variable {s : Sections} {p : Parts}

/-- The head is passed, section by section. -/
theorem splitAtSeparator_head (hfront : IsFront s.front p) (hcolon : ':' ∉ s.front)
    (hequals : Free '=' 0 s.front)
    (hcondition : IsPart Expr.parse s.condition p.condition)
    (hprobability : IsProbability s.probability p.probability) (rest : List Char) :
    splitAtSeparator 0 false (s.head ++ rest) =
      (splitAtSeparator 0 (s.condition.isSome && s.probability.isNone) rest).map
        (prepend s.head) := by
  have hpasses : ∀ text, s.condition = some text → Passes true text := by
    intro text htext
    rw [htext] at hcondition
    obtain ⟨e, he, -⟩ := hcondition.exists_read
    exact passes_of_parse he
  have hpasses' : ∀ text, s.probability = some text → Passes false text := by
    intro text htext
    rw [htext] at hprobability
    exact passes_plain (not_mark_of_float? hprobability)
  rw [Sections.head, List.append_assoc, List.append_assoc,
    passes_of_free hfront.closes hequals hcolon, splitAtSeparator_condition hpasses,
    splitAtSeparator_probability hpasses', map_prepend_append, map_prepend_append]

/-- A line is cut between its head and its body. -/
theorem Sections.Shows.splitAtSeparator_text (h : s.Shows p) :
    splitAtSeparator 0 false s.text = some (s.head, s.body) := by
  have hequals : splitAtSeparator 0 (s.condition.isSome && s.probability.isNone) ('=' :: s.body) =
      some ([], s.body) := by
    apply splitAtSeparator_equals
    rw [Bool.and_eq_false_iff, Option.isNone_eq_false_iff]
    by_cases hcondition : s.condition.isSome = true
    · cases hprobability : s.probability with
      | none =>
        right
        intro c hc heq
        exact h.gap hcondition hprobability (heq ▸ hc)
      | some text => exact .inl (.inr rfl)
    · exact .inl (.inl (Bool.eq_false_iff.2 hcondition))
  rw [Sections.text, splitAtSeparator_head h.front h.no_colon h.no_equals h.condition h.probability,
    hequals]
  simp [prepend]

/-! ### Reading -/

/-- What is not written as a probability has no tilde, and a number has none either. -/
theorem Sections.Reads.cutProbability_head (h : s.Reads p) :
    cutProbability s.head = (s.front ++ marked ':' s.condition, s.probability) := by
  refine cutProbability_eq.2 ⟨rfl, ?_⟩
  have hprobability := h.probability
  cases hs : s.probability with
  | none => exact h.no_tilde hs
  | some text =>
    rw [hs] at hprobability
    exact fun hmem => not_mark_of_float? hprobability '~' hmem (by decide)

end

/-- A line of sections that are read is read as a production. -/
theorem Sections.Reads.parse_text {s : Sections} {p : Production} (h : s.Reads p.toParts) :
    parse s.text = .ok p := by
  obtain ⟨middle, middle', hleft, hright, hpredecessor⟩ := h.front
  have hprobability : readProbability s.head =
      .ok (s.front ++ marked ':' s.condition, p.probability) :=
    readProbability_eq_ok.2 ⟨s.probability, h.cutProbability_head, h.probability⟩
  have hcondition : readCondition (s.front ++ marked ':' s.condition) =
      .ok (s.front, p.condition) :=
    readCondition_eq_ok.2 ⟨s.condition, cutCondition_eq.2 ⟨rfl, h.no_colon⟩, h.condition⟩
  rw [parse_of_splitAtSeparator h.splitAtSeparator_text]
  exact bind_eq_ok.2 ⟨_, hprobability, bind_eq_ok.2 ⟨_, hcondition, bind_eq_ok.2 ⟨_, hleft,
    bind_eq_ok.2 ⟨_, hright, bind_eq_ok.2 ⟨_, hpredecessor, bind_eq_ok.2 ⟨_, h.successor,
      ofParts_toParts p⟩⟩⟩⟩⟩⟩

/-- If the head is passed and the line is cut right behind it, no comparison begins there. -/
theorem head?_ne_of_splitAtSeparator {text head body : List Char} {inCondition : Bool}
    (hpassed : splitAtSeparator 0 false text =
      (splitAtSeparator 0 inCondition ('=' :: body)).map (prepend head))
    (h : splitAtSeparator 0 false text = some (head, body)) (hmode : inCondition = true) :
    body.head? ≠ some '=' := by
  intro hbody
  obtain ⟨rest, rfl⟩ : ∃ rest, body = '=' :: rest := by
    cases body with
    | nil => exact absurd hbody nofun
    | cons c rest => exact ⟨rest, by rw [Option.some.inj hbody]⟩
  rw [hmode, splitAtSeparator_comparison (by decide), h] at hpassed
  cases hrest : splitAtSeparator 0 true rest with
  | none =>
    rw [hrest] at hpassed
    exact absurd hpassed nofun
  | some split =>
    -- the comparison would belong to the head
    rw [hrest] at hpassed
    have hlength := congrArg (fun split => split.1.length) (Option.some.inj hpassed)
    simp [prepend] at hlength

/-- What stands before the condition is free of the separator. -/
theorem free_of_head {front rest body text : List Char}
    (h : splitAtSeparator 0 false text = some (front ++ rest, body)) (hcolon : ':' ∉ front) :
    Free '=' 0 front := by
  have hfree := free_of_splitAtSeparator h
  rw [List.takeWhile_append_of_pos] at hfree
  · exact (Element.free_append.1 hfree).1
  · intro c hc
    rw [bne_iff_ne]
    rintro rfl
    exact hcolon hc

/-- A line that is read has sections that are read. -/
theorem exists_reads_of_parse {line : List Char} {p : Production} (h : parse line = .ok p) :
    ∃ s, Sections.ofLine? line = some s ∧ s.text = line ∧ s.Reads p.toParts := by
  obtain ⟨head, body, hsplit⟩ := exists_split_of_parse h
  rw [parse_of_splitAtSeparator hsplit, bind_eq_ok] at h
  obtain ⟨⟨before, probability⟩, hprobability, h₁⟩ := h
  obtain ⟨⟨front, condition⟩, hcondition, h₂⟩ := bind_eq_ok.1 h₁
  obtain ⟨⟨middle, left⟩, hleft, h₃⟩ := bind_eq_ok.1 h₂
  obtain ⟨⟨middle', right⟩, hright, h₄⟩ := bind_eq_ok.1 h₃
  obtain ⟨predecessor, hpredecessor, h₅⟩ := bind_eq_ok.1 h₄
  obtain ⟨successor, hsuccessor, hparts⟩ := bind_eq_ok.1 h₅
  obtain ⟨text, hcut, hvalue⟩ := readProbability_eq_ok.1 hprobability
  obtain ⟨text', hcut', hformula⟩ := readCondition_eq_ok.1 hcondition
  obtain ⟨rfl, htilde⟩ := Sections.cutProbability_eq.1 hcut
  obtain ⟨rfl, hcolon⟩ := Sections.cutCondition_eq.1 hcut'
  have hequals : Free '=' 0 front := by
    rw [List.append_assoc] at hsplit
    exact free_of_head hsplit hcolon
  rw [toParts_of_ofParts hparts]
  have hisFront : IsFront front
      { predecessor, successor, condition, probability, left, right } :=
    ⟨middle, middle', hleft, hright, hpredecessor⟩
  have htext := append_of_splitAtSeparator hsplit
  refine ⟨⟨front, text', text, body⟩, ?_, htext.symm,
    ⟨hisFront, hformula, hvalue, hsuccessor, hcolon, hequals, ?_⟩, ?_⟩
  · rw [Sections.ofLine?, hsplit, Option.map_some]
    simp only [hcut, hcut']
  · intro hsome hnone
    have hpassed := splitAtSeparator_head (s := ⟨front, text', text, body⟩) hisFront hcolon hequals
      hformula hvalue ('=' :: body)
    apply head?_ne_of_splitAtSeparator (htext ▸ hpassed) hsplit
    rw [hsome, hnone]
    rfl
  · rintro rfl
    exact htilde

/-- A line is read as a production just if it is made of sections that are read as its parts. -/
theorem parse_eq_ok {line : List Char} {p : Production} :
    parse line = .ok p ↔ ∃ s : Sections, s.text = line ∧ s.Reads p.toParts := by
  constructor
  · intro h
    obtain ⟨s, -, htext, hreads⟩ := exists_reads_of_parse h
    exact ⟨s, htext, hreads⟩
  · rintro ⟨s, rfl, hreads⟩
    exact hreads.parse_text

/-! ## Productions that have been read -/

/-- The marks that cut a head into its parts do not occur as symbols where they would cut it, and
all formulas have texts. -/
structure Parts.IsReadable (p : Parts) : Prop where
  left : ∀ e, p.left = some e → IsUnmarked ['=', ':', '<'] e.symbol
  predecessor : IsUnmarked ['=', ':', '<', '>'] p.predecessor.symbol
  right : ∀ e, p.right = some e → IsUnmarked ['=', ':', '<', '>'] e.symbol
  condition : ∀ e, p.condition = some e → e.Printable
  successor_symbol : ∀ e ∈ p.successor, IsSymbol e.symbol
  successor_params : ∀ e ∈ p.successor, ∀ param ∈ e.params.values, param.Printable

/-- Every production that is read is readable in this sense. -/
theorem isReadable_of_parse {line : List Char} {p : Production} (h : parse line = .ok p) :
    p.IsReadable := by
  obtain ⟨s, -, hreads⟩ := parse_eq_ok.1 h
  have hmarks : ∀ c ∈ ['=', ':'], Free c 0 s.front :=
    List.forall_mem_cons.2 ⟨hreads.no_equals,
      List.forall_mem_singleton.2 (Element.free_of_not_mem hreads.no_colon 0)⟩
  obtain ⟨hleft, hpredecessor, hright⟩ := hreads.front.isUnmarked hmarks
  have hscanned := readSuccessor_eq_ok.1 hreads.successor
  -- the marks of the front come in another order
  have hfirst : ∀ c ∈ ['=', ':', '<'], c ∈ ['<', '=', ':'] := Text.forall_mem_of_all (by decide)
  have hothers : ∀ c ∈ ['=', ':', '<', '>'], c ∈ ['>', '<', '=', ':'] :=
    Text.forall_mem_of_all (by decide)
  refine ⟨fun e he => (hleft e he).mono hfirst, hpredecessor.mono hothers,
    fun e he => (hright e he).mono hothers, fun e he => ?_, hscanned.isSymbol,
    fun e he param hparam => ?_⟩
  · obtain ⟨text, hformula⟩ := hreads.condition.exists_text he
    exact Expr.printable_of_parse hformula
  · obtain ⟨piece, hpiece⟩ := hscanned.exists_convert e he param hparam
    exact Expr.printable_of_parse hpiece

end Lindenmayer.Production
