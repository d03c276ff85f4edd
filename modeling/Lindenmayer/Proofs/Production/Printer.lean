import Lindenmayer.Proofs.Number.Layout
import Lindenmayer.Proofs.Production.Formal
import Lindenmayer.Proofs.Production.Sections

/-!
# Reading back written productions

The text of a production is made of sections that are read as its parts, so that a production that
has been read is read back from its text. There is one exception: a probability of 1 is not written,
and a tilde among the symbols of the head then takes the place of the mark before it.
-/

namespace Lindenmayer.Production

open Element (Closes Free)

/-! ## The text of a production and its parts -/

/-- The text of a left context. -/
def leftText : Option (Element String) → List Char
  | some e => e.text ++ ['<']
  | none => []

namespace Parts

/-- The elements of a head: the predecessor between the contexts that there are. -/
def head (p : Parts) : List (Element String) :=
  p.left.toList ++ p.predecessor :: p.right.toList

/-- The text of the elements of a head. -/
def headText (p : Parts) : List Char :=
  leftText p.left ++ (p.predecessor.text ++ marked '>' (p.right.map Element.text))

/-- What keeps a condition and a successor apart. -/
def gap (p : Parts) : List Char :=
  if p.condition.isSome && p.probability == 1.0 && (elementsText p.successor).head? == some '='
  then [' ']
  else []

/-- The sections of the text of a production. -/
def sections (p : Parts) : Sections where
  front := p.headText
  condition := p.condition.map Expr.text
  probability := if p.probability == 1.0 then none else some (shortText p.probability)
  body := p.gap ++ elementsText p.successor

/-- The text of a production is made of these sections. -/
theorem text_eq (p : Parts) : p.text = p.sections.text := by
  obtain ⟨predecessor, successor, condition, probability, left, right⟩ := p
  unfold text Sections.text Sections.head sections headText gap
  -- each of the optional parts may be missing
  cases left <;> cases right <;> cases condition <;> cases hone : probability == 1.0 <;>
    simp [leftText]

variable {p : Parts} {e : Element String}

theorem mem_head : e ∈ p.head ↔ p.left = some e ∨ e = p.predecessor ∨ p.right = some e := by
  rw [head, List.mem_append, List.mem_cons, Option.mem_toList, Option.mem_toList]

theorem left_mem_head (hp : p.left = some e) : e ∈ p.head :=
  mem_head.2 (.inl hp)

theorem predecessor_mem_head : p.predecessor ∈ p.head :=
  mem_head.2 (.inr (.inl rfl))

theorem right_mem_head (hp : p.right = some e) : e ∈ p.head :=
  mem_head.2 (.inr (.inr hp))

/-- What is kept up by putting texts together holds of the text of a head if it holds of the texts
of its elements and of the marks between them. -/
theorem headText_induction {P : List Char → Prop}
    (happend : ∀ left right, P left → P right → P (left ++ right)) (hnil : P [])
    (helement : ∀ e ∈ p.head, P e.text) (hleft : P ['<']) (hright : P ['>']) :
    P p.headText := by
  have hleftText : P (leftText p.left) := by
    cases hp : p.left with
    | none => exact hnil
    | some e => exact happend _ _ (helement e (left_mem_head hp)) hleft
  have hrightText : P (marked '>' (p.right.map Element.text)) := by
    cases hp : p.right with
    | none => exact hnil
    | some e => exact happend ['>'] _ hright (helement e (right_mem_head hp))
  exact happend _ _ hleftText
    (happend _ _ (helement p.predecessor predecessor_mem_head) hrightText)

theorem mem_formals (he : e ∈ p.head) {name : String}
    (hname : name ∈ e.params.values) : name ∈ p.formals := by
  unfold formals
  simp only [List.mem_append]
  rcases mem_head.1 he with hleft | rfl | hright
  · rw [hleft]
    exact .inl (.inl hname)
  · exact .inl (.inr hname)
  · rw [hright]
    exact .inr hname

end Parts

variable {p : Production}

theorem isFormal_of_mem_head (h : p.IsReadable) {e : Element String} (he : e ∈ p.head) :
    IsFormal e := by
  refine ⟨?_, fun name hname => p.wellFormed.formals_letters name (Parts.mem_formals he hname)⟩
  rcases Parts.mem_head.1 he with hleft | rfl | hright
  · exact (h.left e hleft).1
  · exact h.predecessor.1
  · exact (h.right e hright).1

theorem isWritable_of_mem_successor (h : p.IsReadable) {e : Element Expr}
    (he : e ∈ p.successor) : e.IsWritable :=
  ⟨h.successor_symbol e he, fun param hparam => (h.successor_params e he param hparam).isSolid⟩

/-- No element of the head has a symbol at which the head would be cut. -/
theorem symbol_ne_of_mem_head (h : p.IsReadable) {e : Element String} (he : e ∈ p.head) {c : Char}
    (hc : c ∈ ['=', ':', '<']) : e.symbol ≠ c := by
  rintro rfl
  rcases Parts.mem_head.1 he with hleft | rfl | hright
  · exact (h.left e hleft).2 hc
  · exact h.predecessor.2 (List.mem_append_left ['>'] hc)
  · exact (h.right e hright).2 (List.mem_append_left ['>'] hc)

/-! ## Sections -/

/-- The probability of a production is no NaN. -/
theorem exists_isLiteral_probability (p : Production) :
    ∃ d : Decimal, Literal.IsLiteral (shortText p.probability) d ∧ d.toFloat = p.probability :=
  isLiteral_shortText (Binary64.code_le_infinity_of_le p.wellFormed.probability_le_one)

/-- A production loses its probability of 1 to the tilde among the symbols of its head. -/
def Parts.HasLooseTilde (p : Parts) : Prop :=
  p.probability = 1.0 ∧ ∃ e ∈ p.head, e.symbol = '~'

/-- A mark occurs in a written head only as a symbol. -/
theorem not_mem_headText (h : p.IsReadable) {c : Char} (hletter : ¬c.isAlpha)
    (hmark : c ∉ ['(', ')', ',', ' ', '<', '>']) (hne : ∀ e ∈ p.head, e.symbol ≠ c) :
    c ∉ p.headText := by
  simp only [List.mem_cons, List.not_mem_nil, or_false, not_or] at hmark
  refine Parts.headText_induction (P := (c ∉ ·)) (fun left right hleft hright => ?_)
    List.not_mem_nil (fun e he => ?_) (by simp [hmark]) (by simp [hmark])
  · rw [List.mem_append, not_or]
    exact ⟨hleft, hright⟩
  · exact (isFormal_of_mem_head h he).not_mem_text hletter (by simp [hmark]) (hne e he)

/-- A written condition consists of the colon and the characters of a formula. -/
theorem not_mem_conditionText (h : p.IsReadable) {c : Char} (hc : ¬Expr.IsFormulaChar c)
    (hcolon : c ≠ ':') : c ∉ marked ':' (p.condition.map Expr.text) := by
  cases hp : p.condition with
  | none => exact List.not_mem_nil
  | some e =>
    rw [Option.map_some, marked_some, List.mem_cons, not_or]
    exact ⟨hcolon, (h.condition e hp).not_mem_text hc⟩

/-- An element of a head has no mark outside its parentheses that is not its symbol. -/
theorem free_text_of_mem_head (h : p.IsReadable) {e : Element String} (he : e ∈ p.head)
    {mark : Char} (hne : e.symbol ≠ mark) (hopen : mark ≠ '(') : Free mark 0 e.text :=
  (isFormal_of_mem_head h he).isWritable.free hne hopen

/-- No separator stands in a written head. -/
theorem free_headText (h : p.IsReadable) : Free '=' 0 p.headText := by
  have hall : Closes 0 p.headText ∧ Free '=' 0 p.headText := by
    refine Parts.headText_induction (P := fun text => Closes 0 text ∧ Free '=' 0 text) ?_
      ⟨Element.closes_nil.2 rfl, trivial⟩ (fun e he => ?_) ?_ ?_
    · rintro left right ⟨hleft, hfree⟩ ⟨hright, hfree'⟩
      refine ⟨hleft.append hright, Element.free_append.2 ⟨hfree, ?_⟩⟩
      rwa [hleft.depthAfter_self]
    · exact ⟨(isFormal_of_mem_head h he).isWritable.closes,
        free_text_of_mem_head h he (symbol_ne_of_mem_head h he (by decide)) (by decide)⟩
    · exact ⟨Element.closes_of_not_mem (by decide) (by decide),
        Element.free_of_not_mem (by decide) 0⟩
    · exact ⟨Element.closes_of_not_mem (by decide) (by decide),
        Element.free_of_not_mem (by decide) 0⟩
  exact hall.2

/-- At the end of an element of the head no parenthesis is open. -/
theorem depthAfter_of_mem_head (h : p.IsReadable) {e : Element String} (he : e ∈ p.head) :
    Element.depthAfter 0 e.text = 0 :=
  (isFormal_of_mem_head h he).isWritable.closes.depthAfter_self 0

/-- A head is cut behind the left context. -/
theorem splitOutside_headText (h : p.IsReadable) :
    Element.splitOutside '<' 0 p.headText = (p.left.map Element.text).toList ++
      [p.predecessor.text ++ marked '>' (p.right.map Element.text)] := by
  have hfree {e : Element String} (he : e ∈ p.head) : Free '<' 0 e.text :=
    free_text_of_mem_head h he (symbol_ne_of_mem_head h he (by decide)) (by decide)
  -- behind the left context there is no further mark
  have hmiddle : Free '<' 0 (p.predecessor.text ++ marked '>' (p.right.map Element.text)) := by
    refine Element.free_append.2 ⟨hfree Parts.predecessor_mem_head, ?_⟩
    rw [depthAfter_of_mem_head h Parts.predecessor_mem_head]
    cases hp : p.right with
    | none => trivial
    | some e => exact ⟨by decide, hfree (Parts.right_mem_head hp)⟩
  unfold Parts.headText
  cases hp : p.left with
  | none => exact Element.splitOutside_of_free hmiddle
  | some e =>
    have he : e ∈ p.head := Parts.left_mem_head hp
    rw [leftText, List.append_assoc, List.singleton_append,
      Element.splitOutside_append (hfree he) (depthAfter_of_mem_head h he),
      Element.splitOutside_of_free hmiddle]
    rfl

/-- What follows the left context is cut in front of the right one. -/
theorem splitOutside_predecessorText (h : p.IsReadable) :
    Element.splitOutside '>' 0 (p.predecessor.text ++ marked '>' (p.right.map Element.text)) =
      p.predecessor.text :: (p.right.map Element.text).toList := by
  have hbefore : Free '>' 0 p.predecessor.text :=
    free_text_of_mem_head h Parts.predecessor_mem_head
      (fun heq => h.predecessor.2 (by rw [heq]; decide)) (by decide)
  cases hp : p.right with
  | none =>
    rw [Option.map_none, marked_none, List.append_nil]
    exact Element.splitOutside_of_free hbefore
  | some e =>
    have hafter : Free '>' 0 e.text :=
      free_text_of_mem_head h (Parts.right_mem_head hp)
        (fun heq => (h.right e hp).2 (by rw [heq]; decide)) (by decide)
    rw [Option.map_some, marked_some, Element.splitOutside_append hbefore
      (depthAfter_of_mem_head h Parts.predecessor_mem_head), Element.splitOutside_of_free hafter]
    rfl

/-- The contexts and the predecessor are read from the text of the head. -/
theorem isFront_headText (h : p.IsReadable) : IsFront p.headText p.toParts := by
  have hread {e : Element String} (he : e ∈ p.head) : readFormal e.text = .ok e :=
    (isFormal_of_mem_head h he).readFormal_text
  exact ⟨_, _,
    readLeft_eq_ok.2 ⟨_, splitOutside_headText h,
      isPart_map fun e he => hread (Parts.left_mem_head he)⟩,
    readRight_eq_ok.2 ⟨_, splitOutside_predecessorText h,
      isPart_map fun e he => hread (Parts.right_mem_head he)⟩,
    hread Parts.predecessor_mem_head⟩

/-- The probability is read from its text, and is 1 if there is none. -/
theorem isProbability_sections (p : Production) :
    IsProbability p.sections.probability p.probability := by
  unfold Parts.sections
  cases hone : p.probability == 1.0 with
  | true => exact Binary64.eq_one_of_beq hone
  | false =>
    obtain ⟨d, hliteral, hvalue⟩ := exists_isLiteral_probability p
    have hprobability := isProbability_of_isLiteral hliteral Text.isBlanks_nil
    rwa [List.append_nil, hvalue] at hprobability

/-- Elements are read as a successor, whatever blanks stand in front of them. -/
theorem readSuccessor_elementsText {blanks : List Char} (hblanks : Text.IsBlanks blanks)
    {successor : List (Element Expr)} (hwritable : ∀ e ∈ successor, e.IsWritable)
    (hparams : ∀ e ∈ successor, ∀ param ∈ e.params.values, param.Printable) :
    readSuccessor (blanks ++ elementsText successor) = .ok successor := by
  have hscanned : Element.scan Expr.parse (elementsText successor) = .ok successor :=
    Element.scanFrom_elementsText hwritable
      (fun e he param hparam => (hparams e he param hparam).parse_text) _
  exact readSuccessor_eq_ok.2 (.blanks hblanks (Element.scan_eq_ok.1 hscanned))

/-- The gap consists of blanks. -/
theorem Parts.isBlanks_gap (p : Parts) : Text.IsBlanks p.gap := by
  unfold gap
  split
  · exact Text.isBlanks_space
  · exact Text.isBlanks_nil

/-- The gap keeps the separator from becoming part of a comparison. -/
theorem head?_body_ne (hsome : p.condition.isSome) (hone : (p.probability == 1.0) = true) :
    (p.gap ++ elementsText p.successor).head? ≠ some '=' := by
  unfold Parts.gap
  rw [hsome, hone, Bool.and_self, Bool.true_and]
  split
  · rw [List.singleton_append, List.head?_cons]
    decide
  · rename_i hhead
    exact fun heq => hhead (by rw [List.nil_append] at heq; rw [heq]; rfl)

/-- The text of a production shows its parts. -/
theorem shows_sections (h : p.IsReadable) : p.sections.Shows p.toParts where
  front := isFront_headText h
  condition := isPart_map fun e he => (h.condition e he).parse_text
  probability := isProbability_sections p
  successor := readSuccessor_elementsText (Parts.isBlanks_gap _)
    (fun e he => isWritable_of_mem_successor h he) h.successor_params
  no_colon :=
    not_mem_headText h (by decide) (by decide) fun e he => symbol_ne_of_mem_head h he (by decide)
  no_equals := free_headText h
  gap := fun hsome hnone => by
    refine head?_body_ne (by rwa [Parts.sections, Option.isSome_map] at hsome) ?_
    by_contra hone
    rw [Parts.sections, if_neg hone] at hnone
    exact absurd hnone nofun

/-- It is read as them, too, if no tilde is loose. -/
theorem reads_sections (h : p.IsReadable) (hloose : ¬p.HasLooseTilde) :
    p.sections.Reads p.toParts where
  toShows := shows_sections h
  no_tilde := fun hnone => by
    have hone : p.probability = 1.0 := by
      have hvalue := isProbability_sections p
      rwa [hnone] at hvalue
    rw [Sections.head, hnone, marked_none, List.append_nil, List.mem_append, not_or]
    refine ⟨not_mem_headText h (by decide) (by decide) fun e he hsymbol => ?_,
      not_mem_conditionText h (by decide) (by decide)⟩
    exact hloose ⟨hone, e, he, hsymbol⟩

/-- A production that has been read is read back from its text, unless a tilde among the symbols of
its head takes the place of the mark of a probability. -/
theorem parse_text_of_isReadable (h : p.IsReadable) (hloose : ¬p.HasLooseTilde) :
    parse p.text = .ok p := by
  rw [Parts.text_eq]
  exact (reads_sections h hloose).parse_text

/-! ## Loose tildes -/

/-- What follows a tilde among the symbols of a head is no probability. -/
theorem readProbability_tilde {e : Element String} (he : IsFormal e) (hsymbol : e.symbol = '~')
    (before : List Char) {rest : List Char} (hrest : '~' ∉ rest)
    (hmark : ∀ c ∈ rest.head?, c ∈ ['<', '>', ':']) :
    ∃ text, readProbability (before ++ (e.text ++ rest)) =
      .error (.grammar (.probabilityText text)) := by
  have hparams : '~' ∉ e.params.text := he.not_mem_params (by decide) (by decide)
  have hafter : '~' ∉ e.params.text ++ rest := by
    rw [List.mem_append, not_or]
    exact ⟨hparams, hrest⟩
  have hcut : Sections.cutProbability (before ++ (e.text ++ rest)) =
      (before, some (e.params.text ++ rest)) := by
    refine Sections.cutProbability_eq.2 ⟨?_, hafter⟩
    rw [Element.text, hsymbol, List.cons_append, marked_some]
  -- nothing, a parenthesis or a mark follows, none of which begins a number
  have hempty : Entry.float? (Text.trim (e.params.text ++ rest)) = none := by
    have hhead : ∀ c ∈ (e.params.text ++ rest).head?, c ∈ ['(', '<', '>', ':'] := by
      intro c hc
      unfold Params.text at hc
      split at hc
      · exact List.mem_cons_of_mem _ (hmark c hc)
      · obtain rfl : '(' = c := Option.some.inj hc
        exact List.mem_cons_self
    cases htext : e.params.text ++ rest with
    | nil => rfl
    | cons c tail =>
      have hc : c ∈ ['(', '<', '>', ':'] := hhead c (by rw [htext]; rfl)
      have hall : ∀ c ∈ ['(', '<', '>', ':'], Text.isBlank c = false ∧ Text.isDigit c = false ∧
          c.isAlpha = false ∧ c ∉ ['+', '-', '.', '_'] :=
        Text.forall_mem_of_all (by decide)
      obtain ⟨hblank, hdigit, hletter, hsign⟩ := hall c hc
      obtain ⟨tail', htrim⟩ :=
        Text.exists_trim_cons (Bool.eq_false_iff.1 hblank) tail
      rw [htrim]
      exact Entry.float?_of_head (Bool.eq_false_iff.1 hdigit) (Bool.eq_false_iff.1 hletter)
        hsign tail'
  exact ⟨_, readProbability_of_cut hcut hempty⟩

/-- If any symbol of a head is a tilde, the last tilde of the head and its condition is a symbol,
behind which nothing or a mark follows. -/
theorem exists_last_tilde (h : p.IsReadable) {e : Element String} (he : e ∈ p.head)
    (hsymbol : e.symbol = '~') :
    ∃ f ∈ p.head, f.symbol = '~' ∧ ∃ before rest,
      p.headText ++ marked ':' (p.condition.map Expr.text) = before ++ (f.text ++ rest) ∧
        '~' ∉ rest ∧ ∀ c ∈ rest.head?, c ∈ ['<', '>', ':'] := by
  have htext {f : Element String} (hf : f ∈ p.head) (hne : f.symbol ≠ '~') : '~' ∉ f.text :=
    (isFormal_of_mem_head h hf).not_mem_text (by decide) (by decide) hne
  have hcondition : '~' ∉ marked ':' (p.condition.map Expr.text) :=
    not_mem_conditionText h (by decide) (by decide)
  have hcolon : ∀ c ∈ (marked ':' (p.condition.map Expr.text)).head?, c ∈ ['<', '>', ':'] := by
    intro c hc
    rw [head?_marked c hc]
    decide
  generalize marked ':' (p.condition.map Expr.text) = condition at hcondition hcolon ⊢
  unfold Parts.headText
  -- the tildes are tried from the last to the first
  by_cases hright : ∃ f, p.right = some f ∧ f.symbol = '~'
  · obtain ⟨f, hp, hf⟩ := hright
    exact ⟨f, Parts.right_mem_head hp, hf, leftText p.left ++ (p.predecessor.text ++ ['>']),
      condition, by simp [hp], hcondition, hcolon⟩
  have hrest : '~' ∉ marked '>' (p.right.map Element.text) ++ condition := by
    rw [List.mem_append, not_or]
    refine ⟨?_, hcondition⟩
    cases hp : p.right with
    | none => exact List.not_mem_nil
    | some f =>
      rw [Option.map_some, marked_some, List.mem_cons, not_or]
      exact ⟨by decide, htext (Parts.right_mem_head hp) fun hf => hright ⟨f, hp, hf⟩⟩
  by_cases hpredecessor : p.predecessor.symbol = '~'
  · refine ⟨p.predecessor, Parts.predecessor_mem_head, hpredecessor, leftText p.left, _, by simp,
      hrest, fun c hc => ?_⟩
    rw [List.head?_append, Option.mem_def, Option.or_eq_some_iff] at hc
    rcases hc with hc | ⟨-, hc⟩
    · rw [head?_marked c hc]
      decide
    · exact hcolon c hc
  · have hleft : p.left = some e := by
      rcases Parts.mem_head.1 he with hp | rfl | hp
      · exact hp
      · exact absurd hsymbol hpredecessor
      · exact absurd ⟨e, hp, hsymbol⟩ hright
    have hafter : '~' ∉ '<' :: (p.predecessor.text ++
        (marked '>' (p.right.map Element.text) ++ condition)) := by
      rw [List.mem_cons, List.mem_append, not_or, not_or]
      exact ⟨by decide, htext Parts.predecessor_mem_head hpredecessor, hrest⟩
    refine ⟨e, he, hsymbol, [], _, by simp [hleft, leftText], hafter, fun c hc => ?_⟩
    obtain rfl : '<' = c := Option.some.inj hc
    decide

/-- With a tilde among the symbols of the head, the text of a production of probability 1 cannot be
read. -/
theorem parse_text_of_hasLooseTilde (h : p.IsReadable) (hloose : p.HasLooseTilde) :
    ∃ text, parse p.text = .error (.grammar (.probabilityText text)) := by
  obtain ⟨hone, e, he, hsymbol⟩ := hloose
  obtain ⟨f, hf, hsymbol, before, rest, hlast, hrest, hmark⟩ := exists_last_tilde h he hsymbol
  obtain ⟨text, hread⟩ :=
    readProbability_tilde (isFormal_of_mem_head h hf) hsymbol before hrest hmark
  have hprobability : p.sections.probability = none := by
    unfold Parts.sections
    rw [hone]
    rfl
  have hhead : p.sections.head = before ++ (f.text ++ rest) := by
    rw [Sections.head, hprobability, marked_none, List.append_nil]
    exact hlast
  refine ⟨text, ?_⟩
  rw [Parts.text_eq, parse_of_splitAtSeparator (shows_sections h).splitAtSeparator_text, hhead,
    hread]
  rfl

/-- The text of a production that was read from a line gives the same production, except that it is
rejected if it leaves out a probability of 1 and a symbol of the head is a tilde. -/
theorem parse_text_of_parse {line : List Char} {p : Production} (h : parse line = .ok p) :
    (¬p.HasLooseTilde → parse p.text = .ok p) ∧
      (p.HasLooseTilde → ∃ text, parse p.text = .error (.grammar (.probabilityText text))) := by
  have hreadable := isReadable_of_parse h
  exact ⟨parse_text_of_isReadable hreadable, parse_text_of_hasLooseTilde hreadable⟩

/-- The production that replaces `A(x)` between the marks `>` and `~` by the marks `=` and `~`, with
the probability 0.5. -/
def marks : Production where
  predecessor := ⟨'A', ⟨["x"], Params.length_singleton_le "x"⟩⟩
  left := some (.plain '>')
  right := some (.plain '~')
  probability := 0.5
  successor := [.plain '=', .plain '~']
  wellFormed := ⟨by decide, by decide, by decide, by decide⟩

/-- The production that replaces a tilde by `A`, with the probability 1. -/
def tilde : Production where
  predecessor := .plain '~'
  successor := [.plain 'A']
  wellFormed := ⟨by decide, by decide, by decide, by decide⟩

/-- Marks that are symbols come through, and so does a tilde with a probability other than 1; the
text `~=A` is rejected. -/
theorem parse_text_of_parse_marks :
    ∃ p other : Production,
      parse ">< A(x) > ~ ~ .5 = =~".toList = .ok p ∧ parse p.text = .ok p ∧
      parse "~~1=A".toList = .ok other ∧
      ∃ text, parse other.text = .error (.grammar (.probabilityText text)) := by
  have hmarks : parse ">< A(x) > ~ ~ .5 = =~".toList = .ok marks :=
    toOption_eq_some.1 (by decide +kernel)
  have htilde : parse "~~1=A".toList = .ok tilde := toOption_eq_some.1 (by decide +kernel)
  have hhalf : (0.5 : Float) ≠ 1.0 := fun h => absurd (congrArg (· == (1.0 : Float)) h) (by decide)
  have hloose : tilde.HasLooseTilde := ⟨rfl, .plain '~', List.mem_cons_self, rfl⟩
  exact ⟨marks, tilde, hmarks, (parse_text_of_parse hmarks).1 fun hloose => hhalf hloose.1, htilde,
    (parse_text_of_parse htilde).2 hloose⟩

end Lindenmayer.Production
