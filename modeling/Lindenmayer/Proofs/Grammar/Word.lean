import Lindenmayer.Proofs.Grammar.Line

/-!
# Reading back written axioms

A number is written as a literal, which is a constant, except for NaN, which no text stands for. So
an axiom is read back just if none of its parameters is NaN.
-/

namespace Lindenmayer

open Element (IsSolid IsSymbol IsWritable)

theorem shortText_of_isNaN {x : Float} (h : x.isNaN) : shortText x = ['n', 'a', 'n'] :=
  if_pos (Binary64.isNaN_iff.1 h)

/-- The characters with which numbers are written. -/
theorem mem_shortText {x : Float} {c : Char} (hc : c ∈ shortText x) :
    Text.isDigit c ∨ c.isAlpha ∨ c ∈ ['+', '-', '.'] := by
  cases hnan : x.isNaN with
  | true =>
    rw [shortText_of_isNaN hnan] at hc
    have hall : ∀ c ∈ ['n', 'a', 'n'], c.isAlpha = true := Text.forall_mem_of_all (by decide)
    exact .inr (.inl (hall c hc))
  | false =>
    obtain ⟨d, hliteral, -⟩ := Expr.exists_isLiteral hnan
    have hall : ∀ c ∈ ['+', '-', '.', 'e', 'E'], c.isAlpha ∨ c ∈ ['+', '-', '.'] :=
      Text.forall_mem_of_all (by decide)
    exact (hliteral.mem hc).imp_right (hall c)

theorem isSolid_shortText (x : Float) : IsSolid (shortText x) := by
  cases hnan : x.isNaN with
  | true =>
    rw [shortText_of_isNaN hnan]
    refine ⟨List.cons_ne_nil _ _, Text.forall_mem_of_all (by decide), by decide,
      Element.closes_of_not_mem (by decide) (by decide), fun c hc => ?_⟩
    obtain rfl : 'n' = c := Option.some.inj hc
    decide
  | false => exact Expr.Printable.isSolid (e := .number x) hnan

/-- The error of a formula that is a NaN: behind a letter no further one can be read. -/
def nanError : Error :=
  .formula (.unexpected 'a') 2 ['n', 'a', 'n']

theorem parse_nan : Expr.parse ['n', 'a', 'n'] = .error nanError := by cbv

/-- A constant is read back, unless it is NaN. -/
theorem readConstant_shortText {x value : Float} :
    readConstant (shortText x) = .ok value ↔ x.isNaN = false ∧ value = x := by
  cases hnan : x.isNaN with
  | true =>
    rw [shortText_of_isNaN hnan]
    refine ⟨fun h => ?_, fun h => absurd h.1 nofun⟩
    -- NaN is written with letters, of which only the first is read
    obtain ⟨e, he, -⟩ := bind_eq_ok.1 h
    rw [parse_nan] at he
    exact absurd he nofun
  | false =>
    have hparsed : Expr.parse (shortText x) = .ok (.number x) :=
      Expr.Printable.parse_text (e := .number x) hnan
    unfold readConstant
    rw [hparsed]
    constructor
    · intro h
      exact ⟨rfl, (Except.ok.inj h).symm⟩
    · rintro ⟨-, rfl⟩
      rfl

theorem readConstant_of_isNaN {x : Float} (h : x.isNaN) :
    readConstant (shortText x) = .error nanError := by
  rw [shortText_of_isNaN h, readConstant, parse_nan]
  rfl

/-- If there is a NaN among several constants, the first one is reported. -/
theorem mapM_readConstant_of_isNaN {values : List Float} (h : ∃ x ∈ values, x.isNaN) :
    (values.map shortText).mapM readConstant = .error nanError := by
  induction values with
  | nil => exact absurd h (by simp)
  | cons x values ih =>
    rw [List.map_cons, List.mapM_cons]
    cases hnan : x.isNaN with
    | true =>
      rw [readConstant_of_isNaN hnan]
      rfl
    | false =>
      obtain ⟨y, hy, hynan⟩ := h
      have hothers : ∃ y ∈ values, y.isNaN := by
        rcases List.mem_cons.1 hy with rfl | hy
        · exact absurd hynan (by rw [hnan]; decide)
        · exact ⟨y, hy, hynan⟩
      rw [readConstant_shortText.2 ⟨hnan, rfl⟩, ih hothers]
      rfl

namespace Word

/-- A word whose elements can be written. -/
def IsReadable (word : Word) : Prop :=
  word ≠ [] ∧ ∀ e ∈ word, IsSymbol e.symbol

/-- No parameter of the word is NaN. -/
def IsNumeric (word : Word) : Prop :=
  ∀ e ∈ word, ∀ x ∈ e.params.values, x.isNaN = false

theorem isReadable_of_parse {text : List Char} {word : Word} (h : parse text = .ok word) :
    word.IsReadable := by
  unfold parse at h
  obtain ⟨elements, hscanned, h⟩ := bind_eq_ok.1 h
  split at h
  · exact absurd h nofun
  · rename_i hempty
    obtain rfl : elements = word := Except.ok.inj h
    refine ⟨fun hnil => hempty ?_, (Element.scan_eq_ok.1 hscanned).isSymbol⟩
    rw [hnil, List.isEmpty_nil]

variable {word : Word}

theorem IsReadable.isWritable (h : word.IsReadable) {e : Element Float} (he : e ∈ word) :
    e.IsWritable :=
  ⟨h.2 e he, fun x _ => isSolid_shortText x⟩

/-- An axiom is read back just if it has no NaN. -/
theorem IsReadable.parse_text_eq_ok (h : word.IsReadable) {read : Word} :
    parse word.text = .ok read ↔ word.IsNumeric ∧ read = word := by
  have hscanned (hnumeric : word.IsNumeric) :
      Element.scan readConstant word.text = .ok word :=
    Element.scanFrom_elementsText (fun e he => h.isWritable he)
      (fun e he x hx => readConstant_shortText.2 ⟨hnumeric e he x hx, rfl⟩) _
  have hempty : word.isEmpty = false := by simpa using h.1
  unfold parse
  rw [bind_eq_ok]
  constructor
  · rintro ⟨elements, helements, hread⟩
    have hnumeric : word.IsNumeric := by
      intro e he x hx
      obtain ⟨value, hvalue⟩ := Element.exists_convert_of_scanFrom
        (fun e he => h.isWritable he) helements e he x hx
      exact (readConstant_shortText.1 hvalue).1
    rw [hscanned hnumeric] at helements
    obtain rfl := Except.ok.inj helements
    rw [hempty] at hread
    exact ⟨hnumeric, (Except.ok.inj hread).symm⟩
  · rintro ⟨hnumeric, rfl⟩
    refine ⟨read, hscanned hnumeric, ?_⟩
    rw [hempty]
    rfl

/-- If there is a NaN in written elements, the first one is reported. -/
theorem scanFrom_of_not_isNumeric (h : ∀ e ∈ word, e.IsWritable) (hnumeric : ¬word.IsNumeric)
    (whole : List Char) :
    Element.scanFrom readConstant whole (elementsText word) = .error nanError := by
  induction word with
  | nil => exact absurd (fun e he => absurd he List.not_mem_nil) hnumeric
  | cons e word ih =>
    obtain ⟨he, hothers⟩ := List.forall_mem_cons.1 h
    have hhere : elementsText (e :: word) = e.text ++ elementsText word := rfl
    rw [hhere, Element.scanFrom_text he whole (Element.dropBlanks_elementsText_ne hothers)]
    by_cases hfirst : ∃ x ∈ e.params.values, x.isNaN
    · have hvalues : (e.params.values.map Written.text).mapM readConstant = .error nanError :=
        mapM_readConstant_of_isNaN hfirst
      rw [hvalues]
      rfl
    · have hfirst : ∀ x ∈ e.params.values, x.isNaN = false := fun x hx =>
        Bool.eq_false_iff.2 fun hnan => hfirst ⟨x, hx, hnan⟩
      have hrest : ¬IsNumeric word := fun hrest =>
        hnumeric (List.forall_mem_cons.2 ⟨hfirst, hrest⟩)
      rw [Element.mapM_text_eq_ok fun x hx => readConstant_shortText.2 ⟨hfirst x hx, rfl⟩]
      show (Params.ofList e.params.values >>= _) = _
      rw [Element.ofList_eq_ok.2 rfl, ih hothers hrest]
      rfl

/-- An axiom with a NaN is rejected. -/
theorem IsReadable.parse_text_of_not_isNumeric (h : word.IsReadable)
    (hnumeric : ¬word.IsNumeric) : parse word.text = .error nanError := by
  have hscanned : Element.scan readConstant word.text = .error nanError :=
    scanFrom_of_not_isNumeric (fun e he => h.isWritable he) hnumeric word.text
  rw [parse, hscanned]
  rfl

/-- An axiom is written as a whole line, unless two slashes stand first. -/
theorem IsReadable.isWhole_text (h : word.IsReadable)
    (hcomment : ∀ rest, word.text ≠ '/' :: '/' :: rest) : Grammar.IsWhole word.text := by
  obtain ⟨e, others, rfl⟩ := List.exists_cons_of_ne_nil h.1
  refine (Grammar.isInline_elementsText fun e he => h.isWritable he).isWhole ?_ ?_
    (Grammar.not_isBlank_getLast_elementsText fun e he => h.isWritable he) hcomment
  · exact List.cons_ne_nil _ _
  · intro c hc
    obtain rfl : e.symbol = c := Option.some.inj hc
    exact (h.2 e List.mem_cons_self).1

end Word

end Lindenmayer
