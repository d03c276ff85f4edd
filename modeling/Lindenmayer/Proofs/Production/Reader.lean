import Lindenmayer.Proofs.Number.Entry
import Lindenmayer.Proofs.Production.Separator

/-!
# The readers of a production

A head is read from both ends: the probability and the condition are taken off its back, the left
context off its front, and the right context off what is left then. What each of the readers accepts
is said here, and nothing else looks into them. Both the probability and the condition are cut off
first and read afterwards; a context is read from one of the pieces between the marks that count.
-/

namespace Lindenmayer.Production

open Text (trim)

/-! ## Productions and their parts -/

/-- A production has the parts of which it was made. -/
theorem toParts_of_ofParts {parts : Parts} {p : Production} (h : ofParts parts = .ok p) :
    p.toParts = parts := by
  unfold ofParts at h
  split at h
  · split at h
    · exact absurd h nofun
    · split at h
      · rw [← Except.ok.inj h]
      · exact absurd h nofun
  · exact absurd h nofun

/-- A production whose parts are well-formed is made of them. -/
theorem ofParts_toParts (p : Production) : ofParts p.toParts = .ok p := by
  obtain ⟨parts, hparts⟩ := p
  have hnone : parts.formals.find? (!isFormalName ·) = none := by
    simpa using hparts.formals_letters
  unfold ofParts
  rw [dif_pos ⟨hparts.probability_nonneg, hparts.probability_le_one⟩]
  split
  · rename_i hsome
    rw [hnone] at hsome
    exact absurd hsome nofun
  · rw [dif_pos hparts.formals_nodup]

/-! ## Sections of a head -/

/-- The text of a section that a mark announces. -/
def marked (mark : Char) : Option (List Char) → List Char
  | none => []
  | some text => mark :: text

@[simp]
theorem marked_none (mark : Char) : marked mark none = [] := rfl

@[simp]
theorem marked_some (mark : Char) (text : List Char) : marked mark (some text) = mark :: text := rfl

/-- A section begins with its mark. -/
theorem head?_marked {mark : Char} {part : Option (List Char)} :
    ∀ c ∈ (marked mark part).head?, c = mark := by
  cases part with
  | none => exact nofun
  | some text => exact fun c hc => (Option.some.inj hc).symm

namespace Sections

/-- Takes off the section of the condition, which begins at the first colon. -/
def cutCondition (head : List Char) : List Char × Option (List Char) :=
  match splitFirst? ':' head with
  | none => (head, none)
  | some (before, text) => (before, some text)

/-- Takes off the section of the probability, which begins at the last tilde. -/
def cutProbability (head : List Char) : List Char × Option (List Char) :=
  match splitLast? '~' head with
  | none => (head, none)
  | some (before, text) => (before, some text)

/-- In front of the condition there is no colon. -/
theorem cutCondition_eq {head front : List Char} {part : Option (List Char)} :
    cutCondition head = (front, part) ↔ head = front ++ marked ':' part ∧ ':' ∉ front := by
  unfold cutCondition
  constructor
  · intro h
    split at h
    · rename_i hsplit
      obtain ⟨rfl, rfl⟩ := Prod.mk.inj h
      exact ⟨(List.append_nil _).symm, splitFirst?_eq_none.1 hsplit⟩
    · rename_i hsplit
      obtain ⟨rfl, rfl⟩ := Prod.mk.inj h
      exact splitFirst?_eq_some.1 hsplit
  · rintro ⟨rfl, hcolon⟩
    cases part with
    | none => rw [marked_none, List.append_nil, splitFirst?_eq_none.2 hcolon]
    | some text => rw [marked_some, splitFirst?_eq_some.2 ⟨rfl, hcolon⟩]

/-- In the probability there is no tilde, nor anywhere if there is no probability. -/
theorem cutProbability_eq {head before : List Char} {part : Option (List Char)} :
    cutProbability head = (before, part) ↔
      head = before ++ marked '~' part ∧ '~' ∉ part.getD head := by
  unfold cutProbability
  constructor
  · intro h
    split at h
    · rename_i hsplit
      obtain ⟨rfl, rfl⟩ := Prod.mk.inj h
      exact ⟨(List.append_nil _).symm, splitLast?_eq_none.1 hsplit⟩
    · rename_i hsplit
      obtain ⟨rfl, rfl⟩ := Prod.mk.inj h
      exact splitLast?_eq_some.1 hsplit
  · rintro ⟨rfl, htilde⟩
    cases part with
    | none =>
      rw [Option.getD_none, marked_none, List.append_nil] at htilde
      rw [marked_none, List.append_nil, splitLast?_eq_none.2 htilde]
    | some text =>
      rw [Option.getD_some] at htilde
      rw [marked_some, splitLast?_eq_some.2 ⟨rfl, htilde⟩]

end Sections

/-! ## Parts that may be missing -/

/-- Either there is neither a text nor a value, or the value is read from the text. -/
def IsPart {α : Type} (read : List Char → Except Error α) (part : Option (List Char))
    (value : Option α) : Prop :=
  Option.Rel (fun text x => read text = .ok x) part value

section
variable {α : Type} {read : List Char → Except Error α} {value : Option α}

/-- Without a text there is no value. -/
theorem IsPart.eq_none (h : IsPart read none value) : value = none := by
  cases h
  rfl

/-- A text has a value. -/
theorem IsPart.exists_read {text : List Char} (h : IsPart read (some text) value) :
    ∃ x, read text = .ok x ∧ value = some x := by
  cases h with
  | some hx => exact ⟨_, hx, rfl⟩

/-- A value has a text. -/
theorem IsPart.exists_text {part : Option (List Char)} (h : IsPart read part value) {x : α}
    (hx : value = some x) : ∃ text, read text = .ok x := by
  subst hx
  cases h with
  | some hread => exact ⟨_, hread⟩

/-- A value that can be read from its text is read from it if it is there. -/
theorem isPart_map {write : α → List Char} (h : ∀ x, value = some x → read (write x) = .ok x) :
    IsPart read (value.map write) value := by
  cases value with
  | none => exact .none
  | some x => exact .some (h x rfl)

end

/-- The value of the section of the probability. -/
def IsProbability : Option (List Char) → Float → Prop
  | none, x => x = 1.0
  | some text, x => Entry.float? (trim text) = some x

/-- A number is read as a probability, whatever blanks stand behind it. -/
theorem isProbability_of_isLiteral {literal blanks : List Char} {d : Decimal}
    (h : Literal.IsLiteral literal d) (hblanks : Text.IsBlanks blanks) :
    IsProbability (some (literal ++ blanks)) d.toFloat := by
  have htrim : trim (literal ++ blanks) = literal := by
    rw [Text.trim_append_blanks hblanks]
    exact Text.trim_of_no_blanks fun c hc => (Expr.isFormulaChar_of_mem_literal h hc).not_isBlank
  show Entry.float? (trim (literal ++ blanks)) = some d.toFloat
  rw [htrim, Entry.float?_of_isLiteral h]

/-! ## The readers -/

/-- A probability is cut off and read. -/
theorem readProbability_eq_ok {head before : List Char} {x : Float} :
    readProbability head = .ok (before, x) ↔
      ∃ part, Sections.cutProbability head = (before, part) ∧ IsProbability part x := by
  unfold readProbability Sections.cutProbability
  cases splitLast? '~' head with
  | none =>
    constructor
    · intro h
      obtain ⟨rfl, rfl⟩ := Prod.mk.inj (Except.ok.inj h)
      exact ⟨none, rfl, rfl⟩
    · rintro ⟨part, hcut, hvalue⟩
      obtain ⟨rfl, rfl⟩ := Prod.mk.inj hcut
      exact congrArg (fun x => Except.ok (head, x)) (Eq.symm hvalue)
  | some split =>
    obtain ⟨front, text⟩ := split
    constructor
    · intro h
      simp only at h
      split at h
      · rename_i hfloat
        obtain ⟨rfl, rfl⟩ := Prod.mk.inj (Except.ok.inj h)
        exact ⟨some text, rfl, hfloat⟩
      · exact absurd h nofun
    · rintro ⟨part, hcut, hvalue⟩
      obtain ⟨rfl, rfl⟩ := Prod.mk.inj hcut
      have hfloat : Entry.float? (trim text) = some x := hvalue
      simp only [hfloat]

/-- What is cut off as a probability but is no number is reported. -/
theorem readProbability_of_cut {head before text : List Char}
    (hcut : Sections.cutProbability head = (before, some text))
    (hfloat : Entry.float? (trim text) = none) :
    readProbability head = .error (.grammar (.probabilityText (trim text))) := by
  obtain ⟨rfl, htilde⟩ := Sections.cutProbability_eq.1 hcut
  rw [Option.getD_some] at htilde
  unfold readProbability
  rw [marked_some, splitLast?_eq_some.2 ⟨rfl, htilde⟩]
  simp only [hfloat]

/-- A condition is cut off and read. -/
theorem readCondition_eq_ok {head front : List Char} {condition : Option Expr} :
    readCondition head = .ok (front, condition) ↔
      ∃ part, Sections.cutCondition head = (front, part) ∧ IsPart Expr.parse part condition := by
  unfold readCondition Sections.cutCondition
  cases splitFirst? ':' head with
  | none =>
    constructor
    · intro h
      obtain ⟨rfl, rfl⟩ := Prod.mk.inj (Except.ok.inj h)
      exact ⟨none, rfl, .none⟩
    · rintro ⟨part, hcut, hvalue⟩
      obtain ⟨rfl, rfl⟩ := Prod.mk.inj hcut
      rw [hvalue.eq_none]
  | some split =>
    obtain ⟨before, text⟩ := split
    constructor
    · intro h
      obtain ⟨e, he, hpair⟩ := map_eq_ok.1 h
      obtain ⟨rfl, rfl⟩ := Prod.mk.inj hpair
      exact ⟨some text, rfl, .some he⟩
    · rintro ⟨part, hcut, hvalue⟩
      obtain ⟨rfl, rfl⟩ := Prod.mk.inj hcut
      obtain ⟨e, he, rfl⟩ := hvalue.exists_read
      exact map_eq_ok.2 ⟨e, he, rfl⟩

/-- A predecessor or a context is a text of a single element. -/
theorem readFormal_eq_ok {text : List Char} {e : Element String} :
    readFormal text = .ok e ↔ Element.scan readFormalName text = .ok [e] := by
  unfold readFormal
  rw [bind_eq_ok]
  constructor
  · rintro ⟨elements, hscan, h⟩
    split at h
    · rw [hscan, ← Except.ok.inj h]
    · exact absurd h nofun
  · intro h
    exact ⟨[e], h, rfl⟩

/-- The piece before the middle is the left context. -/
theorem readLeft_eq_ok {front middle : List Char} {left : Option (Element String)} :
    readLeft front = .ok (middle, left) ↔
      ∃ text : Option (List Char), Element.splitOutside '<' 0 front = text.toList ++ [middle] ∧
        IsPart readFormal text left := by
  unfold readLeft
  constructor
  · intro h
    split at h
    · rename_i hpieces
      obtain ⟨e, he, hpair⟩ := map_eq_ok.1 h
      obtain ⟨rfl, rfl⟩ := Prod.mk.inj hpair
      exact ⟨some _, hpieces, .some he⟩
    · rename_i hpieces
      obtain ⟨rfl, rfl⟩ := Prod.mk.inj (Except.ok.inj h)
      exact ⟨none, hpieces, .none⟩
    · exact absurd h nofun
  · rintro ⟨text, hpieces, hcontext⟩
    rw [hpieces]
    cases hcontext with
    | none => rfl
    | some he => exact map_eq_ok.2 ⟨_, he, rfl⟩

/-- The piece behind the middle is the right context. -/
theorem readRight_eq_ok {head text middle : List Char} {right : Option (Element String)} :
    readRight head text = .ok (middle, right) ↔
      ∃ after : Option (List Char), Element.splitOutside '>' 0 text = middle :: after.toList ∧
        IsPart readFormal after right := by
  unfold readRight
  constructor
  · intro h
    split at h
    · rename_i hpieces
      obtain ⟨e, he, hpair⟩ := map_eq_ok.1 h
      obtain ⟨rfl, rfl⟩ := Prod.mk.inj hpair
      exact ⟨some _, hpieces, .some he⟩
    · rename_i hpieces
      obtain ⟨rfl, rfl⟩ := Prod.mk.inj (Except.ok.inj h)
      exact ⟨none, hpieces, .none⟩
    · exact absurd h nofun
  · rintro ⟨after, hpieces, hcontext⟩
    rw [hpieces]
    cases hcontext with
    | none => rfl
    | some he => exact map_eq_ok.2 ⟨_, he, rfl⟩

/-- A successor is a text of elements. -/
theorem readSuccessor_eq_ok {text : List Char} {successor : List (Element Expr)} :
    readSuccessor text = .ok successor ↔ Element.IsElements Expr.parse text successor :=
  Element.scan_eq_ok

/-! ## Whole lines -/

/-- Once the separator is found, the parts of the head are taken off one after another. -/
theorem parse_of_splitAtSeparator {line head body : List Char}
    (h : splitAtSeparator 0 false line = some (head, body)) :
    parse line =
      readProbability head >>= fun read =>
        readCondition read.1 >>= fun read' =>
          readLeft read'.1 >>= fun left =>
            readRight read'.1 left.1 >>= fun right =>
              readFormal right.1 >>= fun predecessor =>
                readSuccessor body >>= fun successor =>
                  ofParts
                    { predecessor, successor, condition := read'.2, probability := read.2,
                      left := left.2, right := right.2 } := by
  unfold parse
  simp only [h]

/-- A line that is read has a separator. -/
theorem exists_split_of_parse {line : List Char} {p : Production} (h : parse line = .ok p) :
    ∃ head body, splitAtSeparator 0 false line = some (head, body) := by
  unfold parse at h
  split at h
  · exact ⟨_, _, ‹_›⟩
  · exact absurd h nofun

end Lindenmayer.Production
