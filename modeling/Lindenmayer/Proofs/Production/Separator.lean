import Lindenmayer.Production.Reader
import Lindenmayer.Proofs.Element.Printer
import Lindenmayer.Proofs.Expr.Characters

/-!
# Where a production is cut

The separator of a production is looked for character by character. Written parts of a production
are passed as a whole: elements before the condition, formulas within it. The other marks are looked
for from the front or from the back.
-/

namespace Lindenmayer.Production

open Element (Closes Free nest depthAfter)

/-! ## The first and the last occurrence of a character -/

/-- A text is cut at the first occurrence of a character. -/
theorem splitFirst?_eq_some {c : Char} {text before after : List Char} :
    splitFirst? c text = some (before, after) ↔ text = before ++ c :: after ∧ c ∉ before := by
  unfold splitFirst?
  constructor
  · intro h
    have hsplit := List.takeWhile_append_dropWhile (p := (· != c)) (l := text)
    split at h
    · cases h
    · rename_i d tail hdrop
      obtain ⟨rfl, rfl⟩ : text.takeWhile (· != c) = before ∧ tail = after := by simpa using h
      have hd : d = c := by
        have hhead := List.head?_dropWhile_not (· != c) text
        rw [hdrop] at hhead
        simpa using hhead
      have hmem : c ∉ text.takeWhile (· != c) := by
        intro hc
        have hall := List.all_takeWhile (p := (· != c)) (l := text)
        have := List.all_eq_true.1 hall c hc
        simp at this
      rw [hdrop, hd] at hsplit
      exact ⟨hsplit.symm, hmem⟩
  · rintro ⟨rfl, hnot⟩
    -- nothing before the character stops the search
    have hall : ∀ d ∈ before, (d != c) = true := by
      intro d hd
      rw [bne_iff_ne]
      rintro rfl
      exact hnot hd
    rw [List.dropWhile_append_of_pos hall, List.takeWhile_append_of_pos hall]
    simp

/-- Where the character does not occur, nothing is cut. -/
@[simp]
theorem splitFirst?_eq_none {c : Char} {text : List Char} :
    splitFirst? c text = none ↔ c ∉ text := by
  constructor
  · intro h hc
    obtain ⟨before, after, rfl, hnot⟩ := List.eq_append_cons_of_mem hc
    rw [splitFirst?_eq_some.2 ⟨rfl, hnot⟩] at h
    exact absurd h nofun
  · intro hnot
    cases h : splitFirst? c text with
    | none => rfl
    | some split =>
      obtain ⟨rfl, -⟩ := splitFirst?_eq_some.1 h
      exact absurd (List.mem_append_right _ List.mem_cons_self) hnot

/-- A text is cut at the last occurrence of a character. -/
theorem splitLast?_eq_some {c : Char} {text before after : List Char} :
    splitLast? c text = some (before, after) ↔ text = before ++ c :: after ∧ c ∉ after := by
  unfold splitLast?
  rw [Option.map_eq_some_iff]
  constructor
  · rintro ⟨⟨a, b⟩, h, hpair⟩
    obtain ⟨rfl, rfl⟩ := Prod.mk.inj hpair
    obtain ⟨htext, hnot⟩ := splitFirst?_eq_some.1 h
    refine ⟨?_, by rwa [List.mem_reverse]⟩
    rw [← List.reverse_reverse text, htext]
    simp
  · rintro ⟨rfl, hnot⟩
    refine ⟨(after.reverse, before.reverse), splitFirst?_eq_some.2 ⟨by simp, ?_⟩, by simp⟩
    rwa [List.mem_reverse]

/-- Here, too, nothing is cut where the character does not occur. -/
@[simp]
theorem splitLast?_eq_none {c : Char} {text : List Char} :
    splitLast? c text = none ↔ c ∉ text := by
  unfold splitLast?
  rw [Option.map_eq_none_iff, splitFirst?_eq_none, List.mem_reverse]

/-! ## The separator -/

/-- Puts a text in front of the head. -/
def prepend (text : List Char) (split : List Char × List Char) : List Char × List Char :=
  (text ++ split.1, split.2)

theorem prepend_cons (c : Char) (text : List Char) :
    prepend (c :: text) = fun split => (c :: (text ++ split.1), split.2) :=
  rfl

@[simp]
theorem map_prepend_nil (split : Option (List Char × List Char)) :
    split.map (prepend []) = split := by
  cases split <;> rfl

/-- Two texts are put in front one after the other. -/
theorem map_prepend_append (left right : List Char) (split : Option (List Char × List Char)) :
    split.map (prepend (left ++ right)) = (split.map (prepend right)).map (prepend left) := by
  cases split with
  | none => rfl
  | some split => simp [prepend]

theorem map_prepend_cons (c : Char) (text : List Char)
    (split : Option (List Char × List Char)) :
    split.map (prepend (c :: text)) = (split.map (prepend text)).map (prepend [c]) :=
  map_prepend_append [c] text split

/-- A character that has no meaning where it stands is passed. -/
theorem splitAtSeparator_skip {depth : Int} {c : Char}
    (h : depth ≠ 0 ∨ c ∉ [':', '~', '=', '<', '>']) (inCondition : Bool) (rest : List Char) :
    splitAtSeparator depth inCondition (c :: rest) =
      (splitAtSeparator (nest depth c) inCondition rest).map (prepend [c]) := by
  rw [splitAtSeparator]
  unfold nest
  by_cases hopen : c = '('
  · simp [hopen, prepend_cons]
  · by_cases hclose : c = ')'
    · simp [hclose, prepend_cons]
    · rcases h with hdepth | hplain
      · simp [hopen, hclose, hdepth, prepend_cons]
      · simp only [List.mem_cons, List.not_mem_nil, or_false, not_or] at hplain
        simp [hopen, hclose, hplain, prepend_cons]

/-- In the head the marks of contexts and of the probability are passed. -/
theorem splitAtSeparator_skip_head {c : Char} (h : c ∈ ['~', '<', '>']) (rest : List Char) :
    splitAtSeparator 0 false (c :: rest) =
      (splitAtSeparator 0 false rest).map (prepend [c]) := by
  simp only [List.mem_cons, List.not_mem_nil, or_false] at h
  rw [splitAtSeparator]
  rcases h with rfl | rfl | rfl <;> simp [prepend_cons]

/-- Behind a colon comparisons may occur. -/
@[simp]
theorem splitAtSeparator_colon (inCondition : Bool) (rest : List Char) :
    splitAtSeparator 0 inCondition (':' :: rest) =
      (splitAtSeparator 0 true rest).map (prepend [':']) := by
  rw [splitAtSeparator]
  simp [prepend_cons]

/-- Behind a tilde they may not. -/
@[simp]
theorem splitAtSeparator_tilde (inCondition : Bool) (rest : List Char) :
    splitAtSeparator 0 inCondition ('~' :: rest) =
      (splitAtSeparator 0 false rest).map (prepend ['~']) := by
  rw [splitAtSeparator]
  simp [prepend_cons]

/-- The separator is found, if no comparison begins there. -/
theorem splitAtSeparator_equals {inCondition : Bool} {rest : List Char}
    (h : inCondition = false ∨ ∀ c ∈ rest.head?, c ≠ '=') :
    splitAtSeparator 0 inCondition ('=' :: rest) = some ([], rest) := by
  rw [splitAtSeparator]
  rcases h with rfl | hrest
  · simp
  · cases rest with
    | nil => cases inCondition <;> simp
    | cons d rest =>
      have hd : d ≠ '=' := hrest d rfl
      cases inCondition <;> simp [hd]

/-- In a condition a comparison of two characters is passed as a whole. -/
theorem splitAtSeparator_comparison {c : Char} (h : c ∈ ['=', '<', '>']) (rest : List Char) :
    splitAtSeparator 0 true (c :: '=' :: rest) =
      (splitAtSeparator 0 true rest).map (prepend [c, '=']) := by
  simp only [List.mem_cons, List.not_mem_nil, or_false] at h
  rw [splitAtSeparator]
  rcases h with rfl | rfl | rfl <;> simp [prepend_cons]

/-- In a condition a comparison of one character is passed. -/
theorem splitAtSeparator_order {c : Char} (h : c ∈ ['<', '>']) {rest : List Char}
    (hrest : ∀ c ∈ rest.head?, c ≠ '=') :
    splitAtSeparator 0 true (c :: rest) =
      (splitAtSeparator 0 true rest).map (prepend [c]) := by
  simp only [List.mem_cons, List.not_mem_nil, or_false] at h
  rw [splitAtSeparator]
  cases rest with
  | nil => rcases h with rfl | rfl <;> simp [prepend_cons]
  | cons d rest =>
    have hd : d ≠ '=' := hrest d rfl
    rcases h with rfl | rfl <;> simp [prepend_cons, hd]

/-- Either the separator has been found or some characters are passed. -/
theorem splitAtSeparator_cases (depth : Int) (inCondition : Bool) (c : Char) (rest : List Char) :
    (c = '=' ∧ splitAtSeparator depth inCondition (c :: rest) = some ([], rest)) ∨
      ∃ front back depth' inCondition', c :: rest = front ++ back ∧ front ≠ [] ∧
        splitAtSeparator depth inCondition (c :: rest) =
          (splitAtSeparator depth' inCondition' back).map (prepend front) := by
  by_cases hskip : depth ≠ 0 ∨ c ∉ [':', '~', '=', '<', '>']
  · exact .inr ⟨[c], rest, _, _, rfl, nofun, splitAtSeparator_skip hskip inCondition rest⟩
  · obtain ⟨rfl, hc⟩ : depth = 0 ∧ c ∈ [':', '~', '=', '<', '>'] := by
      simpa only [not_or, Decidable.not_not] using hskip
    by_cases hcolon : c = ':'
    · subst hcolon
      exact .inr ⟨[':'], rest, _, _, rfl, nofun, splitAtSeparator_colon inCondition rest⟩
    by_cases htilde : c = '~'
    · subst htilde
      exact .inr ⟨['~'], rest, _, _, rfl, nofun, splitAtSeparator_tilde inCondition rest⟩
    have hc : c = '=' ∨ c ∈ ['<', '>'] := by simpa [hcolon, htilde] using hc
    cases inCondition with
    | false =>
      rcases hc with rfl | hc
      · exact .inl ⟨rfl, splitAtSeparator_equals (.inl rfl)⟩
      · have hmem : c ∈ ['~', '<', '>'] := List.mem_cons_of_mem _ hc
        exact .inr ⟨[c], rest, _, _, rfl, nofun, splitAtSeparator_skip_head hmem rest⟩
    | true =>
      by_cases hrest : ∀ d ∈ rest.head?, d ≠ '='
      · rcases hc with rfl | hc
        · exact .inl ⟨rfl, splitAtSeparator_equals (.inr hrest)⟩
        · exact .inr ⟨[c], rest, _, _, rfl, nofun, splitAtSeparator_order hc hrest⟩
      · cases rest with
        | nil => exact absurd nofun hrest
        | cons d back =>
          obtain rfl : d = '=' := by simpa using hrest
          have hmem : c ∈ ['=', '<', '>'] := by simpa using hc
          exact .inr ⟨[c, '='], back, _, _, rfl, nofun, splitAtSeparator_comparison hmem back⟩

/-- The head and the body are what stands before and after the separator. -/
theorem append_of_splitAtSeparator {depth : Int} {inCondition : Bool} {text head body : List Char}
    (h : splitAtSeparator depth inCondition text = some (head, body)) :
    text = head ++ '=' :: body := by
  induction hn : text.length using Nat.strongRecOn generalizing depth inCondition text head with
  | _ n ih =>
    subst hn
    cases text with
    | nil => exact absurd h nofun
    | cons c rest =>
      rcases splitAtSeparator_cases depth inCondition c rest with
        ⟨rfl, hfound⟩ | ⟨front, back, depth', inCondition', htext, hne, hpassed⟩
      · obtain ⟨rfl, rfl⟩ : [] = head ∧ rest = body := by simpa [hfound] using h
        rfl
      · rw [hpassed, Option.map_eq_some_iff] at h
        obtain ⟨⟨head', body'⟩, hsplit, hpair⟩ := h
        obtain ⟨rfl, rfl⟩ := Prod.mk.inj hpair
        have hfront := List.length_pos_iff.2 hne
        have hback := ih back.length (by rw [htext, List.length_append]; omega) hsplit rfl
        rw [htext, hback, List.append_assoc]

/-- Before the condition everything but the separator and a colon is passed. -/
theorem splitAtSeparator_front {depth : Int} {c : Char} (hequals : ¬(c = '=' ∧ depth = 0))
    (hcolon : c ≠ ':') (rest : List Char) :
    splitAtSeparator depth false (c :: rest) =
      (splitAtSeparator (nest depth c) false rest).map (prepend [c]) := by
  by_cases hskip : depth ≠ 0 ∨ c ∉ [':', '~', '=', '<', '>']
  · exact splitAtSeparator_skip hskip false rest
  · obtain ⟨rfl, hc⟩ : depth = 0 ∧ c ∈ [':', '~', '=', '<', '>'] := by
      simpa only [not_or, Decidable.not_not] using hskip
    have hne : c ≠ '=' := fun heq => hequals ⟨heq, rfl⟩
    have hmem : c ∈ ['~', '<', '>'] := by simpa [hcolon, hne] using hc
    have hnest : nest 0 c = 0 := by
      simp only [List.mem_cons, List.not_mem_nil, or_false] at hmem
      rcases hmem with rfl | rfl | rfl <;> rfl
    rw [hnest]
    exact splitAtSeparator_skip_head hmem rest

/-- Before the first colon no equals sign stands outside parentheses. -/
theorem free_of_splitAtSeparator {depth : Int} {text head body : List Char}
    (h : splitAtSeparator depth false text = some (head, body)) :
    Free '=' depth (head.takeWhile (· != ':')) := by
  induction text generalizing depth head with
  | nil => exact absurd h nofun
  | cons c text ih =>
    by_cases hfound : c = '=' ∧ depth = 0
    · obtain ⟨rfl, rfl⟩ := hfound
      rw [splitAtSeparator_equals (.inl rfl)] at h
      obtain ⟨rfl, rfl⟩ : [] = head ∧ text = body := by simpa using h
      trivial
    · by_cases hcolon : c = ':'
      · -- the head begins with the colon
        have htext := append_of_splitAtSeparator h
        cases head with
        | nil => exact trivial
        | cons d head =>
          obtain rfl := (List.cons.inj htext).1
          rw [hcolon]
          exact trivial
      · rw [splitAtSeparator_front hfound hcolon, Option.map_eq_some_iff] at h
        obtain ⟨⟨head', body'⟩, hsplit, hpair⟩ := h
        obtain ⟨rfl, rfl⟩ := Prod.mk.inj hpair
        show Free '=' depth ((c :: head').takeWhile (· != ':'))
        rw [List.takeWhile_cons]
        split
        · exact ⟨hfound, ih hsplit⟩
        · trivial

/-- A text without separators and colons is passed, and the parentheses in it are counted. -/
theorem splitAtSeparator_free {depth : Int} {text : List Char} (hfree : Free '=' depth text)
    (hcolon : ':' ∉ text) (rest : List Char) :
    splitAtSeparator depth false (text ++ rest) =
      (splitAtSeparator (depthAfter depth text) false rest).map (prepend text) := by
  induction text generalizing depth with
  | nil => exact (map_prepend_nil _).symm
  | cons c text ih =>
    rw [List.mem_cons, not_or] at hcolon
    rw [List.cons_append, splitAtSeparator_front hfree.1 (Ne.symm hcolon.1), ih hfree.2 hcolon.2,
      map_prepend_cons c text]
    rfl

/-! ## Written parts -/

/-- A text without a separator, which leaves the mode as it is, is passed as a whole. -/
def Passes (inCondition : Bool) (text : List Char) : Prop :=
  ∀ rest, splitAtSeparator 0 inCondition (text ++ rest) =
    (splitAtSeparator 0 inCondition rest).map (prepend text)

@[simp]
theorem passes_nil (inCondition : Bool) : Passes inCondition [] :=
  fun _ => (map_prepend_nil _).symm

/-- Texts that are passed one by one are passed together. -/
theorem Passes.append {inCondition : Bool} {left right : List Char}
    (hleft : Passes inCondition left) (hright : Passes inCondition right) :
    Passes inCondition (left ++ right) := by
  intro rest
  rw [List.append_assoc, hleft, hright, map_prepend_append]

/-- A text without marks is passed. -/
theorem passes_plain {inCondition : Bool} {text : List Char}
    (h : ∀ c ∈ text, c ∉ ['(', ')', ':', '~', '=', '<', '>']) : Passes inCondition text := by
  induction text with
  | nil => exact passes_nil inCondition
  | cons c text ih =>
    have hc := h c List.mem_cons_self
    simp only [List.mem_cons, List.not_mem_nil, or_false, not_or] at hc
    -- one character is passed, and then the others
    have hfirst : Passes inCondition [c] := by
      intro rest
      rw [List.singleton_append, splitAtSeparator_skip (.inr (by simp [hc])),
        Element.nest_other 0 hc.1 hc.2.1]
    exact hfirst.append (ih fun d hd => h d (List.mem_cons_of_mem c hd))

/-- While a parenthesis stays open everything is passed. -/
theorem splitAtSeparator_closes {d : Nat} {text : List Char} (h : Closes d text) {depth : Int}
    (hdepth : d < depth) (inCondition : Bool) (rest : List Char) :
    splitAtSeparator depth inCondition (text ++ rest) =
      (splitAtSeparator (depth - d) inCondition rest).map (prepend text) := by
  induction text generalizing d depth with
  | nil =>
    obtain rfl : d = 0 := h
    rw [map_prepend_nil, show depth - ((0 : Nat) : Int) = depth by omega, List.nil_append]
  | cons c text ih =>
    rw [List.cons_append, splitAtSeparator_skip (.inl (by omega)), map_prepend_cons c text]
    rcases Element.closes_cons_cases h with ⟨rfl, hrest⟩ | ⟨rfl, d, rfl, hrest⟩ | ⟨ho, hc, hrest⟩
    · rw [show nest depth '(' = depth + 1 from rfl, ih hrest (by omega)]
      congr 3
      omega
    · rw [show nest depth ')' = depth - 1 from rfl, ih hrest (by omega)]
      congr 3
      omega
    · rw [Element.nest_other depth ho hc, ih hrest hdepth]

/-- What stands in parentheses is passed, whatever it is. -/
theorem passes_enclose {inCondition : Bool} {text : List Char} (h : Closes 0 text) :
    Passes inCondition ('(' :: (text ++ [')'])) := by
  intro rest
  have hopen : ∀ back, splitAtSeparator 0 inCondition ('(' :: back) =
      (splitAtSeparator 1 inCondition back).map (prepend ['(']) :=
    splitAtSeparator_skip (.inr (by decide)) inCondition
  have hclose : splitAtSeparator 1 inCondition (')' :: rest) =
      (splitAtSeparator 0 inCondition rest).map (prepend [')']) :=
    splitAtSeparator_skip (.inl (by decide)) inCondition rest
  have hinner : splitAtSeparator 1 inCondition (text ++ ')' :: rest) =
      (splitAtSeparator 1 inCondition (')' :: rest)).map (prepend text) :=
    splitAtSeparator_closes h (by decide) inCondition (')' :: rest)
  rw [List.cons_append, List.append_assoc, List.singleton_append, hopen, hinner, hclose,
    map_prepend_cons '(' (text ++ [')']), map_prepend_append]

/-! ### Texts in the head -/

/-- A front that closes its parentheses is passed as a whole. -/
theorem passes_of_free {text : List Char} (hcloses : Closes 0 text) (hfree : Free '=' 0 text)
    (hcolon : ':' ∉ text) : Passes false text := by
  intro rest
  rw [splitAtSeparator_free hfree hcolon, hcloses.depthAfter_self]

/-! ### Formulas in the condition -/

/-- An operator is passed together with the operand on its right. -/
theorem passes_op (op : Op) {text : List Char} (h : Passes true text)
    (hhead : ∃ c rest, text = c :: rest ∧ c ≠ '=') : Passes true (op.text ++ text) := by
  have hcomparison {c : Char} (hc : c ∈ ['=', '<', '>']) : Passes true [c, '='] :=
    splitAtSeparator_comparison hc
  have horder {c : Char} (hc : c ∈ ['<', '>']) : Passes true ([c] ++ text) := by
    -- the operand does not make a comparison of the sign before it
    obtain ⟨d, tail, htext, hd⟩ := hhead
    intro rest
    have hnext : ∀ d ∈ (text ++ rest).head?, d ≠ '=' := by simp [htext, hd]
    rw [List.append_assoc, List.singleton_append, splitAtSeparator_order hc hnext, h,
      List.singleton_append, map_prepend_cons c text]
  cases op with
  | gt => exact horder (by decide)
  | lt => exact horder (by decide)
  | eq => exact (hcomparison (by decide)).append h
  | ge => exact (hcomparison (by decide)).append h
  | le => exact (hcomparison (by decide)).append h
  | _ => exact (passes_plain (Text.forall_mem_of_all (by decide))).append h

/-- A number is passed. -/
theorem passes_literal {literal : List Char} {d : Decimal} (h : Literal.IsLiteral literal d)
    (inCondition : Bool) : Passes inCondition literal := by
  apply passes_plain
  intro c hc
  rcases h.mem hc with hdigit | hmark
  · have hall : ∀ d ∈ ['(', ')', ':', '~', '=', '<', '>'], Text.isDigit d = false :=
      Text.forall_mem_of_all (by decide)
    intro hmem
    rw [hall c hmem] at hdigit
    exact Bool.false_ne_true hdigit
  · have hall : ∀ d ∈ ['+', '-', '.', 'e', 'E'], d ∉ ['(', ')', ':', '~', '=', '<', '>'] :=
      Text.forall_mem_of_all (by decide)
    exact hall c hmark

theorem not_mark_of_isBlank {c : Char} (h : Text.isBlank c) :
    c ∉ ['(', ')', ':', '~', '=', '<', '>'] := by
  intro hmark
  have hall : ∀ c ∈ ['(', ')', ':', '~', '=', '<', '>'], Text.isBlank c = false :=
    Text.forall_mem_of_all (by decide)
  rw [hall c hmark] at h
  exact Bool.false_ne_true h

theorem passes_blanks {inCondition : Bool} {blanks : List Char} (h : Text.IsBlanks blanks) :
    Passes inCondition blanks :=
  passes_plain fun c hc => not_mark_of_isBlank (h c hc)

/-- A letter is passed. -/
theorem passes_letter {inCondition : Bool} {c : Char} (h : c.isAlpha) : Passes inCondition [c] := by
  apply passes_plain
  intro d hd hmark
  have hall : ∀ c ∈ ['(', ')', ':', '~', '=', '<', '>'], c.isAlpha = false :=
    Text.forall_mem_of_all (by decide)
  rw [← List.mem_singleton.1 hd, hall d hmark] at h
  exact Bool.false_ne_true h

/-- A formula is passed as a whole, by induction on its derivation. -/
theorem passes_of_derives {k : Nat} {text : List Char} {e : Expr} (h : Expr.Derives k text e) :
    Passes true text := by
  induction h with
  | literal hblanks hliteral => exact (passes_blanks hblanks).append (passes_literal hliteral true)
  | letter hblanks hletter => exact (passes_blanks hblanks).append (passes_letter hletter)
  | group hblanks hinner hblanks' _ =>
    rw [← List.append_assoc]
    exact (passes_blanks hblanks).append
      (passes_enclose (hinner.closes.append (Element.closes_blanks hblanks')))
  | tighter _ ih => exact ih
  | left _ _ hblanks hright ihₗ ihᵣ =>
    exact ihₗ.append ((passes_blanks hblanks).append (passes_op _ ihᵣ hright.head))
  | power _ hblanks hright ihₗ ihᵣ =>
    exact ihₗ.append ((passes_blanks hblanks).append (passes_op _ ihᵣ hright.head))

end Lindenmayer.Production
