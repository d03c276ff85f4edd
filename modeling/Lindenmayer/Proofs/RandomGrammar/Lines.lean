import Lindenmayer.RandomGrammar
import Lindenmayer.Proofs.Grammar.Printer

/-!
# Lines of random grammars

The line of an alternative consists of a heading, which says what is replaced and when, an optional
probability, and a successor, with blanks between them. These are the sections of a production line,
so that such a line is read as the production with these parts.
-/

namespace Lindenmayer.RandomGrammar

open Element (Free)
open Grammar (IsInline IsWhole splitSetting?)
open Production

/-- The line of one of several alternatives. -/
def alternativeLine (heading : List Char) (alternatives : Nat) (probability : Float)
    (successor : List Char) : List Char :=
  heading ++ probabilityText alternatives probability ++ " = ".toList ++ successor

/-- What a heading says: what is replaced, and on which condition. The blank behind it belongs to
the last one of its sections. -/
structure IsHeading (heading : List Char) (predecessor : Element String)
    (condition : Option Expr) : Prop where
  isInline : IsInline heading
  head : ∃ letter rest, heading = letter :: rest ∧ letter.isAlpha
  no_tilde : '~' ∉ heading
  sections : ∃ front part, heading ++ [' '] = front ++ marked ':' part ∧
    (∀ mark ∈ [':', '=', '<', '>'], mark ∉ front) ∧ readFormal front = .ok predecessor ∧
      IsPart Expr.parse part condition

/-- The sections of the line of an alternative. -/
def alternativeSections (front : List Char) (condition : Option (List Char)) (alternatives : Nat)
    (probability : Float) (successor : List Char) : Sections where
  front := front
  condition := condition
  probability := if 1 < alternatives then some (shortText probability ++ [' ']) else none
  body := ' ' :: successor

section
variable {heading successor : List Char} {alternatives : Nat} {probability : Float} {p : Production}

/-- The probability of a production, if its line tells it. -/
theorem exists_isLiteral
    (hprobability : p.probability = if 1 < alternatives then probability else 1.0)
    (hcount : 1 < alternatives) :
    ∃ d : Decimal, Literal.IsLiteral (shortText probability) d ∧ d.toFloat = probability := by
  have hliteral := exists_isLiteral_probability p
  rwa [hprobability, if_pos hcount] at hliteral

/-- The line is made of these sections. -/
theorem text_alternativeSections {front : List Char} {condition : Option (List Char)}
    (h : heading ++ [' '] = front ++ marked ':' condition) :
    (alternativeSections front condition alternatives probability successor).text =
      alternativeLine heading alternatives probability successor := by
  unfold Sections.text Sections.head alternativeSections alternativeLine probabilityText
  rw [← h]
  split <;> simp

/-- The section of the probability is read as the probability. -/
theorem isProbability_alternativeSections (front : List Char) (condition : Option (List Char))
    (hprobability : p.probability = if 1 < alternatives then probability else 1.0) :
    IsProbability
      (alternativeSections front condition alternatives probability successor).probability
      p.probability := by
  unfold alternativeSections
  by_cases hcount : 1 < alternatives
  · obtain ⟨d, hliteral, rfl⟩ := exists_isLiteral hprobability hcount
    rw [hprobability, if_pos hcount, if_pos hcount]
    exact isProbability_of_isLiteral hliteral Text.isBlanks_space
  · rw [hprobability, if_neg hcount, if_neg hcount]
    rfl

/-- The line of an alternative is read as the production with the parts that it shows. -/
theorem parse_alternativeLine (hheading : IsHeading heading p.predecessor p.condition)
    (hleft : p.left = none) (hright : p.right = none)
    (hprobability : p.probability = if 1 < alternatives then probability else 1.0)
    (hsuccessor : readSuccessor (' ' :: successor) = .ok p.successor) :
    Production.parse (alternativeLine heading alternatives probability successor) = .ok p := by
  obtain ⟨front, part, htext, hmarks, hpredecessor, hcondition⟩ := hheading.sections
  have hfree : ∀ mark ∈ [':', '=', '<', '>'], Free mark 0 front :=
    fun mark hmark => Element.free_of_not_mem (hmarks mark hmark) 0
  have hfront : IsFront front p.toParts :=
    isFront_of_readFormal hleft hright
      (fun mark hmark => hfree mark (List.mem_append_right [':', '='] hmark)) hpredecessor
  rw [← text_alternativeSections htext]
  refine Sections.Reads.parse_text ⟨⟨hfront, hcondition,
    isProbability_alternativeSections front part hprobability, hsuccessor,
    hmarks ':' (by decide), hfree '=' (by decide), fun _ _ => ?_⟩, fun hnone => ?_⟩
  · show some ' ' ≠ some '='
    decide
  · -- nothing follows the heading but the blank
    rw [Sections.head, hnone, marked_none, List.append_nil]
    show '~' ∉ front ++ marked ':' part
    rw [← htext, List.mem_append, not_or]
    exact ⟨hheading.no_tilde, by decide⟩

/-- Nothing of the line is taken for a comment or trimmed. -/
theorem isWhole_alternativeLine (hheading : IsHeading heading p.predecessor p.condition)
    (hprobability : p.probability = if 1 < alternatives then probability else 1.0)
    (hinline : IsInline successor) (hne : successor ≠ [])
    (hslash : ∀ c ∈ successor.head?, c ≠ '/') (hlast : ∀ c ∈ successor.getLast?, ¬Text.isBlank c) :
    IsWhole (alternativeLine heading alternatives probability successor) := by
  obtain ⟨letter, rest, hhead, hletter⟩ := hheading.head
  have hseparator : IsInline (' ' :: '=' :: ' ' :: successor) :=
    ((hinline.space_cons hne hslash).cons (by decide)).space_cons (List.cons_ne_nil _ _) (by simp)
  have hprobabilityText : IsInline (probabilityText alternatives probability) := by
    unfold probabilityText
    split
    · rename_i hcount
      obtain ⟨d, hliteral, -⟩ := exists_isLiteral hprobability hcount
      have hplain := Grammar.isInline_of_no_blanks fun c hc =>
        (Expr.isFormulaChar_of_mem_literal hliteral hc).not_isBlank
      exact (hplain.cons (by decide)).space_cons (List.cons_ne_nil _ _) (by simp)
    · exact Grammar.isInline_nil
  have hline : alternativeLine heading alternatives probability successor =
      heading ++ probabilityText alternatives probability ++ ' ' :: '=' :: ' ' :: successor := by
    simp [alternativeLine]
  rw [hline]
  apply ((hheading.isInline.append hprobabilityText).append hseparator).isWhole
  · simp
  · intro c hc
    rw [hhead] at hc
    obtain rfl : letter = c := Option.some.inj hc
    exact Text.not_isBlank_of_isAlpha hletter
  · intro c hc
    obtain ⟨d, tail, rfl⟩ := List.exists_cons_of_ne_nil hne
    rw [List.getLast?_append, List.getLast?_cons_cons, List.getLast?_cons_cons,
      List.getLast?_cons_cons, List.getLast?_cons] at hc
    exact hlast c (by rw [List.getLast?_cons]; exact hc)
  · intro others heq
    rw [hhead] at heq
    obtain rfl : letter = '/' := (List.cons.inj heq).1
    exact absurd hletter (by decide)

/-- The line is no setting. -/
theorem splitSetting?_alternativeLine (hheading : IsHeading heading p.predecessor p.condition) :
    splitSetting? (alternativeLine heading alternatives probability successor) = none := by
  obtain ⟨letter, rest, hhead, hletter⟩ := hheading.head
  unfold alternativeLine splitSetting?
  split
  · rename_i heq
    rw [hhead] at heq
    obtain rfl : letter = '#' := (List.cons.inj heq).1
    exact absurd hletter (by decide)
  · rfl

end

/-! ## Probabilities in texts -/

/-- Wherever a probability is written, it is a number from 0 to 1 with a blank behind it. -/
def WritesProbabilities (text : List Char) : Prop :=
  ∀ before after, text = before ++ '~' :: after →
    ∃ x rest, after = shortText x ++ ' ' :: rest ∧ 0.0 ≤ x ∧ x ≤ 1.0

/-- Without a mark there is nothing to be said. -/
theorem writesProbabilities_of_not_mem {text : List Char} (h : '~' ∉ text) :
    WritesProbabilities text := by
  intro before after htext
  rw [htext] at h
  exact absurd (List.mem_append_right before List.mem_cons_self) h

/-- Texts that write probabilities one by one do so together. -/
theorem WritesProbabilities.append {left right : List Char} (hleft : WritesProbabilities left)
    (hright : WritesProbabilities right) : WritesProbabilities (left ++ right) := by
  intro before after htext
  rcases List.append_eq_append_iff.1 htext with ⟨middle, -, hmiddle⟩ | ⟨middle, hmiddle, hafter⟩
  · exact hright middle after hmiddle
  · cases middle with
    | nil => exact hright [] after hafter.symm
    | cons c middle =>
      -- the number and the blank behind it belong to the left text
      obtain ⟨rfl, rfl⟩ := List.cons.inj hafter
      obtain ⟨x, rest, rfl, hx⟩ := hleft before middle hmiddle
      exact ⟨x, rest ++ right, List.append_assoc _ _ right, hx⟩

/-- So do whole lines. -/
theorem writesProbabilities_flatMap {lines : List (List Char)}
    (h : ∀ line ∈ lines, WritesProbabilities line) :
    WritesProbabilities (lines.flatMap (· ++ ['\n'])) := by
  induction lines with
  | nil => exact writesProbabilities_of_not_mem List.not_mem_nil
  | cons line lines ih =>
    rw [List.flatMap_cons]
    exact ((h line List.mem_cons_self).append (writesProbabilities_of_not_mem (by decide))).append
      (ih fun other hother => h other (List.mem_cons_of_mem line hother))

/-- The line of an alternative writes its probability. -/
theorem writesProbabilities_alternativeLine {heading successor : List Char} {alternatives : Nat}
    {probability : Float} (hprobability : 1 < alternatives → 0.0 ≤ probability ∧ probability ≤ 1.0)
    (hheading : '~' ∉ heading) (hsuccessor : '~' ∉ successor) :
    WritesProbabilities (alternativeLine heading alternatives probability successor) := by
  have hseparator : WritesProbabilities (probabilityText alternatives probability ++ [' ']) := by
    unfold probabilityText
    split
    · rename_i hcount
      have htilde : '~' ∉ shortText probability ++ [' '] := by
        intro hmem
        rcases List.mem_append.1 hmem with hmem | hmem
        · have hchar := mem_shortText hmem
          exact absurd hchar (by decide)
        · exact absurd hmem (by decide)
      intro before after htext
      rcases before with _ | ⟨_, _ | ⟨c, before⟩⟩
      · exact absurd (List.cons.inj htext).1 (by decide)
      · refine ⟨probability, [], ?_, hprobability hcount⟩
        exact (List.cons.inj (List.cons.inj htext).2).2.symm
      · -- behind the mark there is no other one
        have hrest : shortText probability ++ [' '] = before ++ '~' :: after :=
          (List.cons.inj (List.cons.inj htext).2).2
        rw [hrest] at htilde
        exact absurd (List.mem_append_right before List.mem_cons_self) htilde
    · exact writesProbabilities_of_not_mem (by decide)
  have hline : alternativeLine heading alternatives probability successor =
      heading ++ ((probabilityText alternatives probability ++ [' ']) ++
        (['=', ' '] ++ successor)) := by
    simp [alternativeLine]
  rw [hline]
  exact (writesProbabilities_of_not_mem hheading).append (hseparator.append
    ((writesProbabilities_of_not_mem (by decide)).append
      (writesProbabilities_of_not_mem hsuccessor)))

end Lindenmayer.RandomGrammar
