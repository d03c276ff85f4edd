import Lindenmayer.Grammar.Coverage
import Lindenmayer.Proofs.Derivation.Branches
import Lindenmayer.Proofs.RandomGrammar.Lines
import Lindenmayer.Proofs.RandomGrammar.Words

/-!
# Alternatives of random grammars

The lines of random grammars are read as productions: symbolic ones, which replace a symbol without
parameters always, and parametric ones, which replace an `A` as long as its parameter is large
enough, or let it stop.
-/

namespace Lindenmayer.RandomGrammar

open Element (IsSymbol)
open Grammar (IsInline IsWhole splitSetting?)
open Production

/-- A line that is read as a production whose variables are bound and whose successor is balanced
and not empty, and that writes probabilities only. -/
structure Reads (line : List Char) (p : Production) : Prop where
  isWhole : IsWhole line
  no_setting : splitSetting? line = none
  parse_eq : Production.parse line = .ok p
  bound : p.Bound
  probabilities : WritesProbabilities line
  keepsBranches : p.KeepsBranches
  successor_ne_nil : p.successor ≠ []

/-- The probability that a production has for one of several alternatives. -/
theorem probability_mem_range {probability : Float}
    (h : 0.0 ≤ probability ∧ probability ≤ 1.0) (alternatives : Nat) :
    0.0 ≤ (if 1 < alternatives then probability else 1.0) ∧
      (if 1 < alternatives then probability else 1.0) ≤ 1.0 := by
  split
  · exact h
  · decide

/-- A production without contexts for one of several alternatives. -/
def alternative (predecessor : Element String) (condition : Option Expr)
    (successor : List (Element Expr)) (alternatives : Nat) {probability : Float}
    (hprobability : 0.0 ≤ probability ∧ probability ≤ 1.0)
    (hletters : ∀ name ∈ predecessor.params.values, isFormalName name)
    (hnodup : predecessor.params.values.Nodup) : Production where
  predecessor := predecessor
  successor := successor
  condition := condition
  probability := if 1 < alternatives then probability else 1.0
  wellFormed := by
    have hformals {parts : Parts} (hleft : parts.left = none) (hright : parts.right = none) :
        parts.formals = parts.predecessor.params.values := by
      simp [Parts.formals, hleft, hright]
    have hrange := probability_mem_range hprobability alternatives
    refine ⟨hrange.1, hrange.2, ?_, ?_⟩
    · rw [hformals rfl rfl]
      exact hletters
    · rw [hformals rfl rfl]
      exact hnodup

/-- A line that shows the parts of a production is read as the production. -/
theorem reads_alternativeLine {heading : List Char} {alternatives : Nat} {probability : Float}
    {p : Production} (hheading : IsHeading heading p.predecessor p.condition)
    (hleft : p.left = none) (hright : p.right = none)
    (hprobability : p.probability = if 1 < alternatives then probability else 1.0)
    (hne : p.successor ≠ [])
    (hsymbols : ∀ e ∈ p.successor, IsSymbol e.symbol ∧ e.symbol ∉ ['/', '~'])
    (hparams : ∀ e ∈ p.successor, ∀ param ∈ e.params.values, param.Printable) (hbound : p.Bound)
    (hbranches : p.KeepsBranches) :
    Reads (alternativeLine heading alternatives probability (elementsText p.successor)) p := by
  have hslash {e : Element Expr} (he : e ∈ p.successor) : e.symbol ≠ '/' := fun heq =>
    (hsymbols e he).2 (heq ▸ List.mem_cons_self)
  have hwritable : ∀ e ∈ p.successor, e.IsWritable := fun e he =>
    ⟨(hsymbols e he).1, fun param hparam => (hparams e he param hparam).isSolid⟩
  obtain ⟨e, others, hsuccessor⟩ := List.exists_cons_of_ne_nil hne
  have hhead : elementsText p.successor = e.symbol :: (e.params.text ++ elementsText others) := by
    rw [hsuccessor]
    rfl
  -- the only tilde on the line is the one in front of the probability
  have htilde : '~' ∉ elementsText p.successor := by
    intro hmem
    obtain ⟨e, he, hmem⟩ := List.mem_flatMap.1 hmem
    rcases List.mem_cons.1 hmem with hmem | hmem
    · exact (hsymbols e he).2 (hmem ▸ List.mem_cons_of_mem _ List.mem_cons_self)
    · rcases Element.mem_params_text hmem with hmem | ⟨param, hparam, hmem⟩
      · exact absurd hmem (by decide)
      · exact (hparams e he param hparam).not_mem_text (by decide) hmem
  refine ⟨?_, splitSetting?_alternativeLine hheading, ?_, hbound, ?_, hbranches, hne⟩
  · apply isWhole_alternativeLine hheading hprobability (Grammar.isInline_elementsText hwritable)
    · rw [hhead]
      exact List.cons_ne_nil _ _
    · intro c hc
      rw [hhead] at hc
      obtain rfl : e.symbol = c := Option.some.inj hc
      exact hslash (hsuccessor ▸ List.mem_cons_self)
    · exact Grammar.not_isBlank_getLast_elementsText hwritable
  · apply parse_alternativeLine hheading hleft hright hprobability
    exact readSuccessor_elementsText Text.isBlanks_space hwritable hparams
  · refine writesProbabilities_alternativeLine (fun hcount => ?_) hheading.no_tilde htilde
    rw [if_pos hcount] at hprobability
    rw [← hprobability]
    exact ⟨p.wellFormed.probability_nonneg, p.wellFormed.probability_le_one⟩

theorem isSymbol_of_mem_wordSymbols {grower : Char} (hgrower : grower ∈ ['F', 'X', 'A']) {c : Char}
    (hc : c ∈ wordSymbols grower) : IsSymbol c ∧ c ∉ ['/', '~'] := by
  have hall : ∀ c ∈ ['F', 'X', 'A', '+', '-', '[', ']'], IsSymbol c ∧ c ∉ ['/', '~'] := by
    unfold IsSymbol
    exact Text.forall_mem_of_all (by decide)
  apply hall
  simp only [wordSymbols, List.mem_cons, List.not_mem_nil, or_false] at hgrower hc ⊢
  grind

/-- The line of a production whose successor is made from a word, symbol by symbol, is read as this
production. -/
theorem reads_alternative {heading word : List Char} {predecessor : Element String}
    {condition : Option Expr} {element : Char → Element Expr} {grower : Char} {alternatives : Nat}
    {probability : Float} (hgrower : grower ∈ ['F', 'X', 'A']) (hword : IsBranchedWord grower word)
    (hne : word ≠ []) (hheading : IsHeading heading predecessor condition)
    (hbracket : ¬Text.IsBracket predecessor.symbol) (hsymbol : ∀ c, (element c).symbol = c)
    (hparams : ∀ c, ∀ param ∈ (element c).params.values, param.Printable)
    (hprobability : 0.0 ≤ probability ∧ probability ≤ 1.0)
    (hletters : ∀ name ∈ predecessor.params.values, isFormalName name)
    (hnodup : predecessor.params.values.Nodup)
    (hbound : (alternative predecessor condition (word.map element) alternatives hprobability
      hletters hnodup).Bound) :
    Reads (alternativeLine heading alternatives probability (elementsText (word.map element)))
      (alternative predecessor condition (word.map element) alternatives hprobability hletters
        hnodup) := by
  refine reads_alternativeLine
    (p := alternative predecessor condition (word.map element) alternatives hprobability hletters
      hnodup) hheading rfl rfl rfl ?_ ?_ ?_ hbound ?_
  · intro hnil
    exact hne (List.map_eq_nil_iff.1 hnil)
  · intro e he
    obtain ⟨c, hc, rfl⟩ := List.mem_map.1 he
    rw [hsymbol]
    exact isSymbol_of_mem_wordSymbols hgrower (hword.symbols c hc)
  · intro e he
    obtain ⟨c, -, rfl⟩ := List.mem_map.1 he
    exact hparams c
  · refine ⟨hbracket, ?_⟩
    have hsymbols : Element.symbol ∘ element = id := funext hsymbol
    show Text.IsBalanced ((word.map element).map Element.symbol)
    rw [List.map_map, hsymbols, List.map_id]
    exact hword.balanced

/-! ## Symbolic productions -/

/-- A symbol is a heading without a condition. -/
theorem isHeading_symbol {symbol : Char} (h : symbol ∈ ['F', 'X']) :
    IsHeading [symbol] (.plain symbol) none := by
  have hchars : ∀ symbol ∈ ['F', 'X'], ¬Text.isBlank symbol ∧ symbol.isAlpha ∧
      symbol ∉ [':', '=', '<', '>'] ∧ '~' ∉ [symbol] :=
    Text.forall_mem_of_all (by decide)
  have hread : ∀ symbol ∈ ['F', 'X'],
      (readFormal [symbol, ' ']).toOption = some (.plain symbol) :=
    Text.forall_mem_of_all (by decide +kernel)
  obtain ⟨hblank, hletter, hsymbol, htilde⟩ := hchars symbol h
  have hmarks : ∀ c ∈ [symbol, ' '], c ∉ [':', '=', '<', '>'] :=
    List.forall_mem_cons.2 ⟨hsymbol, List.forall_mem_singleton.2 (by decide)⟩
  exact
    { isInline := Grammar.isInline_singleton hblank
      head := ⟨symbol, [], rfl, hletter⟩
      no_tilde := htilde
      sections := ⟨[symbol, ' '], none, rfl, fun mark hmark hmem => hmarks mark hmem hmark,
        toOption_eq_some.1 (hread symbol h), .none⟩ }

/-- The production that replaces a symbol without parameters, whatever stands around it. -/
def symbolicAlternative (symbol : Char) (word : List Char) (alternatives : Nat)
    {probability : Float} (hprobability : 0.0 ≤ probability ∧ probability ≤ 1.0) : Production :=
  alternative (.plain symbol) none (word.map Element.plain) alternatives hprobability nofun
    List.nodup_nil

/-- A symbolic line is read as an unconditional production for its symbol. -/
theorem exists_reads_symbolic {symbol : Char} (hsymbol : symbol ∈ ['F', 'X']) {word : List Char}
    (hword : IsBranchedWord symbol word) (hne : word ≠ []) (alternatives : Nat)
    {probability : Float} (hprobability : 0.0 ≤ probability ∧ probability ≤ 1.0) :
    ∃ p : Production, Reads (alternativeLine [symbol] alternatives probability word) p ∧
      p.key = (symbol, 0) ∧ p.isUnconditional = true ∧
      p.probability = if 1 < alternatives then probability else 1.0 := by
  have htext : elementsText (symbolicAlternative symbol word alternatives hprobability).successor =
      word := by
    show (word.map Element.plain).flatMap Element.text = word
    rw [List.flatMap_map]
    exact List.flatMap_singleton' word
  have hbracket : ∀ symbol ∈ ['F', 'X'], ¬Text.IsBracket symbol :=
    Text.forall_mem_of_all (by decide)
  have hreads : Reads (alternativeLine [symbol] alternatives probability
      (elementsText (symbolicAlternative symbol word alternatives hprobability).successor))
      (symbolicAlternative symbol word alternatives hprobability) := by
    apply reads_alternative (List.mem_append_left ['A'] hsymbol) hword hne
      (isHeading_symbol hsymbol) (hbracket symbol hsymbol) (fun _ => rfl)
    · exact fun c param hparam => absurd hparam List.not_mem_nil
    · -- there are no variables
      intro name hname
      obtain ⟨e, he, hvar⟩ := List.mem_flatMap.1 hname
      obtain ⟨c, -, rfl⟩ := List.mem_map.1 he
      exact absurd hvar List.not_mem_nil
  rw [htext] at hreads
  exact ⟨_, hreads, rfl, rfl, rfl⟩

/-! ## Parametric productions -/

/-- The formula that compares the parameter with 1. -/
def comparison (op : Op) : Expr :=
  .binary op (.var "l") (.number (Decimal.toFloat ⟨false, 1, 0⟩))

/-- What stands before the condition of a parametric production. -/
def shrinkingText : List Char :=
  ['A', '(', 'l', ')', ' ']

/-- The heading of a production for `A` that applies on a condition. -/
def conditionalHeading (op : Op) : List Char :=
  shrinkingText ++ ':' :: ([' ', 'l', ' '] ++ (op.text ++ [' ', '1']))

/-- What is replaced by a parametric production. -/
def shrinking : Element String :=
  ⟨'A', ⟨["l"], Params.length_singleton_le "l"⟩⟩

theorem parse_comparison {op : Op} (hop : op ∈ Expr.leftOperators 2) :
    Expr.parse ([' ', 'l', ' '] ++ (op.text ++ [' ', '1']) ++ [' ']) = .ok (comparison op) := by
  apply Expr.parse_of_isFormula
  have hrun : Literal.IsRun ['1'] := ⟨List.cons_ne_nil _ _, Text.forall_mem_of_all (by decide)⟩
  have hone : Literal.IsLiteral ['1'] ⟨false, 1, 0⟩ := .intro .absent (.whole hrun) .absent
  have hletter : Expr.Derives 6 [' ', 'l'] (.var "l") := .letter Text.isBlanks_space (by decide)
  have hnumber : Expr.Derives 6 [' ', '1'] (.number (Decimal.toFloat ⟨false, 1, 0⟩)) :=
    .literal Text.isBlanks_space hone
  have hcomparison : Expr.Derives 2 ([' ', 'l'] ++ ([' '] ++ (op.text ++ [' ', '1'])))
      (comparison op) :=
    .left hop (hletter.mono (by decide)) Text.isBlanks_space (hnumber.mono (by decide))
  exact ⟨_, [' '], .tighter hcomparison, Text.isBlanks_space, rfl⟩

/-- The heading of a parametric production shows its condition. -/
theorem isHeading_conditional {op : Op} (hop : op ∈ [Op.ge, Op.lt]) :
    IsHeading (conditionalHeading op) shrinking (some (comparison op)) := by
  have hmem : ∀ op ∈ [Op.ge, Op.lt], op ∈ Expr.leftOperators 2 := by decide
  have htilde : ∀ op ∈ [Op.ge, Op.lt], '~' ∉ conditionalHeading op := by decide
  have hread : (readFormal shrinkingText).toOption = some shrinking := by
    decide +kernel
  have hsplit : conditionalHeading op ++ [' '] =
      shrinkingText ++ marked ':' (some ([' ', 'l', ' '] ++ (op.text ++ [' ', '1']) ++ [' '])) := by
    rw [conditionalHeading, marked_some, List.append_assoc, List.cons_append]
  refine
    { isInline := ?_
      head := ⟨'A', _, rfl, by decide⟩
      no_tilde := htilde op hop
      sections := ⟨shrinkingText, _, hsplit, Text.forall_mem_of_all (by decide),
        toOption_eq_some.1 hread, .some (parse_comparison (hmem op hop))⟩ }
  simp only [List.mem_cons, List.not_mem_nil, or_false] at hop
  rcases hop with rfl | rfl
  · exact ⟨Text.forall_mem_of_all (by decide), fun rest => rfl⟩
  · exact ⟨Text.forall_mem_of_all (by decide), fun rest => rfl⟩

/-- What an element of a word becomes when it takes part of a parameter: `F` carries the parameter,
and `A` passes on a fraction of it. -/
def elementWith (ratio : Float) (c : Char) : Element Expr :=
  if c == 'F' then ⟨'F', ⟨[.var "l"], by decide⟩⟩
  else if c == 'A' then ⟨'A', ⟨[.binary .mul (.var "l") (.number ratio)], Nat.le_of_ble_eq_true rfl⟩⟩
  else .plain c

@[simp]
theorem symbol_elementWith (ratio : Float) (c : Char) : (elementWith ratio c).symbol = c := by
  unfold elementWith
  split
  · rename_i heq
    exact (beq_iff_eq.1 heq).symm
  · split
    · rename_i heq
      exact (beq_iff_eq.1 heq).symm
    · rfl

/-- The production that replaces `A` on a condition and passes on a fraction of its parameter. -/
def parametricAlternative (op : Op) (ratio : Float) (word : List Char) (alternatives : Nat)
    {probability : Float} (hprobability : 0.0 ≤ probability ∧ probability ≤ 1.0) : Production :=
  alternative shrinking (some (comparison op)) (word.map (elementWith ratio)) alternatives
    hprobability (by decide) (by decide)

/-- The fractions that are passed on. -/
def ratios : List Float :=
  [0.5, 0.6, 0.7, 0.8]

theorem fullText_of_mem_ratios {ratio : Float} (h : ratio ∈ ratios) :
    fullText ratio = shortText ratio ∧ ratio.isNaN = false := by
  have hall : ∀ ratio ∈ ratios, fullText ratio = shortText ratio ∧ ratio.isNaN = false := by
    decide +kernel
  exact hall ratio h

section
variable {ratio : Float} (hratio : ratio ∈ ratios)

include hratio

theorem withParameter_eq (word : List Char) :
    withParameter ratio word = elementsText (word.map (elementWith ratio)) := by
  unfold withParameter elementsText
  rw [List.flatMap_map]
  congr 1
  funext c
  show _ = (elementWith ratio c).text
  unfold elementWith
  split
  · rfl
  · split
    · have hformula : (Expr.binary .mul (.var "l") (.number ratio)).text =
          ['l', '*'] ++ shortText ratio := rfl
      show _ = 'A' :: ('(' :: [',', ' '].intercalate [Expr.text _] ++ [')'])
      rw [(fullText_of_mem_ratios hratio).1, List.intercalate_singleton, hformula]
      rfl
    · rfl

/-- The parameter is the only variable. -/
theorem params_elementWith (c : Char) : ∀ param ∈ (elementWith ratio c).params.values,
    param.Printable ∧ ∀ name ∈ param.vars, name = "l" := by
  have hvar : (Expr.var "l").Printable := ⟨'l', by decide, rfl⟩
  unfold elementWith
  split
  · intro param hparam
    rw [List.mem_singleton.1 hparam]
    exact ⟨hvar, fun name hname => List.mem_singleton.1 hname⟩
  · split
    · intro param hparam
      rw [List.mem_singleton.1 hparam]
      exact ⟨⟨hvar, (fullText_of_mem_ratios hratio).2⟩, fun name hname => List.mem_singleton.1 hname⟩
    · exact fun param hparam => absurd hparam List.not_mem_nil

/-- A parametric line is read as a conditional production. -/
theorem exists_reads_parametric {op : Op} (hop : op ∈ [Op.ge, Op.lt]) {word : List Char}
    (hword : IsBranchedWord 'A' word) (hne : word ≠ []) (alternatives : Nat)
    {probability : Float} (hprobability : 0.0 ≤ probability ∧ probability ≤ 1.0) :
    ∃ p : Production, Reads (alternativeLine (conditionalHeading op) alternatives probability
        (withParameter ratio word)) p ∧ p.isUnconditional = false := by
  have hbound : (parametricAlternative op ratio word alternatives hprobability).Bound := by
    intro name hname
    rcases List.mem_append.1 hname with hname | hname
    · exact hname
    · obtain ⟨e, he, hvar⟩ := List.mem_flatMap.1 hname
      obtain ⟨c, -, rfl⟩ := List.mem_map.1 he
      obtain ⟨param, hparam, hvar⟩ := List.mem_flatMap.1 hvar
      rw [(params_elementWith hratio c param hparam).2 name hvar]
      exact List.mem_cons_self
  rw [withParameter_eq hratio]
  exact ⟨_, reads_alternative (by decide) hword hne (isHeading_conditional hop) (by decide)
    (symbol_elementWith ratio) (fun c param hparam => (params_elementWith hratio c param hparam).1)
    hprobability (by decide) (by decide) hbound, rfl⟩

end

end Lindenmayer.RandomGrammar
