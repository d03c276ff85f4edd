import Lindenmayer.Proofs.Grammar.Coverage
import Lindenmayer.Proofs.RandomGrammar.Alternatives
import Lindenmayer.Proofs.RandomGrammar.Probabilities

/-!
# Random grammars are read and covered

Whatever is drawn, the text of a random grammar is read as a grammar with two settings, and the
probabilities of each of its groups add up to 1.
-/

namespace Lindenmayer.RandomGrammar

open Grammar (IsWhole addTo settingLine splitSetting?)

/-! ## Several lines -/

/-- Lines that are read as productions one after another. -/
theorem readLines_reads {lines : List (List Char)} {productions : List Production}
    (h : List.Forall₂ Reads lines productions) {draft : Grammar.Draft} {word : Word}
    (hinitial : draft.initial = some word) (number : Nat) :
    draft.readLines number lines =
      .ok { draft with productions := draft.productions ++ productions } := by
  induction h generalizing draft number with
  | nil =>
    rw [List.append_nil]
    rfl
  | @cons line p lines productions hline _ ih =>
    have hread : draft.readLine line =
        .ok { draft with productions := draft.productions ++ [p] } := by
      unfold Grammar.Draft.readLine
      rw [hline.no_setting, hinitial]
      simp only [hline.parse_eq, Production.validate_eq_ok.2 hline.bound, bind, Except.bind]
      rfl
    have hrest := @ih { draft with productions := draft.productions ++ [p] } hinitial (number + 1)
    rw [List.append_assoc, List.singleton_append] at hrest
    exact (Grammar.Draft.readLines_whole hline.isWhole).2 ⟨_, hread, hrest⟩

/-- Every line is read as a production. -/
theorem exists_reads_of_mem {lines : List (List Char)} {productions : List Production}
    (h : List.Forall₂ Reads lines productions) : ∀ line ∈ lines, ∃ p, Reads line p := by
  induction h with
  | nil => exact fun line hline => absurd hline List.not_mem_nil
  | cons hline _ ih => exact List.forall_mem_cons.2 ⟨⟨_, hline⟩, ih⟩

/-- Every production is read from a line. -/
theorem exists_reads_of_mem_right {lines : List (List Char)} {productions : List Production}
    (h : List.Forall₂ Reads lines productions) : ∀ p ∈ productions, ∃ line, Reads line p := by
  induction h with
  | nil => exact fun p hp => absurd hp List.not_mem_nil
  | cons hline _ ih => exact List.forall_mem_cons.2 ⟨⟨_, hline⟩, ih⟩

/-! ## The axiom -/

/-- A small natural number as a number of grammars. -/
def whole (n : Nat) : Float :=
  Decimal.toFloat ⟨false, n, 0⟩

/-- Small whole numbers are written with digits only. -/
theorem shortText_whole {n : Nat} (h : n ≤ 15) :
    shortText (whole n) = Text.natDigits n ∧ (whole n).isNaN = false := by
  have hall : ∀ n ∈ List.range 16,
      shortText (whole n) = Text.natDigits n ∧ (whole n).isNaN = false := by
    decide +kernel
  exact hall n (List.mem_range.2 (Nat.lt_succ_of_le h))

/-- An axiom of one element. -/
structure IsStart (word : Word) : Prop where
  singleton : ∃ e, word = [e] ∧ e.symbol ∈ ['F', 'X', 'A']
  isNumeric : word.IsNumeric

section
variable {word : Word} (h : IsStart word)

include h

/-- The axiom of a random grammar can be written. -/
theorem IsStart.isReadable : word.IsReadable := by
  obtain ⟨⟨e, rfl, hsymbol⟩, -⟩ := h
  have hall : ∀ c ∈ ['F', 'X', 'A'], Element.IsSymbol c := by
    unfold Element.IsSymbol
    exact Text.forall_mem_of_all (by decide)
  exact ⟨List.cons_ne_nil _ _, List.forall_mem_singleton.2 (hall _ hsymbol)⟩

theorem IsStart.head : ∃ letter rest, word.text = letter :: rest ∧ letter ∈ ['F', 'X', 'A'] := by
  obtain ⟨⟨e, rfl, hsymbol⟩, -⟩ := h
  exact ⟨e.symbol, _, rfl, hsymbol⟩

theorem IsStart.no_tilde : '~' ∉ word.text := by
  obtain ⟨⟨e, rfl, hsymbol⟩, -⟩ := h
  have htext : Word.text [e] = e.symbol :: e.params.text := List.append_nil _
  rw [htext]
  intro hmem
  rcases List.mem_cons.1 hmem with hmem | hmem
  · rw [← hmem] at hsymbol
    exact absurd hsymbol (by decide)
  · rcases Element.mem_params_text hmem with hmem | ⟨x, -, hmem⟩
    · exact absurd hmem (by decide)
    · have hchar := mem_shortText hmem
      exact absurd hchar (by decide)

/-- It is balanced, as it has no brackets. -/
theorem IsStart.isBalanced : Text.IsBalanced word.symbols := by
  obtain ⟨⟨e, rfl, hsymbol⟩, -⟩ := h
  have hall : ∀ c ∈ ['F', 'X', 'A'], ¬Text.IsBracket c := Text.forall_mem_of_all (by decide)
  exact Text.isBalanced_of_not_isBracket (List.forall_mem_singleton.2 (hall _ hsymbol))

/-- Its text is a line of its own. -/
theorem IsStart.isWhole : IsWhole word.text := by
  obtain ⟨letter, rest, htext, hletter⟩ := h.head
  apply h.isReadable.isWhole_text
  intro others heq
  rw [htext] at heq
  rw [(List.cons.inj heq).1] at hletter
  exact absurd hletter (by decide)

/-- It is no setting. -/
theorem IsStart.no_setting : splitSetting? word.text = none := by
  obtain ⟨letter, rest, htext, hletter⟩ := h.head
  rw [htext]
  unfold splitSetting?
  split
  · rename_i heq
    rw [(List.cons.inj heq).1] at hletter
    exact absurd hletter (by decide)
  · rfl

end

/-! ## Whole texts -/

/-- The lines of an axiom and of productions that cover what they replace. -/
inductive IsBody : List (List Char) → Prop where
  | intro {word : Word} {lines : List (List Char)} {productions : List Production}
      (hword : IsStart word) (hlines : List.Forall₂ Reads lines productions)
      (hcovered : ∀ g : Grammar, g.productions = productions → g.unbalancedGroups = []) :
      IsBody (word.text :: lines)

/-- What random grammars promise: a readable text, whose probabilities are numbers from 0 to 1, and a
grammar with an angle and a step in which every group is covered. -/
def IsSound (text : List Char) : Prop :=
  ∃ g : Grammar, Grammar.parse text = .ok g ∧ WritesProbabilities text ∧
    g.settings.map Prod.fst = ["angle", "step"] ∧ g.unbalancedGroups = []

/-- The settings of a random grammar. -/
def settings (angle : Float) (step : Nat) : Settings :=
  [("angle", .number angle), ("step", .number (whole step))]

/-- The lines before the axiom. -/
def preamble (angle : Float) (step : Nat) : List (List Char) :=
  ["// Random stochastic L-system".toList, "#angle = ".toList ++ shortText angle,
    "#step = ".toList ++ Text.natDigits step]

theorem isSettingName_of_mem_settings (angle : Float) (step : Nat) :
    ∀ entry ∈ settings angle step, IsSettingName entry.1.toList := by
  have hangle : IsSettingName "angle".toList :=
    ⟨'a', _, rfl, by decide, Text.forall_mem_of_all (by decide)⟩
  have hstep : IsSettingName "step".toList :=
    ⟨'s', _, rfl, by decide, Text.forall_mem_of_all (by decide)⟩
  exact List.forall_mem_cons.2 ⟨hangle, List.forall_mem_singleton.2 hstep⟩

section
variable {angle : Float} (hangle : angle.isNaN = false) {step : Nat} (hstep : step ≤ 15)

include hstep

/-- The grammar begins with a comment and its settings. -/
theorem preamble_eq : preamble angle step = "// Random stochastic L-system".toList ::
    (settings angle step).map fun (name, value) => settingLine name value := by
  unfold preamble settings
  rw [List.map_cons, List.map_singleton, ← (shortText_whole hstep).1]
  rfl

theorem no_tilde_of_mem_preamble : ∀ line ∈ preamble angle step, '~' ∉ line := by
  have hnumber (x : Float) : '~' ∉ shortText x := fun hmem => by
    have hchar := mem_shortText hmem
    exact absurd hchar (by decide)
  unfold preamble
  rw [← (shortText_whole hstep).1]
  refine List.forall_mem_cons.2 ⟨by decide, List.forall_mem_cons.2 ⟨?_,
    List.forall_mem_singleton.2 ?_⟩⟩
  · exact List.not_mem_append (by decide) (hnumber angle)
  · exact List.not_mem_append (by decide) (hnumber (whole step))

theorem no_break_of_mem_preamble :
    ∀ line ∈ preamble angle step, ∀ c ∈ line, ¬Text.isLineBreak c := by
  rw [preamble_eq hstep]
  refine List.forall_mem_cons.2 ⟨Text.forall_mem_of_all (by decide), fun line hline => ?_⟩
  obtain ⟨entry, hentry, rfl⟩ := List.mem_map.1 hline
  have hname := isSettingName_of_mem_settings angle step entry hentry
  exact (Grammar.isWhole_settingLine hname entry.2).no_break

include hangle

/-- The comment, the settings, the axiom and the productions are read in turn. -/
theorem parse_preamble {word : Word} {lines : List (List Char)} {productions : List Production}
    (hword : IsStart word) (hlines : List.Forall₂ Reads lines productions) :
    Grammar.parse ((preamble angle step ++ word.text :: lines).flatMap (· ++ ['\n'])) =
      .ok ⟨word, productions, settings angle step⟩ := by
  have hnumeric : (settings angle step).IsNumeric := by
    refine List.forall_mem_cons.2 ⟨?_, List.forall_mem_singleton.2 ?_⟩
    · exact List.forall_mem_singleton.2 hangle
    · exact List.forall_mem_singleton.2 (shortText_whole hstep).2
  have hnames := isSettingName_of_mem_settings angle step
  have hdistinct : ((({} : Grammar.Draft).settings ++ settings angle step).map Prod.fst).Nodup :=
    show ["angle", "step"].Nodup by decide
  have hbreak : ∀ line ∈ preamble angle step ++ word.text :: lines,
      ∀ c ∈ line, ¬Text.isLineBreak c := by
    refine List.forall_mem_append.2 ⟨no_break_of_mem_preamble hstep,
      List.forall_mem_cons.2 ⟨hword.isWhole.no_break, fun line hline => ?_⟩⟩
    obtain ⟨p, hp⟩ := exists_reads_of_mem hlines line hline
    exact hp.isWhole.no_break
  rw [Grammar.parse_eq_ok_iff_draft, Text.lines_flatMap hbreak, preamble_eq hstep, List.cons_append]
  refine (Grammar.Draft.readLines_comment _).trans ?_
  rw [Grammar.Draft.readLines_settings hnames hdistinct]
  refine ⟨hnumeric, ?_⟩
  rw [Grammar.Draft.readLines_whole hword.isWhole]
  exact ⟨_, (Grammar.Draft.readLine_wordText hword.isReadable rfl hword.no_setting).2
    ⟨hword.isNumeric, rfl⟩, readLines_reads hlines rfl _⟩

/-- A text of lines that cover what they replace is sound. -/
theorem isSound_of_isBody {body : List (List Char)} (hbody : IsBody body) :
    IsSound ((preamble angle step ++ body).flatMap (· ++ ['\n'])) := by
  obtain ⟨hword, hlines, hcovered⟩ := hbody
  rename_i word lines productions
  have hreads := exists_reads_of_mem hlines
  have htilde : ∀ line ∈ preamble angle step ++ word.text :: lines, WritesProbabilities line := by
    refine List.forall_mem_append.2 ⟨fun line hline => ?_, List.forall_mem_cons.2
      ⟨writesProbabilities_of_not_mem hword.no_tilde, fun line hline => ?_⟩⟩
    · exact writesProbabilities_of_not_mem (no_tilde_of_mem_preamble hstep line hline)
    · obtain ⟨p, hp⟩ := hreads line hline
      exact hp.probabilities
  exact ⟨_, parse_preamble hangle hstep hword hlines, writesProbabilities_flatMap htilde, rfl,
    hcovered _ rfl⟩

/-- Such a text is read as a grammar that keeps brackets balanced and elements in place. -/
theorem exists_keepsBranches_of_isBody {body : List (List Char)} (hbody : IsBody body) :
    ∃ g : Grammar, Grammar.parse ((preamble angle step ++ body).flatMap (· ++ ['\n'])) = .ok g ∧
      g.KeepsBranches ∧ ∀ p ∈ g.productions, p.successor ≠ [] := by
  obtain ⟨hword, hlines, -⟩ := hbody
  have hreads := exists_reads_of_mem_right hlines
  refine ⟨_, parse_preamble hangle hstep hword hlines, ⟨hword.isBalanced, fun p hp => ?_⟩,
    fun p hp => ?_⟩
  · obtain ⟨line, hline⟩ := hreads p hp
    exact hline.keepsBranches
  · obtain ⟨line, hline⟩ := hreads p hp
    exact hline.successor_ne_nil

end

/-! ## Symbolic grammars -/

/-- The probabilities that a grammar has are those that were computed: a single alternative has all
hundredths. -/
theorem probability_eq_hundredth {parts : List Nat} (hsum : parts.sum = 100) {k : Nat}
    (hk : k ∈ parts) : (if 1 < parts.length then hundredth k else 1.0) = hundredth k := by
  split
  · rfl
  · rename_i hcount
    obtain ⟨l, rfl⟩ : ∃ l, parts = [l] := by
      apply List.length_eq_one_iff.1
      have := List.length_pos_of_mem hk
      omega
    obtain rfl : k = l := List.mem_singleton.1 hk
    obtain rfl : k = 100 := by simpa using hsum
    exact hundredth_hundred.symm

/-- The lines of symbolic alternatives. -/
def IsSymbolicLine (symbol : Char) (alternatives : Nat) (probability : Float) (line : List Char) :
    Prop :=
  ∃ word, (IsBranchedWord symbol word ∧ symbol ∈ word) ∧
    line = alternativeLine [symbol] alternatives probability word

/-- Symbolic alternatives are read as unconditional productions of one group. -/
theorem exists_reads_symbolicLines {symbol : Char} (hsymbol : symbol ∈ ['F', 'X'])
    {alternatives : Nat} {parts : List Nat} (hle : ∀ k ∈ parts, k ≤ 100)
    (hparts : ∀ k ∈ parts, (if 1 < alternatives then hundredth k else 1.0) = hundredth k)
    {lines : List (List Char)}
    (h : List.Forall₂ (IsSymbolicLine symbol alternatives) (parts.map hundredth) lines) :
    ∃ productions, List.Forall₂ Reads lines productions ∧
      (∀ p ∈ productions, p.key = (symbol, 0) ∧ p.isUnconditional = true) ∧
      productions.map (·.probability) = parts.map hundredth := by
  induction parts generalizing lines with
  | nil =>
    cases h
    exact ⟨[], .nil, fun p hp => absurd hp List.not_mem_nil, rfl⟩
  | cons k parts ih =>
    obtain ⟨line, others, ⟨word, hword, rfl⟩, hothers, rfl⟩ := List.forall₂_cons_left_iff.1 h
    obtain ⟨hfirst, hrest⟩ := List.forall_mem_cons.1 hle
    obtain ⟨hwritten, hwrittenRest⟩ := List.forall_mem_cons.1 hparts
    obtain ⟨p, hp, hkey, hunconditional, hprobability⟩ := exists_reads_symbolic hsymbol hword.1
      (List.ne_nil_of_mem hword.2) alternatives (hundredth_mem_range hfirst)
    obtain ⟨productions, hreads, hgroup, hprobabilities⟩ := ih hrest hwrittenRest hothers
    refine ⟨p :: productions, .cons hp hreads, ?_, ?_⟩
    · exact List.forall_mem_cons.2 ⟨⟨hkey, hunconditional⟩, hgroup⟩
    · rw [List.map_cons, List.map_cons, hprobability, hwritten, hprobabilities]

/-- A sum of hundredths is no reason for a warning. -/
theorem filter_sums {key : PredecessorKey} {parts : List Nat} (hsum : parts.sum = 100)
    (hlength : parts.length ≤ 3) (rest : List (PredecessorKey × Float)) :
    ((key, sum (parts.map hundredth)) :: rest).filter
        (fun (_, sum) => 1e-9 < (sum - 1.0).abs) =
      rest.filter (fun (_, sum) => 1e-9 < (sum - 1.0).abs) := by
  apply List.filter_cons_of_neg
  rw [decide_eq_true_iff]
  exact not_lt_abs_sum_sub_one hsum (by omega)

/-- The line by which the symbol that is not replaced otherwise doubles. -/
theorem exists_reads_doubling :
    ∃ p : Production, Reads "F = FF".toList p ∧ p.key = ('F', 0) ∧ p.isUnconditional = true ∧
      0.0 + p.probability = sum ([100].map hundredth) := by
  have hword : IsBranchedWord 'F' ['F', 'F'] :=
    ⟨Text.forall_mem_of_all (by decide),
      Text.isBalanced_of_not_isBracket (Text.forall_mem_of_all (by decide))⟩
  obtain ⟨p, hp, hkey, hunconditional, hprobability⟩ := exists_reads_symbolic (by decide) hword
    (by decide) 1 (hundredth_mem_range (Nat.le_refl 100))
  refine ⟨p, hp, hkey, hunconditional, ?_⟩
  rw [hprobability, List.map_singleton, hundredth_hundred]
  rfl

/-- The lines of a symbolic grammar are those of an axiom and of balanced groups. -/
theorem isBody_symbolic {symbol : Char} (hsymbol : symbol ∈ ['F', 'X']) {parts : List Nat}
    (hsum : parts.sum = 100) (hlength : parts.length ≤ 3) {lines : List (List Char)}
    (h : List.Forall₂ (IsSymbolicLine symbol parts.length) (parts.map hundredth) lines) :
    IsBody ([symbol] :: lines ++ if symbol == 'X' then ["F = FF".toList] else []) := by
  have hle : ∀ k ∈ parts, k ≤ 100 := fun k hk => hsum ▸ List.le_sum_of_mem hk
  obtain ⟨productions, hreads, hgroup, hprobabilities⟩ := exists_reads_symbolicLines hsymbol hle
    (fun k hk => probability_eq_hundredth hsum hk) h
  have hne : productions ≠ [] := by
    rintro rfl
    obtain rfl : parts = [] := List.map_eq_nil_iff.1 hprobabilities.symm
    exact absurd hsum (by decide)
  -- the alternatives are one group, whose sum is that of the hundredths
  have hgroups : productions.foldl (fun sums p => addTo p.key p.probability sums) [] =
      [((symbol, 0), sum (parts.map hundredth))] := by
    rw [Grammar.foldl_addTo_nil (fun p hp => (hgroup p hp).1) hne, hprobabilities]
    rfl
  have hstart : IsStart [.plain symbol] :=
    ⟨⟨_, rfl, List.mem_append_left ['A'] hsymbol⟩, List.forall_mem_singleton.2 nofun⟩
  split
  · rename_i hX
    obtain rfl : symbol = 'X' := beq_iff_eq.1 hX
    -- `F` is another group, with a single production
    obtain ⟨p, hp, hkey, hunconditional, hprobability⟩ := exists_reads_doubling
    refine .intro hstart (List.rel_append hreads (.cons hp .nil)) fun g hg => ?_
    have hall : ∀ p ∈ g.productions, p.isUnconditional = true := by
      intro q hq
      rw [hg] at hq
      rcases List.mem_append.1 hq with hq | hq
      · exact (hgroup q hq).2
      · rw [List.mem_singleton.1 hq]
        exact hunconditional
    rw [Grammar.unbalancedGroups, Grammar.groupSums_of_unconditional hall, hg, List.foldl_append,
      hgroups, List.foldl_cons, List.foldl_nil, hkey, Grammar.addTo_of_ne (by decide),
      filter_sums hsum hlength]
    show List.filter _ [(('F', 0), 0.0 + p.probability)] = []
    rw [hprobability, filter_sums (by decide) (by decide)]
    rfl
  · rw [List.append_nil]
    refine .intro hstart hreads fun g hg => ?_
    have hall : ∀ p ∈ g.productions, p.isUnconditional = true := fun p hp =>
      (hgroup p (hg ▸ hp)).2
    rw [Grammar.unbalancedGroups, Grammar.groupSums_of_unconditional hall, hg, hgroups,
      filter_sums hsum hlength]
    rfl

/-! ## Parametric grammars -/

/-- The lines of parametric alternatives. -/
def IsParametricLine (ratio : Float) (alternatives : Nat) (probability : Float)
    (line : List Char) : Prop :=
  ∃ word, (IsBranchedWord 'A' word ∧ 'A' ∈ word) ∧
    line = alternativeLine (conditionalHeading .ge) alternatives probability
      (withParameter ratio word)

/-- The axiom of a parametric grammar: an `A` with a whole parameter. -/
def startWord (start : Nat) : Word :=
  [⟨'A', ⟨[whole start], Nat.le_of_ble_eq_true rfl⟩⟩]

section
variable {ratio : Float} (hratio : ratio ∈ ratios)

include hratio

/-- Parametric alternatives are read as conditional productions. -/
theorem exists_reads_parametricLines {alternatives : Nat} {parts : List Nat}
    (hle : ∀ k ∈ parts, k ≤ 100) {lines : List (List Char)}
    (h : List.Forall₂ (IsParametricLine ratio alternatives) (parts.map hundredth) lines) :
    ∃ productions, List.Forall₂ Reads lines productions ∧
      ∀ p ∈ productions, p.isUnconditional = false := by
  have hge : Op.ge ∈ [Op.ge, Op.lt] := by decide
  induction parts generalizing lines with
  | nil =>
    cases h
    exact ⟨[], .nil, fun p hp => absurd hp List.not_mem_nil⟩
  | cons k parts ih =>
    obtain ⟨line, others, ⟨word, hword, rfl⟩, hothers, rfl⟩ := List.forall₂_cons_left_iff.1 h
    obtain ⟨hfirst, hrest⟩ := List.forall_mem_cons.1 hle
    obtain ⟨p, hp, hconditional⟩ := exists_reads_parametric hratio hge hword.1
      (List.ne_nil_of_mem hword.2) alternatives (hundredth_mem_range hfirst)
    obtain ⟨productions, hreads, hall⟩ := ih hrest hothers
    exact ⟨p :: productions, .cons hp hreads, List.forall_mem_cons.2 ⟨hconditional, hall⟩⟩

/-- The lines of a parametric grammar are those of an axiom and of no group at all. -/
theorem isBody_parametric {start : Nat} (hstart : start ≤ 15) {parts : List Nat}
    (hsum : parts.sum = 100) {lines : List (List Char)}
    (h : List.Forall₂ (IsParametricLine ratio parts.length) (parts.map hundredth) lines) :
    IsBody (("A(".toList ++ Text.natDigits start ++ [')']) :: lines ++
      ["A(l) : l < 1 = F(l)".toList]) := by
  have hle : ∀ k ∈ parts, k ≤ 100 := fun k hk => hsum ▸ List.le_sum_of_mem hk
  obtain ⟨productions, hreads, hconditional⟩ := exists_reads_parametricLines hratio hle h
  have hlt : Op.lt ∈ [Op.ge, Op.lt] := by decide
  have hsingle : IsBranchedWord 'A' ['F'] :=
    ⟨List.forall_mem_singleton.2 (by decide),
      Text.isBalanced_of_not_isBracket (Text.forall_mem_of_all (by decide))⟩
  obtain ⟨p, hp, hstop⟩ := exists_reads_parametric hratio hlt hsingle (by decide) 1
    (hundredth_mem_range (Nat.le_refl 100))
  obtain ⟨htext, hnumeric⟩ := shortText_whole hstart
  have hword : IsStart (startWord start) :=
    ⟨⟨_, rfl, show 'A' ∈ ['F', 'X', 'A'] by decide⟩,
      List.forall_mem_singleton.2 (List.forall_mem_singleton.2 hnumeric)⟩
  have hwordText : (startWord start).text = "A(".toList ++ Text.natDigits start ++ [')'] := by
    show 'A' :: ('(' :: [',', ' '].intercalate [shortText (whole start)] ++ [')']) ++ [] = _
    rw [List.intercalate_singleton, htext, List.append_nil]
    rfl
  rw [← hwordText]
  refine .intro hword (List.rel_append hreads (.cons hp .nil)) fun g hg => ?_
  -- a production with a condition is in no group at all
  apply Grammar.unbalancedGroups_of_conditional
  intro q hq
  rw [hg] at hq
  rcases List.mem_append.1 hq with hq | hq
  · exact hconditional q hq
  · rw [List.mem_singleton.1 hq]
    exact hstop

end

end Lindenmayer.RandomGrammar
