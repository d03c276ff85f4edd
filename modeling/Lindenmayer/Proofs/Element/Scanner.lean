import Lindenmayer.Proofs.Element.Nesting
import Lindenmayer.Proofs.Outcome
import Lindenmayer.Proofs.Text.Blank

/-!
# The grammar of elements

A text of elements is a sequence of symbols with blanks between all parts; a symbol may be followed
by a group in parentheses, which separators cut into the texts of one to three parameters. The
scanner accepts exactly these texts, and gives their elements.
-/

namespace Lindenmayer.Element

open Text

/-- The characters that are symbols. -/
def IsSymbol (c : Char) : Prop :=
  ¬isBlank c ∧ c ≠ '(' ∧ c ≠ ')' ∧ c ≠ ','

theorem closes_blanks {blanks : List Char} (h : IsBlanks blanks) : Closes 0 blanks :=
  closes_of_not_mem (fun hmem => absurd (h _ hmem) (by decide))
    (fun hmem => absurd (h _ hmem) (by decide))

variable {α : Type}

/-- The texts of single parameters, blanks around them included, and what they are read as. -/
def IsParam (convert : List Char → Except Error α) (text : List Char) (value : α) : Prop :=
  Free ',' 0 text ∧ trim text ≠ [] ∧ convert (trim text) = .ok value

/-- The texts of groups without their parentheses, and their values. -/
inductive IsParams (convert : List Char → Except Error α) : List Char → List α → Prop where
  | last {text : List Char} {value : α} (hparam : IsParam convert text value) :
      IsParams convert text [value]
  | cons {text rest : List Char} {value : α} {values : List α}
      (hparam : IsParam convert text value) (hdepth : depthAfter 0 text = 0)
      (hrest : IsParams convert rest values) :
      IsParams convert (text ++ ',' :: rest) (value :: values)

/-- The texts of elements. -/
inductive IsElements (convert : List Char → Except Error α) :
    List Char → List (Element α) → Prop where
  | nil {blanks : List Char} (hblanks : IsBlanks blanks) : IsElements convert blanks []
  | plain {blanks rest : List Char} {c : Char} {elements : List (Element α)}
      (hblanks : IsBlanks blanks) (hsymbol : IsSymbol c)
      (hrest : IsElements convert rest elements) :
      IsElements convert (blanks ++ c :: rest) (.plain c :: elements)
  | group {blanks blanks' group rest : List Char} {c : Char} {params : Params α}
      {elements : List (Element α)} (hblanks : IsBlanks blanks) (hsymbol : IsSymbol c)
      (hblanks' : IsBlanks blanks') (hgroup : Closes 0 group)
      (hparams : IsParams convert group params.values)
      (hrest : IsElements convert rest elements) :
      IsElements convert (blanks ++ c :: (blanks' ++ '(' :: (group ++ ')' :: rest)))
        (⟨c, params⟩ :: elements)

variable {convert : List Char → Except Error α}

/-! ## Groups -/

/-- Pieces that are read one by one are the parameters of a group. -/
theorem isParams_of_pieces {pieces : List (List Char)} {group : List Char} {values : List α}
    (hpieces : splitOutside ',' 0 group = pieces) (hne : ∀ piece ∈ pieces, trim piece ≠ [])
    (hvalues : (pieces.map trim).mapM convert = .ok values) : IsParams convert group values := by
  induction pieces generalizing group values with
  | nil => exact absurd hpieces (splitOutside_ne_nil _ _ _)
  | cons piece pieces ih =>
    rw [List.map_cons, mapM_cons_eq_ok] at hvalues
    obtain ⟨value, others, hvalue, hothers, rfl⟩ := hvalues
    have hpiece := hne piece List.mem_cons_self
    rcases splitOutside_eq_cons hpieces with ⟨rfl, rfl, hfree⟩ | ⟨rest, rfl, hfree, hdepth, hrest⟩
    · obtain rfl : [] = others := Except.ok.inj hothers
      exact .last ⟨hfree, hpiece, hvalue⟩
    · exact .cons ⟨hfree, hpiece, hvalue⟩ hdepth
        (ih hrest (fun p hp => hne p (List.mem_cons_of_mem _ hp)) hothers)

/-- The parameters of a group are its pieces. -/
theorem pieces_of_isParams {group : List Char} {values : List α}
    (h : IsParams convert group values) :
    (∀ piece ∈ splitOutside ',' 0 group, trim piece ≠ []) ∧
      ((splitOutside ',' 0 group).map trim).mapM convert = .ok values := by
  induction h with
  | last hparam =>
    obtain ⟨hfree, hne, hvalue⟩ := hparam
    rw [splitOutside_of_free hfree]
    refine ⟨fun piece hpiece => ?_, mapM_cons_eq_ok.2 ⟨_, [], hvalue, rfl, rfl⟩⟩
    rwa [List.mem_singleton.1 hpiece]
  | cons hparam hdepth _ ih =>
    obtain ⟨hfree, hne, hvalue⟩ := hparam
    rw [splitOutside_append hfree hdepth]
    refine ⟨fun piece hpiece => ?_, mapM_cons_eq_ok.2 ⟨_, _, hvalue, ih.2, rfl⟩⟩
    rcases List.mem_cons.1 hpiece with rfl | hpiece
    · exact hne
    · exact ih.1 piece hpiece

/-- A list of values is accepted if it is not too long. -/
theorem ofList_eq_ok {values : List α} {params : Params α} :
    Params.ofList values = .ok params ↔ values = params.values := by
  unfold Params.ofList
  constructor
  · intro h
    split at h
    · rw [← Except.ok.inj h]
    · exact absurd h nofun
  · rintro rfl
    rw [dif_pos params.length_le]

/-- A group is read exactly if it is the text of parameters. -/
theorem readParams_eq_ok {symbol : Char} {group : List Char} {params : Params α} :
    readParams convert symbol group = .ok params ↔ IsParams convert group params.values := by
  have hempty : ((splitOutside ',' 0 group).map trim).any List.isEmpty = false ↔
      ∀ piece ∈ splitOutside ',' 0 group, trim piece ≠ [] := by
    simp
  unfold readParams
  simp only
  cases hany : ((splitOutside ',' 0 group).map trim).any List.isEmpty with
  | true =>
    refine ⟨nofun, fun h => ?_⟩
    rw [hempty.2 (pieces_of_isParams h).1] at hany
    exact absurd hany nofun
  | false =>
    show (((splitOutside ',' 0 group).map trim).mapM convert >>= Params.ofList) = _ ↔ _
    rw [bind_eq_ok]
    constructor
    · rintro ⟨values, hvalues, hparams⟩
      obtain rfl := ofList_eq_ok.1 hparams
      exact isParams_of_pieces rfl (hempty.1 hany) hvalues
    · intro h
      exact ⟨params.values, (pieces_of_isParams h).2, ofList_eq_ok.2 rfl⟩

/-! ## The scanner -/

/-- A blank in front is skipped. -/
theorem scanFrom_blank {c : Char} (h : isBlank c) (whole rest : List Char) :
    scanFrom convert whole (c :: rest) = scanFrom convert whole rest := by
  rw [scanFrom, if_pos h]

/-- So are several blanks. -/
theorem scanFrom_blanks {blanks : List Char} (h : IsBlanks blanks) (whole rest : List Char) :
    scanFrom convert whole (blanks ++ rest) = scanFrom convert whole rest := by
  induction blanks with
  | nil => rfl
  | cons c blanks ih =>
    rw [List.cons_append, scanFrom_blank (h c List.mem_cons_self)]
    exact ih fun d hd => h d (List.mem_cons_of_mem c hd)

/-- A symbol without a group is an element without parameters. -/
theorem scanFrom_plain {c : Char} (hsymbol : IsSymbol c) {rest : List Char}
    (hrest : ∀ inner, dropBlanks rest ≠ '(' :: inner) (whole : List Char) :
    scanFrom convert whole (c :: rest) =
      scanFrom convert whole rest >>= fun elements => .ok (.plain c :: elements) := by
  -- no blank and no punctuation, so the last branch is taken
  obtain ⟨hblank, hopen, hclose, hcomma⟩ := hsymbol
  rw [scanFrom, if_neg hblank, if_neg (by simp [hopen, hclose, hcomma])]
  split
  · rename_i inner hinner
    exact absurd hinner (hrest inner)
  · rfl

/-- A symbol with a group is an element with parameters. -/
theorem scanFrom_group {c : Char} (hsymbol : IsSymbol c) {rest inner group after : List Char}
    (hrest : dropBlanks rest = '(' :: inner) (hgroup : takeGroup 0 inner = some (group, after))
    (whole : List Char) :
    scanFrom convert whole (c :: rest) =
      readParams convert c group >>= fun params =>
        scanFrom convert whole after >>= fun elements => .ok (⟨c, params⟩ :: elements) := by
  obtain ⟨hblank, hopen, hclose, hcomma⟩ := hsymbol
  rw [scanFrom, if_neg hblank, if_neg (by simp [hopen, hclose, hcomma])]
  split
  · rename_i inner' hinner
    obtain rfl : inner = inner' := by simpa [hrest] using hinner
    split
    · rename_i hnone
      rw [hgroup] at hnone
      cases hnone
    · rename_i group' after' hsome
      obtain ⟨rfl, rfl⟩ : group = group' ∧ after = after' := by simpa [hgroup] using hsome
      rfl
  · rename_i hother
    exact absurd hrest (hother inner)

/-- A group that is not closed is reported with its symbol. -/
theorem scanFrom_unclosed {c : Char} (hsymbol : IsSymbol c) {rest inner : List Char}
    (hrest : dropBlanks rest = '(' :: inner) (hgroup : takeGroup 0 inner = none)
    (whole : List Char) :
    scanFrom convert whole (c :: rest) = .error (.grammar (.unclosedGroup c)) := by
  obtain ⟨hblank, hopen, hclose, hcomma⟩ := hsymbol
  rw [scanFrom, if_neg hblank, if_neg (by simp [hopen, hclose, hcomma])]
  split
  · rename_i inner' hinner
    obtain rfl : inner = inner' := by simpa [hrest] using hinner
    split
    · rfl
    · rename_i hsome
      rw [hgroup] at hsome
      cases hsome
  · rename_i hother
    exact absurd hrest (hother inner)

/-- What is no symbol is reported with the whole text. -/
theorem scanFrom_error {c : Char} (hblank : ¬isBlank c) (hsymbol : ¬IsSymbol c)
    (whole rest : List Char) :
    scanFrom convert whole (c :: rest) =
      .error (.grammar (.unexpectedSymbol c (trim whole))) := by
  have hpunctuation : (c == '(' || c == ')' || c == ',') = true := by
    simp only [Bool.or_eq_true, beq_iff_eq, or_assoc]
    by_cases hopen : c = '('
    · exact .inl hopen
    · by_cases hclose : c = ')'
      · exact .inr (.inl hclose)
      · by_cases hcomma : c = ','
        · exact .inr (.inr hcomma)
        · exact absurd ⟨hblank, hopen, hclose, hcomma⟩ hsymbol
  rw [scanFrom, if_neg hblank, if_pos hpunctuation]

/-- Blanks in front of elements do not matter. -/
theorem IsElements.blanks {blanks text : List Char} {elements : List (Element α)}
    (hblanks : IsBlanks blanks) (h : IsElements convert text elements) :
    IsElements convert (blanks ++ text) elements := by
  cases h with
  | nil hblanks' => exact .nil (hblanks.append hblanks')
  | plain hblanks' hsymbol hrest =>
    rw [← List.append_assoc]
    exact .plain (hblanks.append hblanks') hsymbol hrest
  | group hblanks' hsymbol hinner hgroup hparams hrest =>
    rw [← List.append_assoc]
    exact .group (hblanks.append hblanks') hsymbol hinner hgroup hparams hrest

/-- What is scanned belongs to the grammar, by induction on the length of the text. -/
theorem isElements_of_scanFrom {whole text : List Char} {elements : List (Element α)}
    (h : scanFrom convert whole text = .ok elements) : IsElements convert text elements := by
  induction hn : text.length using Nat.strongRecOn generalizing text elements with
  | _ n ih =>
    subst hn
    cases text with
    | nil =>
      rw [scanFrom] at h
      obtain rfl := Except.ok.inj h
      exact .nil isBlanks_nil
    | cons c rest =>
      have hshorter : rest.length < (c :: rest).length := Nat.lt_succ_self _
      by_cases hblank : isBlank c
      · rw [scanFrom_blank hblank] at h
        -- a blank joins those in front of what follows
        have hc : IsBlanks [c] := fun d hd => by rwa [List.mem_singleton.1 hd]
        exact .blanks hc (ih _ hshorter h rfl)
      · by_cases hsymbol : IsSymbol c
        · by_cases hopen : ∃ inner, dropBlanks rest = '(' :: inner
          · -- the symbol has a group, and scanning goes on behind it
            obtain ⟨inner, hrest⟩ := hopen
            cases hgroup : takeGroup 0 inner with
            | none =>
              rw [scanFrom_unclosed hsymbol hrest hgroup] at h
              cases h
            | some taken =>
              obtain ⟨group, after⟩ := taken
              rw [scanFrom_group hsymbol hrest hgroup, bind_eq_ok] at h
              obtain ⟨params, hparams, h⟩ := h
              rw [bind_eq_ok] at h
              obtain ⟨others, hothers, hresult⟩ := h
              obtain rfl := Except.ok.inj hresult
              obtain ⟨blanks, hblanks, htext⟩ := exists_blanks rest
              obtain ⟨hinner, hcloses⟩ := takeGroup_eq_some.1 hgroup
              have hlength := length_lt_of_takeGroup hgroup
              have hdrop := length_dropBlanks_le rest
              rw [hrest, List.length_cons] at hdrop
              have hafter := ih _ (by rw [List.length_cons]; omega) hothers rfl
              rw [htext, hrest, hinner]
              exact .group isBlanks_nil hsymbol hblanks hcloses (readParams_eq_ok.1 hparams) hafter
          · have hplain : ∀ inner, dropBlanks rest ≠ '(' :: inner :=
              fun inner hrest => hopen ⟨inner, hrest⟩
            rw [scanFrom_plain hsymbol hplain, bind_eq_ok] at h
            obtain ⟨others, hothers, hresult⟩ := h
            obtain rfl := Except.ok.inj hresult
            exact .plain isBlanks_nil hsymbol (ih _ hshorter hothers rfl)
        · rw [scanFrom_error hblank hsymbol] at h
          cases h

/-- No text of elements begins with a group. -/
theorem IsElements.dropBlanks_ne {text : List Char} {elements : List (Element α)}
    (h : IsElements convert text elements) (inner : List Char) :
    dropBlanks text ≠ '(' :: inner := by
  have hhead {blanks rest : List Char} {c : Char} (hblanks : IsBlanks blanks)
      (hsymbol : IsSymbol c) : dropBlanks (blanks ++ c :: rest) ≠ '(' :: inner := by
    rw [dropBlanks_append hblanks, dropBlanks_cons_of_not_blank hsymbol.1]
    intro heq
    exact hsymbol.2.1 (List.cons.inj heq).1
  cases h with
  | nil hblanks =>
    rw [dropBlanks_of_isBlanks hblanks]
    exact nofun
  | plain hblanks hsymbol _ => exact hhead hblanks hsymbol
  | group hblanks hsymbol _ _ _ _ => exact hhead hblanks hsymbol

/-- The elements of a text are found, one constructor after another. -/
theorem scanFrom_of_isElements {text : List Char} {elements : List (Element α)}
    (h : IsElements convert text elements) (whole : List Char) :
    scanFrom convert whole text = .ok elements := by
  induction h with
  | @nil blanks hblanks =>
    rw [← List.append_nil blanks, scanFrom_blanks hblanks, scanFrom]
  | plain hblanks hsymbol hrest ih =>
    rw [scanFrom_blanks hblanks, scanFrom_plain hsymbol hrest.dropBlanks_ne, ih]
    rfl
  | @group blanks blanks' group rest c params elements hblanks hsymbol hblanks' hgroup hparams _
      ih =>
    have hopen : dropBlanks (blanks' ++ '(' :: (group ++ ')' :: rest)) =
        '(' :: (group ++ ')' :: rest) := by
      rw [dropBlanks_append hblanks', dropBlanks_cons_of_not_blank (by decide)]
    rw [scanFrom_blanks hblanks, scanFrom_group hsymbol hopen (takeGroup_eq_some.2 ⟨rfl, hgroup⟩),
      readParams_eq_ok.2 hparams, ih]
    rfl

/-- The scanner accepts the texts of the grammar of elements, and gives their elements. -/
theorem scan_eq_ok {text : List Char} {elements : List (Element α)} :
    scan convert text = .ok elements ↔ IsElements convert text elements :=
  ⟨isElements_of_scanFrom, fun h => scanFrom_of_isElements h text⟩

/-! ## What is known of scanned elements -/

/-- Every scanned element has a symbol. -/
theorem IsElements.isSymbol {text : List Char} {elements : List (Element α)}
    (h : IsElements convert text elements) : ∀ e ∈ elements, IsSymbol e.symbol := by
  induction h with
  | nil _ => exact fun e he => absurd he List.not_mem_nil
  | plain _ hsymbol _ ih => exact List.forall_mem_cons.2 ⟨hsymbol, ih⟩
  | group _ hsymbol _ _ _ _ ih => exact List.forall_mem_cons.2 ⟨hsymbol, ih⟩

/-- Every parameter was read from some text. -/
theorem IsElements.exists_convert {text : List Char} {elements : List (Element α)}
    (h : IsElements convert text elements) :
    ∀ e ∈ elements, ∀ v ∈ e.params.values, ∃ piece, convert piece = .ok v := by
  have hparams {group : List Char} {values : List α} (hgroup : IsParams convert group values) :
      ∀ v ∈ values, ∃ piece, convert piece = .ok v := by
    induction hgroup with
    | last hparam => exact List.forall_mem_singleton.2 ⟨_, hparam.2.2⟩
    | cons hparam _ _ ih => exact List.forall_mem_cons.2 ⟨⟨_, hparam.2.2⟩, ih⟩
  induction h with
  | nil _ => exact fun e he => absurd he List.not_mem_nil
  | plain _ _ _ ih =>
    exact List.forall_mem_cons.2 ⟨fun v hv => absurd hv List.not_mem_nil, ih⟩
  | group _ _ _ _ hgroup _ ih => exact List.forall_mem_cons.2 ⟨hparams hgroup, ih⟩

/-- A text of elements closes the parentheses that it opens. -/
theorem IsElements.closes {text : List Char} {elements : List (Element α)}
    (h : IsElements convert text elements) : Closes 0 text := by
  have hsymbol {c : Char} (hc : IsSymbol c) : Closes 0 [c] :=
    (closes_other hc.2.1 hc.2.2.1).2 (closes_nil.2 rfl)
  induction h with
  | nil hblanks => exact closes_blanks hblanks
  | @plain blanks rest c elements hblanks hc _ ih =>
    rw [← List.singleton_append]
    exact (closes_blanks hblanks).append ((hsymbol hc).append ih)
  | @group blanks blanks' group rest c params elements hblanks hc hblanks' hgroup _ _ ih =>
    have hshape : c :: (blanks' ++ '(' :: (group ++ ')' :: rest)) =
        [c] ++ (blanks' ++ ('(' :: (group ++ [')']) ++ rest)) := by simp
    rw [hshape]
    exact (closes_blanks hblanks).append ((hsymbol hc).append
      ((closes_blanks hblanks').append (hgroup.enclose.append ih)))

/-- Every symbol stands in the text, and no parenthesis is open there. -/
theorem IsElements.ne_of_free {text : List Char} {elements : List (Element α)}
    (h : IsElements convert text elements) {c : Char} (hfree : Free c 0 text) :
    ∀ e ∈ elements, e.symbol ≠ c := by
  have hsymbol {d : Char} {rest : List Char} (hd : IsSymbol d) (hfree : Free c 0 (d :: rest)) :
      d ≠ c ∧ Free c 0 rest := by
    refine ⟨fun heq => hfree.1 ⟨heq, rfl⟩, ?_⟩
    have hrest := hfree.2
    rwa [nest_other 0 hd.2.1 hd.2.2.1] at hrest
  induction h with
  | nil _ => exact fun e he => absurd he List.not_mem_nil
  | plain hb hs _ ih =>
    obtain ⟨hne, hrest⟩ := hsymbol hs ((closes_blanks hb).free_right hfree)
    exact List.forall_mem_cons.2 ⟨hne, ih hrest⟩
  | @group blanks blanks' group rest d params elements hb hs hb' hgroup _ _ ih =>
    obtain ⟨hne, hinner⟩ := hsymbol hs ((closes_blanks hb).free_right hfree)
    -- the group closes its parentheses, so what counts inside does not count here
    have hshape : '(' :: (group ++ ')' :: rest) = ('(' :: (group ++ [')'])) ++ rest := by simp
    have hrest := (closes_blanks hb').free_right hinner
    rw [hshape] at hrest
    exact List.forall_mem_cons.2 ⟨hne, ih (hgroup.enclose.free_right hrest)⟩

end Lindenmayer.Element
