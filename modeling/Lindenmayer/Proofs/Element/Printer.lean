import Lindenmayer.Proofs.Element.Scanner

/-!
# Reading back written elements

The parameters of an element are written between commas. When each of their texts is solid, reading
the text of the elements comes down to reading the texts of the parameters.
-/

namespace Lindenmayer.Element

open Text

/-- Texts that stand as one parameter among others: neither blanks nor commas occur, all
parentheses are closed, and none begins with a slash. -/
structure IsSolid (text : List Char) : Prop where
  ne_nil : text ≠ []
  not_isBlank : ∀ c ∈ text, ¬isBlank c
  no_comma : ',' ∉ text
  closes : Closes 0 text
  no_slash : ∀ c ∈ text.head?, c ≠ '/'

/-! ## Groups -/

/-- A written group is cut into the texts that were written. -/
theorem map_trim_splitOutside {texts : List (List Char)} (hne : texts ≠ [])
    (h : ∀ text ∈ texts, IsSolid text) {blanks : List Char} (hblanks : IsBlanks blanks) :
    (splitOutside ',' 0 (blanks ++ [',', ' '].intercalate texts)).map trim = texts := by
  induction texts generalizing blanks with
  | nil => exact absurd rfl hne
  | cons text texts ih =>
    have hsolid := h text List.mem_cons_self
    have hnot : ',' ∉ blanks ++ text := by
      rw [List.mem_append, not_or]
      exact ⟨fun hmem => absurd (hblanks _ hmem) (by decide), hsolid.no_comma⟩
    have htrim : trim (blanks ++ text) = text := by
      rw [trim_blanks_append hblanks, trim_of_no_blanks hsolid.not_isBlank]
    cases texts with
    | nil =>
      rw [List.intercalate_singleton, splitOutside_of_free (free_of_not_mem hnot 0),
        List.map_singleton, htrim]
    | cons next texts =>
      have hdepth : depthAfter 0 (blanks ++ text) = 0 := by
        exact ((closes_blanks hblanks).append hsolid.closes).depthAfter_self 0
      have hrest := ih (by simp) (fun t ht => h t (List.mem_cons_of_mem _ ht)) isBlanks_space
      rw [List.intercalate_cons_cons]
      -- the space behind the comma belongs to the next piece
      have hshape : blanks ++ (text ++ [',', ' '] ++ [',', ' '].intercalate (next :: texts)) =
          (blanks ++ text) ++ ',' :: ([' '] ++ [',', ' '].intercalate (next :: texts)) := by
        simp only [List.append_assoc, List.cons_append, List.nil_append]
      rw [hshape, splitOutside_append (free_of_not_mem hnot 0) hdepth, List.map_cons, htrim, hrest]

theorem closes_intercalate {texts : List (List Char)} (h : ∀ text ∈ texts, IsSolid text) :
    Closes 0 ([',', ' '].intercalate texts) :=
  .intercalate (closes_of_not_mem (by decide) (by decide)) fun text htext => (h text htext).closes

theorem head?_intercalate (separator : List Char) (c : Char) (text : List Char)
    (texts : List (List Char)) : (separator.intercalate ((c :: text) :: texts)).head? = some c := by
  cases texts with
  | nil => rw [List.intercalate_singleton, List.head?_cons]
  | cons next texts => rw [List.intercalate_cons_cons, List.append_assoc, List.cons_append,
      List.head?_cons]

/-- Between solid texts, not behind them, there are blanks. -/
theorem not_isBlank_getLast_intercalate {separator : List Char} {texts : List (List Char)}
    (h : ∀ text ∈ texts, IsSolid text) :
    ∀ c ∈ (separator.intercalate texts).getLast?, ¬isBlank c := by
  induction texts with
  | nil => exact nofun
  | cons text texts ih =>
    cases texts with
    | nil =>
      rw [List.intercalate_singleton]
      exact fun c hc => (h text List.mem_cons_self).not_isBlank c (List.mem_of_mem_getLast? hc)
    | cons next texts =>
      have hrest := ih fun t ht => h t (List.mem_cons_of_mem _ ht)
      have hnext := h next (List.mem_cons_of_mem _ List.mem_cons_self)
      obtain ⟨d, tail, rfl⟩ := List.exists_cons_of_ne_nil hnext.ne_nil
      have hhead := head?_intercalate separator d tail texts
      rw [List.intercalate_cons_cons, List.getLast?_append]
      cases hlast : (separator.intercalate ((d :: tail) :: texts)).getLast? with
      | none =>
        rw [List.getLast?_eq_none_iff.1 hlast] at hhead
        exact absurd hhead nofun
      | some c =>
        rw [hlast] at hrest
        exact hrest

theorem mem_intercalate {separator : List Char} {texts : List (List Char)} {c : Char}
    (hc : c ∈ separator.intercalate texts) : c ∈ separator ∨ ∃ text ∈ texts, c ∈ text := by
  induction texts with
  | nil => exact absurd hc List.not_mem_nil
  | cons text texts ih =>
    cases texts with
    | nil =>
      rw [List.intercalate_singleton] at hc
      exact .inr ⟨text, List.mem_cons_self, hc⟩
    | cons next texts =>
      rw [List.intercalate_cons_cons, List.mem_append, List.mem_append] at hc
      rcases hc with (hc | hc) | hc
      · exact .inr ⟨text, List.mem_cons_self, hc⟩
      · exact .inl hc
      · rcases ih hc with hc | ⟨other, hother, hc⟩
        · exact .inl hc
        · exact .inr ⟨other, List.mem_cons_of_mem _ hother, hc⟩

variable {α : Type} {convert : List Char → Except Error α}

/-- Reading a written group is reading the texts of its parameters. -/
theorem readParams_intercalate (symbol : Char) {texts : List (List Char)} (hne : texts ≠ [])
    (h : ∀ text ∈ texts, IsSolid text) :
    readParams convert symbol ([',', ' '].intercalate texts) =
      texts.mapM convert >>= Params.ofList := by
  have hpieces := map_trim_splitOutside hne h isBlanks_nil
  have hany : texts.any List.isEmpty = false := by
    rw [List.any_eq_false]
    intro text htext
    simpa using (h text htext).ne_nil
  rw [List.nil_append] at hpieces
  unfold readParams
  simp only [hpieces, hany]
  rfl

/-! ## Elements -/

variable [Written α]

/-- Every character of a written group is one of a parameter or stands between them. -/
theorem mem_params_text {params : Params α} {c : Char} (hc : c ∈ params.text) :
    c ∈ ['(', ')', ',', ' '] ∨ ∃ v ∈ params.values, c ∈ Written.text v := by
  unfold Params.text at hc
  split at hc
  · exact absurd hc List.not_mem_nil
  · rw [List.mem_append, List.mem_cons, List.mem_singleton] at hc
    rcases hc with (rfl | hc) | rfl
    · exact .inl (by decide)
    · rcases mem_intercalate hc with hc | ⟨text, htext, hc⟩
      · exact .inl (List.mem_cons_of_mem _ (List.mem_cons_of_mem _ hc))
      · obtain ⟨v, hv, rfl⟩ := List.mem_map.1 htext
        exact .inr ⟨v, hv, hc⟩
    · exact .inl (by decide)

/-- The texts of the parameters are solid, and the symbol is one. -/
structure IsWritable (e : Element α) : Prop where
  symbol : IsSymbol e.symbol
  params : ∀ v ∈ e.params.values, IsSolid (Written.text v)

/-- Reading a written element is reading the texts of its parameters. -/
theorem scanFrom_text {e : Element α} (he : e.IsWritable) (whole : List Char) {rest : List Char}
    (hrest : ∀ inner, dropBlanks rest ≠ '(' :: inner) :
    scanFrom convert whole (e.text ++ rest) =
      (e.params.values.map Written.text).mapM convert >>= fun values =>
        Params.ofList values >>= fun params =>
          scanFrom convert whole rest >>= fun elements => .ok (⟨e.symbol, params⟩ :: elements) := by
  have hsolid : ∀ text ∈ e.params.values.map Written.text, IsSolid text := by
    intro text htext
    obtain ⟨v, hv, rfl⟩ := List.mem_map.1 htext
    exact he.params v hv
  unfold Element.text Params.text
  cases hvalues : e.params.values with
  | nil =>
    rw [List.isEmpty_nil, if_pos rfl]
    exact scanFrom_plain he.symbol hrest whole
  | cons v values =>
    rw [hvalues] at hsolid
    rw [List.isEmpty_cons, if_neg Bool.false_ne_true, List.cons_append]
    -- the group is taken off up to the parenthesis that was written last
    have hopen (group : List Char) : dropBlanks ('(' :: group ++ [')'] ++ rest) =
        '(' :: (group ++ ')' :: rest) := by
      simp only [List.append_assoc, List.cons_append, List.nil_append]
      exact dropBlanks_cons_of_not_blank (by decide) _
    have hgroup : ∀ {group : List Char}, Closes 0 group →
        takeGroup 0 (group ++ ')' :: rest) = some (group, rest) :=
      fun hcloses => takeGroup_eq_some.2 ⟨rfl, hcloses⟩
    rw [scanFrom_group he.symbol (hopen _) (hgroup (closes_intercalate hsolid)),
      readParams_intercalate _ (by simp) hsolid, bind_assoc]

/-- What follows an element is no group of its own. -/
theorem dropBlanks_elementsText_ne {elements : List (Element α)}
    (h : ∀ e ∈ elements, e.IsWritable) (inner : List Char) :
    dropBlanks (elementsText elements) ≠ '(' :: inner := by
  cases elements with
  | nil => exact nofun
  | cons e elements =>
    obtain ⟨hblank, hopen, -, -⟩ := (h e List.mem_cons_self).symbol
    show dropBlanks (e.symbol :: _) ≠ _
    rw [dropBlanks_cons_of_not_blank hblank]
    exact fun heq => hopen (List.cons.inj heq).1

theorem elementsText_cons (e : Element α) (elements : List (Element α)) :
    elementsText (e :: elements) = e.text ++ elementsText elements :=
  rfl

theorem mapM_text_eq_ok {values : List α} (h : ∀ v ∈ values, convert (Written.text v) = .ok v) :
    (values.map Written.text).mapM convert = .ok values := by
  induction values with
  | nil => rfl
  | cons v values ih =>
    exact mapM_cons_eq_ok.2 ⟨v, values, h v List.mem_cons_self,
      ih fun u hu => h u (List.mem_cons_of_mem v hu), rfl⟩

/-- Written elements are read back if the texts of their parameters are. -/
theorem scanFrom_elementsText {elements : List (Element α)} (h : ∀ e ∈ elements, e.IsWritable)
    (hvalues : ∀ e ∈ elements, ∀ v ∈ e.params.values, convert (Written.text v) = .ok v)
    (whole : List Char) : scanFrom convert whole (elementsText elements) = .ok elements := by
  induction elements with
  | nil => rw [elementsText, List.flatMap_nil, scanFrom]
  | cons e elements ih =>
    have hothers : ∀ f ∈ elements, f.IsWritable := fun f hf => h f (List.mem_cons_of_mem e hf)
    rw [elementsText_cons, scanFrom_text (h e List.mem_cons_self) whole
      (dropBlanks_elementsText_ne hothers), mapM_text_eq_ok (hvalues e List.mem_cons_self),
      ih hothers fun f hf => hvalues f (List.mem_cons_of_mem e hf)]
    show (Params.ofList e.params.values >>= _) = _
    rw [ofList_eq_ok.2 rfl]
    rfl

/-- If written elements are read at all, every text of a parameter is. -/
theorem exists_convert_of_scanFrom {elements read : List (Element α)}
    (h : ∀ e ∈ elements, e.IsWritable) {whole : List Char}
    (hread : scanFrom convert whole (elementsText elements) = .ok read) :
    ∀ e ∈ elements, ∀ v ∈ e.params.values, ∃ r, convert (Written.text v) = .ok r := by
  induction elements generalizing read with
  | nil => exact fun e he => absurd he List.not_mem_nil
  | cons e elements ih =>
    have hothers : ∀ f ∈ elements, f.IsWritable := fun f hf => h f (List.mem_cons_of_mem e hf)
    rw [elementsText_cons, scanFrom_text (h e List.mem_cons_self) whole
      (dropBlanks_elementsText_ne hothers), bind_eq_ok] at hread
    obtain ⟨values, hvalues, hread⟩ := hread
    rw [bind_eq_ok] at hread
    obtain ⟨params, -, hread⟩ := hread
    rw [bind_eq_ok] at hread
    obtain ⟨rest, hrest, -⟩ := hread
    intro f hf v hv
    rcases List.mem_cons.1 hf with rfl | hf
    · exact exists_of_mapM hvalues _ (List.mem_map_of_mem hv)
    · exact ih hothers hrest f hf v hv

/-! ## Marks outside parentheses -/

theorem IsWritable.closes_params {e : Element α} (h : e.IsWritable) : Closes 0 e.params.text := by
  unfold Params.text
  split
  · exact closes_nil.2 rfl
  · exact (closes_intercalate (List.forall_mem_map.2 h.params)).enclose

theorem IsWritable.closes {e : Element α} (h : e.IsWritable) : Closes 0 e.text :=
  (closes_other h.symbol.2.1 h.symbol.2.2.1).2 h.closes_params

/-- Outside parentheses an element has no other character than its symbol. -/
theorem IsWritable.free {e : Element α} (h : e.IsWritable) {mark : Char} (hne : e.symbol ≠ mark)
    (hopen : mark ≠ '(') : Free mark 0 e.text := by
  refine ⟨fun heq => hne heq.1, ?_⟩
  rw [nest_other 0 h.symbol.2.1 h.symbol.2.2.1]
  unfold Params.text
  split
  · trivial
  · -- all the rest stands between the parentheses
    refine ⟨fun heq => hopen heq.1.symm, free_append.2 ?_⟩
    have hgroup : Closes 0 ([',', ' '].intercalate (e.params.values.map Written.text)) :=
      closes_intercalate (List.forall_mem_map.2 h.params)
    refine ⟨hgroup.free (by decide) mark, ?_⟩
    rw [hgroup.depthAfter_self]
    exact ⟨fun heq => absurd heq.2 (by decide), trivial⟩

end Lindenmayer.Element
