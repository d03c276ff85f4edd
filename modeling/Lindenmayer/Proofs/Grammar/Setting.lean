import Lindenmayer.Proofs.Grammar.Word

/-!
# Reading back written settings

A setting that has been read is written on a line of its own, from which its name and its value are
read back if none of its numbers is NaN.
-/

namespace Lindenmayer

open Element (IsSolid)
open Text (isBlank isWordChar trim)

/-! ## Names -/

/-- The texts of the names of settings. -/
def IsSettingName (name : List Char) : Prop :=
  ∃ c rest, name = c :: rest ∧ (c.isAlpha || c == '_') ∧ ∀ d ∈ rest, isWordChar d || d == '.'

/-- There are no blanks in the name of a setting. -/
theorem IsSettingName.not_isBlank {name : List Char} (h : IsSettingName name) :
    ∀ c ∈ name, ¬isBlank c := by
  obtain ⟨c, rest, rfl, hc, hrest⟩ := h
  rw [Bool.or_eq_true, beq_iff_eq] at hc
  refine List.forall_mem_cons.2 ⟨?_, fun d hd => ?_⟩
  · rcases hc with hletter | rfl
    · exact Text.not_isBlank_of_isAlpha hletter
    · decide
  · have hword := hrest d hd
    rw [Bool.or_eq_true, beq_iff_eq] at hword
    rcases hword with hword | rfl
    · exact Text.not_isBlank_of_isWordChar hword
    · decide

/-- What is split off as the name of a setting is one. -/
theorem Grammar.isSettingName_of_splitSetting? {line name value : List Char}
    (h : splitSetting? line = some (name, value)) : IsSettingName name := by
  unfold splitSetting? at h
  split at h
  · split at h
    · rename_i c rest _
      split at h
      · rename_i hc
        simp only at h
        split at h
        · split at h
          · exact absurd h nofun
          · obtain ⟨rfl, -⟩ := Prod.mk.inj (Option.some.inj h)
            refine ⟨c, _, rfl, hc, fun d hd => ?_⟩
            exact List.all_eq_true.1 List.all_takeWhile d hd
        · exact absurd h nofun
      · exact absurd h nofun
    · exact absurd h nofun
  · exact absurd h nofun

/-! ## Values -/

namespace Setting

/-- The numbers of a setting. -/
def numbers : Setting → List Float
  | number value => [value]
  | list values => values

/-- No number of the setting is NaN. -/
def IsNumeric (setting : Setting) : Prop :=
  ∀ x ∈ setting.numbers, x.isNaN = false

end Setting

namespace Grammar

/-- Outside parentheses commas are all that counts. -/
theorem splitCommas_eq_splitOutside {text : List Char} (hopen : '(' ∉ text) (hclose : ')' ∉ text) :
    splitCommas text = Element.splitOutside ',' 0 text := by
  induction text with
  | nil => rfl
  | cons c text ih =>
    rw [List.mem_cons, not_or] at hopen hclose
    have hrest := ih hopen.2 hclose.2
    by_cases hc : c = ','
    · subst hc
      rw [Element.splitOutside_separator, ← hrest]
      exact if_pos rfl
    · have hcut : ¬(c = ',' ∧ (0 : Int) = 0) := fun h => hc h.1
      rw [Element.splitOutside_cons hcut,
        Element.nest_other 0 (Ne.symm hopen.1) (Ne.symm hclose.1), ← hrest, splitCommas,
        if_neg (by simpa using hc)]
      cases splitCommas text <;> rfl

/-- Written numbers are read back, unless one of them is a NaN. -/
theorem mapM_readConstant {values read : List Float} :
    (values.map shortText).mapM readConstant = .ok read ↔
      (∀ x ∈ values, x.isNaN = false) ∧ read = values := by
  induction values generalizing read with
  | nil =>
    constructor
    · intro h
      exact ⟨nofun, (Except.ok.inj h).symm⟩
    · rintro ⟨-, rfl⟩
      rfl
  | cons x values ih =>
    rw [List.map_cons, mapM_cons_eq_ok]
    constructor
    · rintro ⟨y, others, hy, hothers, rfl⟩
      obtain ⟨hx, rfl⟩ := readConstant_shortText.1 hy
      obtain ⟨hvalues, rfl⟩ := ih.1 hothers
      exact ⟨List.forall_mem_cons.2 ⟨hx, hvalues⟩, rfl⟩
    · rintro ⟨hnumeric, rfl⟩
      rw [List.forall_mem_cons] at hnumeric
      exact ⟨x, values, readConstant_shortText.2 ⟨hnumeric.1, rfl⟩, ih.2 ⟨hnumeric.2, rfl⟩, rfl⟩

/-- The texts of numbers between commas. -/
def listText (values : List Float) : List Char :=
  [',', ' '].intercalate (values.map shortText)

section
variable (values : List Float)

theorem isSolid_of_mem_map : ∀ text ∈ values.map shortText, IsSolid text :=
  List.forall_mem_map.2 fun x _ => isSolid_shortText x

/-- A written list is cut into its numbers. -/
theorem map_trim_splitCommas (hne : values ≠ []) :
    (splitCommas (listText values)).map trim = values.map shortText := by
  have hnot {c : Char} (hseparator : c ∉ [',', ' '])
      (hc : ¬(Text.isDigit c ∨ c.isAlpha ∨ c ∈ ['+', '-', '.'])) : c ∉ listText values := by
    intro hmem
    rcases Element.mem_intercalate hmem with hmem | ⟨text, htext, hmem⟩
    · exact hseparator hmem
    · obtain ⟨x, -, rfl⟩ := List.mem_map.1 htext
      exact hc (mem_shortText hmem)
  rw [splitCommas_eq_splitOutside (hnot (by decide) (by decide)) (hnot (by decide) (by decide))]
  exact Element.map_trim_splitOutside (by simpa using hne) (isSolid_of_mem_map values)
    Text.isBlanks_nil

theorem head_listText : ∀ c ∈ (listText values).head?, ¬isBlank c := by
  cases values with
  | nil => exact nofun
  | cons x values =>
    have hsolid := isSolid_shortText x
    obtain ⟨d, tail, htext⟩ := List.exists_cons_of_ne_nil hsolid.ne_nil
    rw [listText, List.map_cons, htext, Element.head?_intercalate]
    intro c hc
    obtain rfl : d = c := Option.some.inj hc
    exact hsolid.not_isBlank d (by rw [htext]; exact List.mem_cons_self)

theorem trim_listText : trim (listText values) = listText values :=
  Text.trim_eq_self (head_listText values)
    (Element.not_isBlank_getLast_intercalate (isSolid_of_mem_map values))

end

variable {setting : Setting}

/-- A written value neither begins nor ends with a blank, and does not begin a comment. -/
theorem text_ends (setting : Setting) :
    setting.text shortText ≠ [] ∧
      (∀ c ∈ (setting.text shortText).head?, ¬isBlank c ∧ c ≠ '/') ∧
      ∀ c ∈ (setting.text shortText).getLast?, ¬isBlank c := by
  cases setting with
  | number x =>
    have hsolid := isSolid_shortText x
    refine ⟨hsolid.ne_nil, fun c hc => ?_, fun c hc => ?_⟩
    · exact ⟨hsolid.not_isBlank c (List.mem_of_mem_head? hc), hsolid.no_slash c hc⟩
    · exact hsolid.not_isBlank c (List.mem_of_mem_getLast? hc)
  | list values =>
    refine ⟨List.cons_ne_nil _ _, fun c hc => ?_, fun c hc => ?_⟩
    · obtain rfl : '[' = c := Option.some.inj hc
      decide
    · rw [Setting.text, bracketed, List.getLast?_append] at hc
      obtain rfl : ']' = c := Option.some.inj hc
      decide

/-- The blank in front of a written value is trimmed. -/
theorem trim_text (setting : Setting) :
    trim (' ' :: setting.text shortText) = setting.text shortText := by
  obtain ⟨-, hfirst, hlast⟩ := text_ends setting
  rw [← List.singleton_append, Text.trim_blanks_append Text.isBlanks_space,
    Text.trim_eq_self (fun c hc => (hfirst c hc).1) hlast]

/-- A written number is read back, unless it is a NaN. -/
theorem readSetting_number {x : Float} {read : Setting} :
    readSetting (' ' :: (Setting.number x).text shortText) = .ok read ↔
      (Setting.number x).IsNumeric ∧ read = .number x := by
  -- no number begins with a bracket
  have hbracket : ((shortText x).head? == some '[') = false := by
    rw [beq_eq_false_iff_ne]
    intro hhead
    exact absurd (mem_shortText (List.mem_of_mem_head? hhead)) (by decide)
  unfold readSetting
  simp only [trim_text]
  rw [Setting.text, hbracket, Bool.false_and, if_neg Bool.false_ne_true, bind_eq_ok]
  constructor
  · rintro ⟨value, hvalue, hread⟩
    obtain ⟨hx, rfl⟩ := readConstant_shortText.1 hvalue
    exact ⟨List.forall_mem_singleton.2 hx, (Except.ok.inj hread).symm⟩
  · rintro ⟨hx, rfl⟩
    exact ⟨x, readConstant_shortText.2 ⟨hx x List.mem_cons_self, rfl⟩, rfl⟩

theorem listText_ne_nil (x : Float) (values : List Float) : listText (x :: values) ≠ [] := by
  obtain ⟨d, tail, htext⟩ := List.exists_cons_of_ne_nil (isSolid_shortText x).ne_nil
  have hhead := Element.head?_intercalate [',', ' '] d tail (values.map shortText)
  rw [← htext, ← List.map_cons, ← listText] at hhead
  intro hnil
  rw [hnil] at hhead
  cases hhead

/-- The numbers of a list are read back one by one. -/
theorem mapM_readConstant_splitCommas {values read : List Float} (hne : values ≠ []) :
    (splitCommas (listText values)).mapM (fun value => readConstant (trim value)) = .ok read ↔
      (∀ x ∈ values, x.isNaN = false) ∧ read = values := by
  rw [← mapM_readConstant, ← map_trim_splitCommas values hne, List.mapM_map]
  rfl

/-- A written list is read back, unless there is a NaN in it. -/
theorem readSetting_list {values : List Float} {read : Setting} :
    readSetting (' ' :: (Setting.list values).text shortText) = .ok read ↔
      (Setting.list values).IsNumeric ∧ read = .list values := by
  have hlist : (Setting.list values).text shortText = '[' :: listText values ++ [']'] := rfl
  -- the brackets are found and taken off again
  have hends : (((Setting.list values).text shortText).head? == some '[' &&
      ((Setting.list values).text shortText).getLast? == some ']') = true := by
    rw [hlist, List.getLast?_append]
    rfl
  have hinner : trim (((Setting.list values).text shortText).drop 1).dropLast =
      listText values := by
    rw [hlist, List.cons_append, List.drop_succ_cons, List.drop_zero, List.dropLast_concat,
      trim_listText]
  unfold readSetting
  simp only [trim_text]
  rw [if_pos hends, hinner]
  cases values with
  | nil =>
    constructor
    · intro h
      exact ⟨nofun, (Except.ok.inj h).symm⟩
    · rintro ⟨-, rfl⟩
      rfl
  | cons x values =>
    have hnonempty : (listText (x :: values)).isEmpty = false :=
      List.isEmpty_eq_false_iff.2 (listText_ne_nil x values)
    rw [hnonempty, if_neg Bool.false_ne_true, bind_eq_ok]
    constructor
    · rintro ⟨ys, hys, h⟩
      obtain ⟨hnumeric, rfl⟩ := (mapM_readConstant_splitCommas (List.cons_ne_nil _ _)).1 hys
      exact ⟨hnumeric, (Except.ok.inj h).symm⟩
    · rintro ⟨hnumeric, rfl⟩
      exact ⟨x :: values,
        (mapM_readConstant_splitCommas (List.cons_ne_nil _ _)).2 ⟨hnumeric, rfl⟩, rfl⟩

/-- The value of a setting is read back just if it has no NaN. -/
theorem readSetting_text {read : Setting} :
    readSetting (' ' :: setting.text shortText) = .ok read ↔
      setting.IsNumeric ∧ read = setting := by
  cases setting with
  | number x => exact readSetting_number
  | list values => exact readSetting_list

/-! ## Lines -/

section
variable {name : String}

/-- A setting is found on its line. -/
theorem splitSetting?_settingLine (h : IsSettingName name.toList) (setting : Setting) :
    splitSetting? (settingLine name setting) =
      some (name.toList, ' ' :: setting.text shortText) := by
  have hblank := h.not_isBlank
  obtain ⟨c, rest, hname, hc, hrest⟩ := h
  rw [hname] at hblank
  have hc' : ¬isBlank c := hblank c List.mem_cons_self
  have hspace : (isWordChar ' ' || ' ' == '.') = false := rfl
  -- the name ends at the space before the equals sign
  have htake : (rest ++ ([' ', '=', ' '] ++ setting.text shortText)).takeWhile
      (fun d => isWordChar d || d == '.') = rest := by
    rw [List.takeWhile_append_of_pos hrest, List.cons_append, List.takeWhile_cons, hspace,
      if_neg Bool.false_ne_true, List.append_nil]
  have hdrop : (rest ++ ([' ', '=', ' '] ++ setting.text shortText)).dropWhile
      (fun d => isWordChar d || d == '.') = [' ', '=', ' '] ++ setting.text shortText := by
    rw [List.dropWhile_append_of_pos hrest, List.cons_append, List.dropWhile_cons, hspace,
      if_neg Bool.false_ne_true]
  have hline : settingLine name setting =
      '#' :: c :: (rest ++ ([' ', '=', ' '] ++ setting.text shortText)) := by
    rw [settingLine, hname]
    simp only [List.append_assoc, List.cons_append]
  have hequals : Text.dropBlanks ([' ', '=', ' '] ++ setting.text shortText) =
      '=' :: ' ' :: setting.text shortText := rfl
  rw [hline, hname]
  unfold splitSetting?
  simp only [Text.dropBlanks_cons_of_not_blank hc', hc, htake, hdrop, hequals, ↓reduceIte]
  rfl

/-- A written value holds no comment. -/
theorem isInline_settingText (setting : Setting) : IsInline (setting.text shortText) := by
  cases setting with
  | number x => exact isInline_of_no_blanks (isSolid_shortText x).not_isBlank
  | list values =>
    have hvalues : IsInline (listText values) := isInline_intercalate (isSolid_of_mem_map values)
    exact (hvalues.append (isInline_singleton (by decide : ¬isBlank ']'))).cons (by decide)

/-- A setting is written as a whole line. -/
theorem isWhole_settingLine (h : IsSettingName name.toList) (setting : Setting) :
    IsWhole (settingLine name setting) := by
  obtain ⟨hne, hfirst, hlast⟩ := text_ends setting
  have hname : IsInline ('#' :: name.toList) :=
    (isInline_of_no_blanks h.not_isBlank).cons (by decide)
  have hvalue : IsInline (' ' :: '=' :: ' ' :: setting.text shortText) := by
    have htext := (isInline_settingText setting).space_cons hne fun c hc => (hfirst c hc).2
    refine (htext.cons (by decide)).space_cons (List.cons_ne_nil _ _) fun c hc => ?_
    obtain rfl : '=' = c := Option.some.inj hc
    decide
  have hline : settingLine name setting =
      ('#' :: name.toList) ++ (' ' :: '=' :: ' ' :: setting.text shortText) := by
    rw [settingLine, List.append_assoc]
    rfl
  rw [hline]
  refine (hname.append hvalue).isWhole (List.cons_ne_nil _ _) (fun c hc => ?_) (fun c hc => ?_)
    fun rest => ?_
  · obtain rfl : '#' = c := Option.some.inj hc
    decide
  · obtain ⟨d, tail, htext⟩ := List.exists_cons_of_ne_nil hne
    rw [htext] at hlast hc
    rw [List.getLast?_append, List.getLast?_cons_cons, List.getLast?_cons_cons,
      List.getLast?_cons_cons, List.getLast?_cons] at hc
    exact hlast c (by rw [List.getLast?_cons]; exact hc)
  · intro heq
    exact absurd (List.cons.inj heq).1 (by decide)

end

end Grammar

/-! ## Several settings -/

namespace Settings

/-- Settings whose names can be written, each set once. -/
structure IsReadable (settings : Settings) : Prop where
  names : ∀ entry ∈ settings, IsSettingName entry.1.toList
  nodup : (settings.map Prod.fst).Nodup

/-- No number of the settings is NaN. -/
def IsNumeric (settings : Settings) : Prop :=
  ∀ entry ∈ settings, entry.2.IsNumeric

/-- A new setting comes last. -/
theorem set_of_not_mem {settings : Settings} {name : String} (h : name ∉ settings.map Prod.fst)
    (value : Setting) : settings.set name value = settings ++ [(name, value)] := by
  induction settings with
  | nil => rfl
  | cons entry settings ih =>
    obtain ⟨other, old⟩ := entry
    rw [List.map_cons, List.mem_cons, not_or] at h
    rw [set, if_neg (by simpa using Ne.symm h.1), ih h.2]
    rfl

/-- No other name is added. -/
theorem mem_map_set {settings : Settings} {name other : String} {value : Setting}
    (h : other ∈ (settings.set name value).map Prod.fst) :
    other = name ∨ other ∈ settings.map Prod.fst := by
  induction settings with
  | nil => exact .inl (List.mem_singleton.1 h)
  | cons entry settings ih =>
    obtain ⟨first, old⟩ := entry
    rw [set] at h
    split at h
    · rw [List.map_cons, List.mem_cons] at h
      exact h.imp_right (List.mem_cons_of_mem _)
    · rw [List.map_cons, List.mem_cons] at h
      rcases h with rfl | h
      · exact .inr List.mem_cons_self
      · exact (ih h).imp_right (List.mem_cons_of_mem _)

/-- Setting a name keeps the names apart. -/
theorem nodup_set {settings : Settings} (h : (settings.map Prod.fst).Nodup) (name : String)
    (value : Setting) : ((settings.set name value).map Prod.fst).Nodup := by
  induction settings with
  | nil => simp [set]
  | cons entry settings ih =>
    obtain ⟨first, old⟩ := entry
    rw [List.map_cons, List.nodup_cons] at h
    rw [set]
    split
    · rename_i hfirst
      rw [beq_iff_eq] at hfirst
      rw [List.map_cons, List.nodup_cons]
      exact ⟨hfirst ▸ h.1, h.2⟩
    · rename_i hfirst
      rw [beq_iff_eq] at hfirst
      rw [List.map_cons, List.nodup_cons]
      refine ⟨fun hmem => ?_, ih h.2⟩
      exact (mem_map_set hmem).elim hfirst h.1

/-- Settings can still be written when one is added. -/
theorem IsReadable.set {settings : Settings} (h : settings.IsReadable) {name : List Char}
    (hname : IsSettingName name) (value : Setting) :
    (Settings.set (String.ofList name) value settings).IsReadable := by
  refine ⟨fun entry hentry => ?_, nodup_set h.nodup _ _⟩
  rcases mem_map_set (List.mem_map_of_mem hentry) with heq | hmem
  · rwa [heq, String.toList_ofList]
  · obtain ⟨old, hold, heq⟩ := List.mem_map.1 hmem
    rw [← heq]
    exact h.names old hold

end Settings

/-- The lines of settings are read one after another, unless a number is NaN. -/
theorem Grammar.Draft.readLines_settings {draft next : Draft} {number : Nat} {settings : Settings}
    {rest : List (List Char)} (hnames : ∀ entry ∈ settings, IsSettingName entry.1.toList)
    (hnodup : ((draft.settings ++ settings).map Prod.fst).Nodup) :
    draft.readLines number (settings.map (fun (name, value) => settingLine name value) ++ rest) =
        .ok next ↔
      settings.IsNumeric ∧
        Draft.readLines { draft with settings := draft.settings ++ settings }
          (number + settings.length) rest = .ok next := by
  induction settings generalizing draft number with
  | nil =>
    rw [List.append_nil]
    exact ⟨fun h => ⟨nofun, h⟩, fun h => h.2⟩
  | cons entry settings ih =>
    obtain ⟨name, value⟩ := entry
    obtain ⟨hname, hothers⟩ := List.forall_mem_cons.1 hnames
    -- the name has not been set yet, so it is added at the end
    have hnew : name ∉ draft.settings.map Prod.fst := by
      rw [List.map_append, List.nodup_append] at hnodup
      exact fun hmem => hnodup.2.2 name hmem name List.mem_cons_self rfl
    have happend : draft.settings ++ (name, value) :: settings =
        draft.settings ++ [(name, value)] ++ settings := by
      rw [List.append_assoc, List.singleton_append]
    have hline (read : Draft) : draft.readLine (settingLine name value) = .ok read ↔
        value.IsNumeric ∧ read = { draft with settings := draft.settings ++ [(name, value)] } := by
      unfold readLine
      rw [splitSetting?_settingLine hname value]
      simp only [bind_eq_ok, readSetting_text, String.ofList_toList]
      constructor
      · rintro ⟨setting, ⟨hnumeric, rfl⟩, h⟩
        rw [Settings.set_of_not_mem hnew] at h
        exact ⟨hnumeric, (Except.ok.inj h).symm⟩
      · rintro ⟨hnumeric, rfl⟩
        rw [← Settings.set_of_not_mem hnew]
        exact ⟨value, ⟨hnumeric, rfl⟩, rfl⟩
    rw [happend] at hnodup ⊢
    have hrest := @ih { draft with settings := draft.settings ++ [(name, value)] } (number + 1)
      hothers hnodup
    rw [List.map_cons, List.cons_append, readLines_whole (isWhole_settingLine hname value)]
    rw [show number + ((name, value) :: settings).length = number + 1 + settings.length by
      rw [List.length_cons]; omega]
    constructor
    · rintro ⟨read, hread, h⟩
      obtain ⟨hnumeric, rfl⟩ := (hline read).1 hread
      obtain ⟨hall, h⟩ := hrest.1 h
      exact ⟨List.forall_mem_cons.2 ⟨hnumeric, hall⟩, h⟩
    · rintro ⟨hnumeric, h⟩
      obtain ⟨hfirst, hall⟩ := List.forall_mem_cons.1 hnumeric
      exact ⟨_, (hline _).2 ⟨hfirst, rfl⟩, hrest.2 ⟨hall, h⟩⟩

end Lindenmayer
