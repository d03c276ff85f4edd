import Lindenmayer.Proofs.Grammar.Reader
import Lindenmayer.Proofs.Text.Digits

/-!
# The first bad line

What a line of a grammar is read as depends on the lines before it in one respect only: whether one
of them was the axiom. So each line can be read alone, once its role is known. A text is refused at
the first of its lines that is refused alone, with the fault of that line and its number.
-/

namespace Lindenmayer.Grammar

open Text (trim natDigits)

/-! ## Lines and their roles -/

/-- What counts of a line: neither its comment nor the blanks around it. -/
def content (raw : List Char) : List Char :=
  trim (stripComment raw)

/-- Whether a line is neither blank nor a setting. -/
def isOther (raw : List Char) : Bool :=
  !(content raw).isEmpty && (splitSetting? (content raw)).isNone

/-- What a line is read as. -/
inductive Role where
  | blank
  | setting (value : List Char)
  | initial (word : List Char)
  | production (line : List Char)

/-- The role of a line behind other lines. The first line that is neither blank nor a setting is the
axiom, and the later ones are productions. -/
def role (before : List (List Char)) (raw : List Char) : Role :=
  if (content raw).isEmpty then .blank
  else
    match splitSetting? (content raw) with
    | some (_, value) => .setting value
    | none => if before.any isOther then .production (content raw) else .initial (content raw)

/-- Reads a line alone; a production is validated too. -/
def Role.check : Role → Except Error Unit
  | blank => .ok ()
  | setting value => (readSetting value).map fun _ => ()
  | initial word => (Word.parse word).map fun _ => ()
  | production line => Production.parse line >>= Production.validate

/-- Every line is accepted in its role. -/
def Accepted (all : List (List Char)) : Prop :=
  ∀ before raw after, all = before ++ raw :: after → (role before raw).check = .ok ()

/-- The line with a number is refused with a fault, and all lines before it are accepted. -/
def RefusedAt (all : List (List Char)) (number : Nat) (fault : Error) : Prop :=
  ∃ before raw after, all = before ++ raw :: after ∧ before.length + 1 = number ∧
    Accepted before ∧ (role before raw).check = .error fault

/-- Some line is the axiom. -/
def HasInitial (all : List (List Char)) : Prop :=
  ∃ before raw after word, all = before ++ raw :: after ∧ role before raw = .initial word

@[simp]
theorem accepted_nil : Accepted [] := by
  intro before raw after h
  exact absurd (congrArg List.length h) (by simp)

/-- The last line of a list comes after all the others. -/
theorem accepted_concat {all : List (List Char)} {last : List Char} :
    Accepted (all ++ [last]) ↔ Accepted all ∧ (role all last).check = .ok () := by
  constructor
  · intro h
    refine ⟨fun before raw after hsplit => h before raw (after ++ [last]) ?_, h all last [] rfl⟩
    rw [hsplit, List.append_assoc, List.cons_append]
  · rintro ⟨hall, hlast⟩ before raw after hsplit
    rcases List.eq_nil_or_concat after with rfl | ⟨after, final, rfl⟩
    · obtain ⟨rfl, hraw⟩ := List.append_inj' hsplit rfl
      obtain rfl := List.head_eq_of_cons_eq hraw
      exact hlast
    · rw [List.concat_eq_append, ← List.cons_append, ← List.append_assoc] at hsplit
      exact hall before raw after (List.append_inj' hsplit rfl).1

/-- Either all lines are accepted or one of them is the first that is not. -/
theorem accepted_or_refusedAt (all : List (List Char)) :
    Accepted all ∨ ∃ number fault, RefusedAt all number fault := by
  induction all using List.reverseRecOn with
  | nil => exact .inl accepted_nil
  | append_singleton all last ih =>
    rcases ih with haccepted | ⟨number, fault, before, raw, after, rfl, hrefused⟩
    · cases hlast : (role all last).check with
      | ok _ => exact .inl (accepted_concat.2 ⟨haccepted, hlast⟩)
      | error fault => exact .inr ⟨_, fault, all, last, [], rfl, rfl, haccepted, hlast⟩
    · refine .inr ⟨number, fault, before, raw, after ++ [last], ?_, hrefused⟩
      rw [List.append_assoc, List.cons_append]

/-- Whether a line is the first bad one depends on the lines up to it. -/
theorem RefusedAt.of_take {all other : List (List Char)} {number : Nat} {fault : Error}
    (hsame : all.take number = other.take number) (h : RefusedAt all number fault) :
    RefusedAt other number fault := by
  obtain ⟨before, raw, after, rfl, rfl, haccepted, hrefused⟩ := h
  refine ⟨before, raw, other.drop (before.length + 1), ?_, rfl, haccepted, hrefused⟩
  have hfirst : (before ++ raw :: after).take (before.length + 1) = before ++ [raw] := by
    rw [List.take_length_add_append]
    rfl
  calc other = other.take (before.length + 1) ++ other.drop (before.length + 1) :=
        (List.take_append_drop _ other).symm
    _ = before ++ [raw] ++ other.drop (before.length + 1) := by rw [← hsame, hfirst]
    _ = before ++ raw :: other.drop (before.length + 1) := by
      rw [List.append_assoc, List.singleton_append]

theorem isOther_iff {raw : List Char} :
    isOther raw ↔ (content raw).isEmpty = false ∧ splitSetting? (content raw) = none := by
  rw [isOther, Bool.and_eq_true, Bool.not_eq_true', Option.isNone_iff_eq_none]

theorem role_of_isOther {raw : List Char} (h : isOther raw) (before : List (List Char)) :
    role before raw =
      if before.any isOther then .production (content raw) else .initial (content raw) := by
  obtain ⟨hcontent, hsetting⟩ := isOther_iff.1 h
  rw [role, hcontent, if_neg Bool.false_ne_true, hsetting]

theorem isOther_of_role {before : List (List Char)} {raw word : List Char}
    (h : role before raw = .initial word) : isOther raw := by
  unfold role at h
  split at h
  · exact absurd h nofun
  · rename_i hcontent
    split at h
    · exact absurd h nofun
    · exact isOther_iff.2 ⟨Bool.eq_false_iff.2 hcontent, ‹_›⟩

/-- There is an axiom as soon as there is a line that is neither blank nor a setting. -/
theorem hasInitial_iff {all : List (List Char)} : HasInitial all ↔ all.any isOther := by
  constructor
  · rintro ⟨before, raw, after, word, rfl, hrole⟩
    exact List.any_eq_true.2 ⟨raw, by simp, isOther_of_role hrole⟩
  · intro h
    -- the first such line has none before it
    obtain ⟨raw, hfirst⟩ := Option.isSome_iff_exists.1 ((List.find?_isSome (p := isOther)).2
      (List.any_eq_true.1 h))
    obtain ⟨hother, before, after, rfl, hbefore⟩ := List.find?_eq_some_iff_append.1 hfirst
    have hnone : before.any isOther = false := by simpa using hbefore
    refine ⟨before, raw, after, content raw, rfl, ?_⟩
    rw [role_of_isOther hother, hnone, if_neg Bool.false_ne_true]

/-! ## Reading line by line -/

namespace Draft

variable {draft next : Draft} {number : Nat} {before all : List (List Char)}

/-- Reads a line as it stands in a text. -/
def readRaw (draft : Draft) (raw : List Char) : Except Error Draft :=
  if (content raw).isEmpty then .ok draft else draft.readLine (content raw)

theorem readLines_cons (draft : Draft) (number : Nat) (raw : List Char)
    (rest : List (List Char)) :
    draft.readLines number (raw :: rest) =
      (draft.readRaw raw).mapError (.atLine number) >>= fun next =>
        next.readLines (number + 1) rest := by
  rw [readLines, readRaw, content]
  by_cases hempty : (trim (stripComment raw)).isEmpty
  · rw [if_pos hempty, if_pos hempty]
    rfl
  · rw [if_neg hempty, if_neg hempty]
    cases draft.readLine (trim (stripComment raw)) <;> rfl

theorem readLines_append (left right : List (List Char)) :
    draft.readLines number (left ++ right) =
      draft.readLines number left >>= fun next => next.readLines (number + left.length) right := by
  induction left generalizing draft number with
  | nil => rfl
  | cons raw left ih =>
    rw [List.cons_append, readLines_cons, readLines_cons, List.length_cons]
    cases draft.readRaw raw with
    | error e => rfl
    | ok next =>
      show next.readLines (number + 1) (left ++ right) = _
      rw [ih, Nat.add_assoc, Nat.add_comm 1]
      rfl

/-- A draft behind some lines has an axiom just if one of them was neither blank nor a setting. -/
def Follows (draft : Draft) (before : List (List Char)) : Prop :=
  draft.initial.isSome = before.any isOther

/-- Behind other lines, a line is read as it is alone in its role. -/
theorem Follows.readRaw_eq (h : draft.Follows before) (raw : List Char) :
    (draft.readRaw raw).map (fun _ => ()) = (role before raw).check := by
  unfold readRaw role
  split
  · rfl
  · unfold readLine
    cases hsetting : splitSetting? (content raw) with
    | some setting =>
      obtain ⟨name, value⟩ := setting
      simp only
      rw [Role.check]
      cases readSetting value <;> rfl
    | none =>
      cases hinitial : draft.initial with
      | none =>
        have hnone : before.any isOther = false := by rw [← h, hinitial]; rfl
        rw [hnone, if_neg Bool.false_ne_true, Role.check]
        cases Word.parse (content raw) <;> rfl
      | some initial =>
        have hsome : before.any isOther = true := by rw [← h, hinitial]; rfl
        rw [hsome, if_pos rfl, Role.check]
        cases Production.parse (content raw) with
        | error e => rfl
        | ok p => cases hvalid : p.validate <;> simp only [bind, Except.bind, hvalid] <;> rfl

/-- The next draft has an axiom just if the draft has one or the line is neither blank nor a
setting. -/
theorem Follows.concat (h : draft.Follows before) {raw : List Char}
    (hread : draft.readRaw raw = .ok next) : next.Follows (before ++ [raw]) := by
  unfold Follows at *
  rw [List.any_append, List.any_cons, List.any_nil, Bool.or_false, ← h]
  unfold readRaw at hread
  split at hread
  · rename_i hempty
    obtain rfl := Except.ok.inj hread
    rw [isOther, hempty]
    simp
  · rename_i hcontent
    have hcontent : (content raw).isEmpty = false := Bool.eq_false_iff.2 hcontent
    rcases readLine_cases hread with ⟨name, value, setting, hsetting, -, rfl⟩ |
      ⟨hsetting, -, word, -, rfl⟩ | ⟨hsetting, hinitial, p, -, -, rfl⟩
    · rw [isOther, hsetting]
      simp
    · rw [isOther_iff.2 ⟨hcontent, hsetting⟩]
      simp
    · rw [isOther_iff.2 ⟨hcontent, hsetting⟩]
      simpa using Option.ne_none_iff_isSome.1 hinitial

/-- Lines that are accepted are read. -/
theorem exists_readLines_of_accepted (h : Accepted all) :
    ∃ draft, ({} : Draft).readLines 1 all = .ok draft ∧ draft.Follows all := by
  induction all using List.reverseRecOn with
  | nil => exact ⟨{}, rfl, rfl⟩
  | append_singleton all last ih =>
    obtain ⟨hall, hlast⟩ := accepted_concat.1 h
    obtain ⟨draft, hdraft, hfollows⟩ := ih hall
    rw [← hfollows.readRaw_eq] at hlast
    obtain ⟨next, hnext, -⟩ := map_eq_ok.1 hlast
    refine ⟨next, ?_, hfollows.concat hnext⟩
    rw [readLines_append, hdraft]
    show draft.readLines _ [last] = _
    rw [readLines_cons, hnext]
    rfl

/-- Reading stops at the first line that is refused. -/
theorem readLines_of_refusedAt {fault : Error} (h : RefusedAt all number fault) :
    ({} : Draft).readLines 1 all = .error (.atLine number fault) := by
  obtain ⟨before, raw, after, rfl, rfl, haccepted, hrefused⟩ := h
  obtain ⟨draft, hdraft, hfollows⟩ := exists_readLines_of_accepted haccepted
  rw [← hfollows.readRaw_eq, map_eq_error] at hrefused
  rw [readLines_append, hdraft]
  show draft.readLines _ (raw :: after) = _
  rw [readLines_cons, hrefused, Nat.add_comm]
  rfl

end Draft

/-! ## Reading a text -/

variable {text : List Char}

theorem parse_of_refusedAt {number : Nat} {fault : Error}
    (h : RefusedAt (Text.lines text) number fault) : parse text = .error (.atLine number fault) := by
  rw [parse, Draft.readLines_of_refusedAt h]
  rfl

/-- A text whose lines are all accepted lacks an axiom or is a grammar. -/
theorem parse_of_accepted (h : Accepted (Text.lines text)) :
    (HasInitial (Text.lines text) ∧ ∃ g, parse text = .ok g) ∨
      (¬HasInitial (Text.lines text) ∧ parse text = .error (.grammar .missingAxiom)) := by
  obtain ⟨draft, hdraft, hfollows⟩ := Draft.exists_readLines_of_accepted h
  rw [hasInitial_iff, ← hfollows, parse, hdraft]
  show (_ ∧ ∃ g, draft.finish = .ok g) ∨ (_ ∧ draft.finish = _)
  unfold Draft.finish
  cases draft.initial with
  | some initial => exact .inl ⟨rfl, _, rfl⟩
  | none => exact .inr ⟨Bool.false_ne_true, rfl⟩

/-- What becomes of a text: a grammar, a text without an axiom, or an error at a line. -/
theorem parse_cases (text : List Char) :
    (∃ g, parse text = .ok g) ∨
      (Accepted (Text.lines text) ∧ ¬HasInitial (Text.lines text) ∧
        parse text = .error (.grammar .missingAxiom)) ∨
      ∃ number fault, RefusedAt (Text.lines text) number fault ∧
        parse text = .error (.atLine number fault) := by
  rcases accepted_or_refusedAt (Text.lines text) with haccepted | ⟨number, fault, hrefused⟩
  · rcases parse_of_accepted haccepted with ⟨-, hread⟩ | ⟨hnone, hmissing⟩
    · exact .inl hread
    · exact .inr (.inl ⟨haccepted, hnone, hmissing⟩)
  · exact .inr (.inr ⟨number, fault, hrefused, parse_of_refusedAt hrefused⟩)

theorem parse_eq_atLine {number : Nat} {fault : Error} :
    parse text = .error (.atLine number fault) ↔ RefusedAt (Text.lines text) number fault := by
  refine ⟨fun h => ?_, parse_of_refusedAt⟩
  rcases parse_cases text with ⟨g, hg⟩ | ⟨-, -, hmissing⟩ | ⟨number', fault', hrefused, hfault⟩
  · exact absurd (h.symm.trans hg) nofun
  · exact absurd (h.symm.trans hmissing) nofun
  · obtain ⟨rfl, rfl⟩ := Error.atLine.inj (Except.error.inj (h.symm.trans hfault))
    exact hrefused

theorem parse_eq_missingAxiom :
    parse text = .error (.grammar .missingAxiom) ↔
      Accepted (Text.lines text) ∧ ¬HasInitial (Text.lines text) := by
  constructor
  · intro h
    rcases parse_cases text with ⟨g, hg⟩ | ⟨haccepted, hnone, -⟩ | ⟨number, fault, -, hfault⟩
    · exact absurd (h.symm.trans hg) nofun
    · exact ⟨haccepted, hnone⟩
    · exact absurd (h.symm.trans hfault) nofun
  · rintro ⟨haccepted, hnone⟩
    rcases parse_of_accepted haccepted with ⟨hinitial, -⟩ | ⟨-, hmissing⟩
    · exact absurd hinitial hnone
    · exact hmissing

/-- There are no other errors. -/
theorem parse_error_cases {e : Error} (h : parse text = .error e) :
    e = .grammar .missingAxiom ∨ ∃ number fault, e = .atLine number fault := by
  rcases parse_cases text with ⟨g, hg⟩ | ⟨-, -, hmissing⟩ | ⟨number, fault, -, hfault⟩
  · exact absurd (h.symm.trans hg) nofun
  · exact .inl (Except.error.inj (h.symm.trans hmissing))
  · exact .inr ⟨number, fault, Except.error.inj (h.symm.trans hfault)⟩

/-! ## Messages -/

/-- How a message begins that names a line. -/
def lineMark (number : Nat) : String :=
  s!"line {number}: "

/-- The message of the error begins with the number of a line. -/
def NamesLine (number : Nat) (e : Error) : Prop :=
  (lineMark number).toList <+: e.message.toList

theorem message_atLine (number : Nat) (fault : Error) :
    (Error.atLine number fault).message = lineMark number ++ fault.message :=
  rfl

theorem toList_lineMark (number : Nat) :
    (lineMark number).toList = "line ".toList ++ (natDigits number ++ [':', ' ']) := by
  show (("line " ++ number.repr) ++ ": ").toList = _
  rw [String.toList_append, String.toList_append, Nat.toList_repr, List.append_assoc]
  rfl

/-- The number in front of a message can be read off. -/
theorem namesLine_atLine {number number' : Nat} {fault : Error} :
    NamesLine number (.atLine number' fault) ↔ number' = number := by
  constructor
  · rintro ⟨rest, hrest⟩
    rw [message_atLine, String.toList_append, toList_lineMark, toList_lineMark] at hrest
    -- both numbers end at the colon
    have hdigits (n : Nat) (text : List Char) :
        (natDigits n ++ ':' :: text).takeWhile Char.isDigit = natDigits n := by
      rw [List.takeWhile_append_of_pos fun c hc => Text.isDigit_of_mem_natDigits hc]
      simp
    simp only [List.append_assoc, List.append_cancel_left_eq, List.cons_append] at hrest
    have hsame := congrArg (List.takeWhile Char.isDigit) hrest
    rw [hdigits, hdigits] at hsame
    have hvalue := congrArg Text.digitsValue hsame
    rwa [Text.digitsValue_natDigits, Text.digitsValue_natDigits, eq_comm] at hvalue
  · rintro rfl
    rw [NamesLine, message_atLine, String.toList_append]
    exact List.prefix_append _ _

theorem not_namesLine_missingAxiom (number : Nat) :
    ¬NamesLine number (.grammar .missingAxiom) := by
  rintro ⟨rest, hrest⟩
  rw [toList_lineMark] at hrest
  have hhead : some 'l' = some 'g' := congrArg List.head? hrest
  exact absurd hhead (by decide)

/-- An error that names a line is the fault of that line. -/
theorem exists_fault_of_namesLine {number : Nat} {e : Error} (h : parse text = .error e)
    (hline : NamesLine number e) :
    ∃ fault, e = .atLine number fault ∧ RefusedAt (Text.lines text) number fault := by
  rcases parse_error_cases h with rfl | ⟨number', fault, rfl⟩
  · exact absurd hline (not_namesLine_missingAxiom number)
  · obtain rfl := namesLine_atLine.1 hline
    exact ⟨fault, rfl, parse_eq_atLine.1 h⟩

/-- Texts that agree up to a line are refused at this line with the same error. -/
theorem parse_eq_error_of_take {other : List Char} {number : Nat} {e : Error}
    (hsame : (Text.lines text).take number = (Text.lines other).take number)
    (hline : NamesLine number e) (h : parse text = .error e) : parse other = .error e := by
  obtain ⟨fault, rfl, hrefused⟩ := exists_fault_of_namesLine h hline
  exact parse_of_refusedAt (hrefused.of_take hsame)

/-- A text is refused at its first bad line. Its error begins with the number of a line just if that
line is refused alone and those before it are accepted, and what follows the number is the fault of
that line. Lines after it make no difference. Without a bad line the only error is the lack of an
axiom. -/
theorem parse_fails_at_first_fault (text : List Char) :
    (∀ number, (∃ e, parse text = .error e ∧ NamesLine number e) ↔
      ∃ fault, RefusedAt (Text.lines text) number fault) ∧
    (∀ number e, parse text = .error e → NamesLine number e →
      ∃ fault, RefusedAt (Text.lines text) number fault ∧ e.kind = fault.kind ∧
        e.message = lineMark number ++ fault.message) ∧
    (∀ number other, (Text.lines text).take number = (Text.lines other).take number →
      ∀ e, NamesLine number e → (parse text = .error e ↔ parse other = .error e)) ∧
    (parse text = .error (.grammar .missingAxiom) ↔
      Accepted (Text.lines text) ∧ ¬HasInitial (Text.lines text)) ∧
    ∀ e, parse text = .error e → e = .grammar .missingAxiom ∨ ∃ number, NamesLine number e := by
  refine ⟨fun number => ⟨?_, ?_⟩, fun number e h hline => ?_, fun number other hsame e hline => ?_,
    parse_eq_missingAxiom, fun e h => ?_⟩
  · rintro ⟨e, h, hline⟩
    obtain ⟨fault, -, hrefused⟩ := exists_fault_of_namesLine h hline
    exact ⟨fault, hrefused⟩
  · rintro ⟨fault, hrefused⟩
    exact ⟨.atLine number fault, parse_of_refusedAt hrefused, namesLine_atLine.2 rfl⟩
  · obtain ⟨fault, rfl, hrefused⟩ := exists_fault_of_namesLine h hline
    exact ⟨fault, hrefused, rfl, message_atLine number fault⟩
  · exact ⟨parse_eq_error_of_take hsame hline, parse_eq_error_of_take hsame.symm hline⟩
  · refine (parse_error_cases h).imp_right ?_
    rintro ⟨number, fault, rfl⟩
    exact ⟨number, namesLine_atLine.2 rfl⟩

/-- The second line is the axiom, and the fourth is a production without a separator. -/
theorem parse_fails_at_first_fault_numbered :
    parse "// trees\nA\n\nAB\nA=B".toList =
        .error (.atLine 4 (.grammar (.missingSeparator "AB".toList))) ∧
      NamesLine 4 (.atLine 4 (.grammar (.missingSeparator "AB".toList))) ∧
      (∃ fault, RefusedAt (Text.lines "// trees\nA\n\nAB\nA=B".toList) 4 fault) ∧
      parse "// trees\nA\n\nAB\n(".toList =
        .error (.atLine 4 (.grammar (.missingSeparator "AB".toList))) := by
  have hparse : parse "// trees\nA\n\nAB\nA=B".toList =
      .error (.atLine 4 (.grammar (.missingSeparator "AB".toList))) := by decide +kernel
  have hline : NamesLine 4 (.atLine 4 (.grammar (.missingSeparator "AB".toList))) :=
    namesLine_atLine.2 rfl
  obtain ⟨hfirst, -, hsame, -⟩ :=
    parse_fails_at_first_fault "// trees\nA\n\nAB\nA=B".toList
  exact ⟨hparse, hline, (hfirst 4).1 ⟨_, hparse, hline⟩,
    (hsame 4 "// trees\nA\n\nAB\n(".toList (by decide +kernel) _ hline).1 hparse⟩

end Lindenmayer.Grammar
