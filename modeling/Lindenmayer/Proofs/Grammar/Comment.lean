import Lindenmayer.Proofs.Grammar.Fault
import Lindenmayer.Proofs.Text.Lines

/-!
# Comments and blank lines

Nothing of a comment is read. Lines that are blank or comments may be put in anywhere, and comments
behind a space at the end of any line: the same grammar is read, or the text is refused with the
same fault, whose line has moved on by the lines put in before it.
-/

namespace Lindenmayer

/-- The same error at another line. -/
def Error.renumber (f : Nat → Nat) : Error → Error
  | .atLine number fault => .atLine (f number) fault
  | e => e

@[simp]
theorem Error.kind_renumber (f : Nat → Nat) (e : Error) : (e.renumber f).kind = e.kind := by
  cases e <;> rfl

namespace Grammar

open Text (IsBlanks dropBlanks isBlank isLineBreak trim)

/-! ## Texts with comments -/

/-- Lines that are blank, or comments with or without blanks in front. -/
structure IsInert (line : List Char) : Prop where
  no_break : ∀ c ∈ line, ¬isLineBreak c
  blank_or_comment : IsBlanks line ∨ ∃ comment, dropBlanks line = '/' :: '/' :: comment

/-- What may be appended to a line: nothing, or a comment behind a space. -/
inductive IsRemark : List Char → Prop where
  | none : IsRemark []
  | comment {comment : List Char} (hcomment : ∀ c ∈ comment, ¬isLineBreak c) :
      IsRemark (' ' :: '/' :: '/' :: comment)

/-- Lines among which inert ones have been put, and to which remarks have been appended. For each of
the old lines it is counted how many have been put directly before it; there may be further ones at
the end. -/
inductive Annotated : (counts : List Nat) → (all annotated : List (List Char)) → Prop where
  | done {added : List (List Char)} (hadded : ∀ line ∈ added, IsInert line) : Annotated [] [] added
  | line {counts : List Nat} {line remark : List Char} {added all annotated : List (List Char)}
      (hadded : ∀ line ∈ added, IsInert line) (hremark : IsRemark remark)
      (hrest : Annotated counts all annotated) :
      Annotated (added.length :: counts) (line :: all) (added ++ (line ++ remark) :: annotated)

theorem Annotated.no_break {counts : List Nat} {all annotated : List (List Char)}
    (h : Annotated counts all annotated) (hall : ∀ line ∈ all, ∀ c ∈ line, ¬isLineBreak c) :
    ∀ line ∈ annotated, ∀ c ∈ line, ¬isLineBreak c := by
  induction h with
  | done hadded => exact fun line hline => (hadded line hline).no_break
  | line hadded hremark _ ih =>
    obtain ⟨hline, hothers⟩ := List.forall_mem_cons.1 hall
    refine List.forall_mem_append.2 ⟨fun line hline => (hadded line hline).no_break,
      List.forall_mem_cons.2 ⟨List.forall_mem_append.2 ⟨hline, ?_⟩, ih hothers⟩⟩
    cases hremark with
    | none => exact nofun
    | comment hcomment =>
      exact List.forall_mem_cons.2 ⟨by decide, List.forall_mem_cons.2 ⟨by decide,
        List.forall_mem_cons.2 ⟨by decide, hcomment⟩⟩⟩

/-! ## What is left of a line -/

/-- A space does not complete two slashes. -/
theorem slashes_prefix_append_space (text rest : List Char) :
    slashes <+: text ++ ' ' :: rest ↔ slashes <+: text := by
  unfold slashes
  cases text with
  | nil => simp
  | cons c text =>
    cases text with
    | nil => simp
    | cons d text => simp

/-- A comment is taken off together with the space in front of it, by induction on the line, which
may have a comment already. -/
theorem stripInner_append_comment (line comment : List Char) :
    stripInner (line ++ ' ' :: (slashes ++ comment)) = stripInner line := by
  induction line with
  | nil =>
    rw [List.nil_append, stripInner_cons_eq, if_pos ⟨by decide, List.prefix_append slashes comment⟩]
    rfl
  | cons c line ih =>
    simp only [List.cons_append, stripInner_cons_eq, slashes_prefix_append_space, ih]

/-- A remark does not count. -/
theorem content_append_remark (line : List Char) {remark : List Char} (h : IsRemark remark) :
    content (line ++ remark) = content line := by
  cases h with
  | none => rw [List.append_nil]
  | @comment comment _ =>
    have hkept : stripComment (line ++ ' ' :: (slashes ++ comment)) = stripComment line := by
      simp only [stripComment_eq, slashes_prefix_append_space, stripInner_append_comment]
    exact congrArg trim hkept

/-- In front of a comment, or of nothing, blanks stay at most. -/
theorem isBlanks_stripInner {c : Char} {blanks rest : List Char} (hc : isBlank c)
    (hblanks : IsBlanks blanks) (hrest : rest = [] ∨ slashes <+: rest) :
    IsBlanks (stripInner (c :: (blanks ++ rest))) := by
  induction blanks generalizing c with
  | nil =>
    rw [List.nil_append, stripInner_cons_eq]
    rcases hrest with rfl | hcomment
    · rw [if_neg fun h => absurd h.2 (by decide)]
      exact List.forall_mem_singleton.2 hc
    · rw [if_pos ⟨hc, hcomment⟩]
      exact Text.isBlanks_nil
  | cons d blanks ih =>
    obtain ⟨hd, hblanks⟩ := List.forall_mem_cons.1 hblanks
    -- a blank is no slash
    have hslash : ¬slashes <+: d :: (blanks ++ rest) := by
      intro h
      obtain rfl := (List.cons_prefix_cons.1 h).1
      exact absurd hd (by decide)
    rw [List.cons_append, stripInner_cons_eq, if_neg fun h => hslash h.2]
    exact List.forall_mem_cons.2 ⟨hc, ih hd hblanks⟩

theorem isBlanks_stripComment {line : List Char} (h : IsInert line) :
    IsBlanks (stripComment line) := by
  obtain ⟨blanks, hblanks, hline⟩ := Text.exists_blanks line
  have hrest : dropBlanks line = [] ∨ slashes <+: dropBlanks line := by
    rcases h.blank_or_comment with hline | ⟨comment, hcomment⟩
    · exact .inl (Text.dropBlanks_of_isBlanks hline)
    · exact .inr ⟨comment, hcomment.symm⟩
  rw [stripComment_eq]
  split
  · exact Text.isBlanks_nil
  · rename_i hslashes
    rw [hline] at hslashes ⊢
    cases blanks with
    | nil =>
      -- without blanks in front there would be two slashes
      rcases hrest with hnil | hcomment
      · rw [hnil]
        exact Text.isBlanks_nil
      · exact absurd hcomment hslashes
    | cons c blanks =>
      obtain ⟨hc, hblanks⟩ := List.forall_mem_cons.1 hblanks
      exact isBlanks_stripInner hc hblanks hrest

/-- Nothing is left of an inert line. -/
theorem content_of_isInert {line : List Char} (h : IsInert line) : content line = [] :=
  Text.trim_append_blanks (isBlanks_stripComment h) []

/-! ## Reading -/

namespace Draft

variable {draft : Draft} {number : Nat}

theorem readRaw_of_isInert {line : List Char} (h : IsInert line) :
    draft.readRaw line = .ok draft := by
  rw [readRaw, content_of_isInert h]
  rfl

theorem readLines_of_isInert {added : List (List Char)} (h : ∀ line ∈ added, IsInert line) :
    draft.readLines number added = .ok draft := by
  induction added generalizing number with
  | nil => rfl
  | cons line added ih =>
    obtain ⟨hline, hothers⟩ := List.forall_mem_cons.1 h
    rw [readLines_cons, readRaw_of_isInert hline]
    exact ih hothers

/-- A draft goes on as without the comments, by induction on the lines. If the numbers begin at `n`
without and at `m` with them, a line has moved on by the lines put in before it. -/
theorem readLines_of_annotated {counts : List Nat} {all annotated : List (List Char)}
    (h : Annotated counts all annotated) {f : Nat → Nat} {n m : Nat}
    (hf : ∀ i, f (n + i) = m + i + (counts.take (i + 1)).sum) :
    draft.readLines m annotated = (draft.readLines n all).mapError (Error.renumber f) := by
  induction h generalizing draft n m with
  | done hadded => exact readLines_of_isInert hadded
  | @line counts line remark added all annotated hadded hremark _ ih =>
    have hfirst : f n = m + added.length := by simpa using hf 0
    have hnext : ∀ i, f (n + 1 + i) = m + added.length + 1 + i + (counts.take (i + 1)).sum := by
      intro i
      have hlater := hf (i + 1)
      rw [List.take_succ_cons, List.sum_cons] at hlater
      rw [show n + 1 + i = n + (i + 1) by omega, hlater]
      omega
    have hraw : draft.readRaw (line ++ remark) = draft.readRaw line := by
      rw [readRaw, content_append_remark line hremark, ← readRaw]
    -- the old line comes behind those put in before it, with the number that `f` gives it
    rw [readLines_append, readLines_of_isInert hadded]
    show draft.readLines (m + added.length) _ = _
    rw [readLines_cons, readLines_cons, hraw]
    cases draft.readRaw line with
    | error e => exact congrArg (fun k => Except.error (Error.atLine k e)) hfirst.symm
    | ok next => exact ih hnext

end Draft

/-- What becomes of a text with comments is what becomes of it without them, but for the number of
the line of an error. -/
theorem parse_of_annotated {text other : List Char} {counts : List Nat}
    (h : Annotated counts (Text.lines text) (Text.lines other)) :
    parse other =
      (parse text).mapError (Error.renumber fun number => number + (counts.take number).sum) := by
  have hlines : Draft.readLines {} 1 (Text.lines other) =
      (Draft.readLines {} 1 (Text.lines text)).mapError
        (Error.renumber fun number => number + (counts.take number).sum) :=
    Draft.readLines_of_annotated h fun i => by rw [Nat.add_comm 1 i]
  rw [parse, parse, hlines]
  cases Draft.readLines {} 1 (Text.lines text) with
  | error e => rfl
  | ok draft =>
    -- only a missing axiom is left to be found, which has no line
    show draft.finish = draft.finish.mapError _
    unfold Draft.finish
    cases draft.initial <;> rfl

/-- Comments and blank lines are inert. With comments the same grammar is read, or there is an error
of the same kind with the same message, except that the number of a line grows by the number of
lines that have been put in before it. -/
theorem comments_are_inert {text : List Char} {counts : List Nat} {annotated : List (List Char)}
    (h : Annotated counts (Text.lines text) annotated) :
    Text.lines (annotated.flatMap (· ++ ['\n'])) = annotated ∧
    ∀ other, Text.lines other = annotated →
      (∀ g, parse text = .ok g ↔ parse other = .ok g) ∧
      ∀ e, parse text = .error e → ∃ e', parse other = .error e' ∧ e'.kind = e.kind ∧
        (e = .grammar .missingAxiom ∧ e' = e ∨
          ∃ number fault, e = .atLine number fault ∧
            e.message = lineMark number ++ fault.message ∧
            e'.message = lineMark (number + (counts.take number).sum) ++ fault.message) := by
  refine ⟨Text.lines_flatMap (h.no_break Text.not_isLineBreak_of_mem_lines), ?_⟩
  rintro other rfl
  rw [parse_of_annotated h]
  refine ⟨fun g => ?_, fun e he => ?_⟩
  · cases parse text with
    | ok g' => exact Iff.rfl
    | error e => exact ⟨nofun, nofun⟩
  · refine ⟨_, congrArg (Except.mapError _) he, Error.kind_renumber _ e, ?_⟩
    rcases parse_error_cases he with rfl | ⟨number, fault, rfl⟩
    · exact .inl ⟨rfl, rfl⟩
    · exact .inr ⟨number, fault, rfl, rfl, rfl⟩

/-- The second line of a text without separator becomes the fifth; the slashes inside it stay. -/
theorem comments_are_inert_numbered :
    let text := "A\nAB//C\n".toList
    let other := "// trees\r\nA // axiom\n\n\t// none\nAB//C // //".toList
    Annotated [1, 2] (Text.lines text) (Text.lines other) ∧
      parse text = .error (.atLine 2 (.grammar (.missingSeparator "AB//C".toList))) ∧
      ∃ e, parse other = .error e ∧ e.kind = .grammar ∧
        e.message = "line 5: production needs '=': 'AB//C'" := by
  intro text other
  have hsecond : Annotated [2] ["AB//C".toList]
      [[], "\t// none".toList, "AB//C // //".toList] := by
    refine @Annotated.line [] "AB//C".toList " // //".toList [[], "\t// none".toList] [] []
      ?_ (@IsRemark.comment " //".toList (Text.forall_mem_of_all (by decide))) (.done nofun)
    exact List.forall_mem_cons.2 ⟨⟨nofun, .inl Text.isBlanks_nil⟩,
      List.forall_mem_singleton.2
        ⟨Text.forall_mem_of_all (by decide), .inr ⟨" none".toList, by decide⟩⟩⟩
  have hfirst : Annotated [1, 2] ["A".toList, "AB//C".toList]
      ["// trees".toList, "A // axiom".toList, [], "\t// none".toList, "AB//C // //".toList] := by
    refine @Annotated.line [2] "A".toList " // axiom".toList ["// trees".toList] _ _
      ?_ (@IsRemark.comment " axiom".toList (Text.forall_mem_of_all (by decide))) hsecond
    exact List.forall_mem_singleton.2
      ⟨Text.forall_mem_of_all (by decide), .inr ⟨" trees".toList, by decide⟩⟩
  have hannotated : Annotated [1, 2] (Text.lines text) (Text.lines other) := by
    have htext : Text.lines text = ["A".toList, "AB//C".toList] := by decide +kernel
    have hother : Text.lines other = ["// trees".toList, "A // axiom".toList, [],
        "\t// none".toList, "AB//C // //".toList] := by decide +kernel
    rw [htext, hother]
    exact hfirst
  have hparse : parse text = .error (.atLine 2 (.grammar (.missingSeparator "AB//C".toList))) := by
    decide +kernel
  obtain ⟨e, he, hkind, hmessage⟩ := ((comments_are_inert hannotated).2 other rfl).2 _ hparse
  refine ⟨hannotated, hparse, e, he, hkind, ?_⟩
  rcases hmessage with ⟨hmissing, -⟩ | ⟨number, fault, hfault, -, hmessage⟩
  · exact absurd hmissing nofun
  · obtain ⟨rfl, rfl⟩ := Error.atLine.inj hfault
    rw [hmessage]
    decide +kernel

end Grammar

end Lindenmayer
