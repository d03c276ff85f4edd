import Lindenmayer.Element.Basic
import Lindenmayer.Text.Blank

/-!
# Reading elements

A text of elements is a sequence of symbols, each of which may be followed by a group in
parentheses. The commas outside all inner parentheses cut a group into the texts of the parameters.
Blanks between the parts do not count; a parenthesis or comma is never a symbol.
-/

namespace Lindenmayer.Element

open Text

variable {α : Type}

/-- Splits a text at the closing parenthesis of a group that is open at its start; `depth` inner
groups are open too. -/
def takeGroup (depth : Nat) : List Char → Option (List Char × List Char)
  | [] => none
  | c :: rest =>
    if c == ')' && depth == 0 then some ([], rest)
    else
      let inner := if c == '(' then depth + 1 else if c == ')' then depth - 1 else depth
      (takeGroup inner rest).map fun (group, after) => (c :: group, after)

/-- A group takes characters, so that scanning goes on behind it. -/
theorem length_lt_of_takeGroup {depth : Nat} {text group rest : List Char}
    (h : takeGroup depth text = some (group, rest)) : rest.length < text.length := by
  induction text generalizing depth group with
  | nil => simp [takeGroup] at h
  | cons c text ih =>
    simp only [takeGroup] at h
    split at h
    · simp only [Option.some.injEq, Prod.mk.injEq] at h
      simp [h.2]
    · simp only [Option.map_eq_some_iff, Prod.mk.injEq] at h
      obtain ⟨⟨g, r⟩, hg, -, rfl⟩ := h
      have := ih hg
      simp only [List.length_cons] at *
      omega

/-- Cuts a text at the separators that stand outside all parentheses. The depth may become
negative, where nothing is cut either. -/
def splitOutside (separator : Char) (depth : Int) : List Char → List (List Char)
  | [] => [[]]
  | c :: rest =>
    if c == separator && depth == 0 then [] :: splitOutside separator depth rest
    else
      let inner := if c == '(' then depth + 1 else if c == ')' then depth - 1 else depth
      match splitOutside separator inner rest with
      | [] => [[c]]
      | piece :: pieces => (c :: piece) :: pieces

/-- Reads the parameters of a group. -/
def readParams (convert : List Char → Except Error α) (symbol : Char) (group : List Char) :
    Except Error (Params α) := do
  let pieces := (splitOutside ',' 0 group).map trim
  if pieces.any List.isEmpty then
    throw (.grammar (.emptyParameter symbol group))
  Params.ofList (← pieces.mapM convert)

/-- Reads the elements of `text`, which is the end of the text `whole`. -/
def scanFrom (convert : List Char → Except Error α) (whole text : List Char) :
    Except Error (List (Element α)) :=
  match text with
  | [] => .ok []
  | c :: rest =>
    if isBlank c then scanFrom convert whole rest
    else if c == '(' || c == ')' || c == ',' then
      .error (.grammar (.unexpectedSymbol c (trim whole)))
    else
      match hrest : dropBlanks rest with
      | '(' :: inner =>
        match hgroup : takeGroup 0 inner with
        | none => .error (.grammar (.unclosedGroup c))
        | some (group, after) =>
          have : after.length < rest.length + 1 := by
            have h₁ := length_lt_of_takeGroup hgroup
            have h₂ := length_dropBlanks_le rest
            simp only [hrest, List.length_cons] at h₂
            omega
          do
            let params ← readParams convert c group
            let elements ← scanFrom convert whole after
            return ⟨c, params⟩ :: elements
      | _ => do
        let elements ← scanFrom convert whole rest
        return .plain c :: elements
termination_by text.length

/-- Reads a text of elements; `convert` reads the text of a parameter. -/
def scan (convert : List Char → Except Error α) (text : List Char) :
    Except Error (List (Element α)) :=
  scanFrom convert text text

end Lindenmayer.Element
