import Lindenmayer.Element.Scanner

/-!
# Parentheses and separators

A group ends where its own parenthesis is closed, and a separator counts only where no parenthesis
is open. Both are said here of texts alone, and the functions that look for them are shown to find
exactly these places.
-/

namespace Lindenmayer.Element

/-! ## Depth -/

/-- The number of open parentheses after a character. -/
def nest (depth : Int) (c : Char) : Int :=
  if c == '(' then depth + 1 else if c == ')' then depth - 1 else depth

/-- The number of open parentheses at the end of a text. -/
def depthAfter (depth : Int) (text : List Char) : Int :=
  text.foldl nest depth

/-- A text closes every parenthesis that it opens, and moreover `depth` that are open before it. -/
def Closes : Nat → List Char → Prop
  | depth, [] => depth = 0
  | depth, '(' :: rest => Closes (depth + 1) rest
  | 0, ')' :: _ => False
  | depth + 1, ')' :: rest => Closes depth rest
  | depth, _ :: rest => Closes depth rest

/-- At the end of a text nothing may be open. -/
@[simp]
theorem closes_nil {depth : Nat} : Closes depth [] ↔ depth = 0 := Iff.rfl

/-- An opening parenthesis needs one more to close. -/
@[simp]
theorem closes_open {depth : Nat} {rest : List Char} :
    Closes depth ('(' :: rest) ↔ Closes (depth + 1) rest := by
  rw [Closes]

/-- A closing parenthesis closes the last one that is open. -/
theorem closes_close {depth : Nat} {rest : List Char} :
    Closes depth (')' :: rest) ↔ ∃ d, depth = d + 1 ∧ Closes d rest := by
  cases depth with
  | zero => simp [Closes]
  | succ d => simp [Closes]

/-- Other characters do not matter. -/
theorem closes_other {depth : Nat} {c : Char} {rest : List Char} (hopen : c ≠ '(')
    (hclose : c ≠ ')') : Closes depth (c :: rest) ↔ Closes depth rest := by
  rw [Closes]
  · exact hopen
  · exact fun _ => hclose
  · exact fun _ _ => hclose

/-- The first character of a text opens a parenthesis, closes one, or does neither. -/
theorem closes_cons_cases {depth : Nat} {c : Char} {rest : List Char}
    (h : Closes depth (c :: rest)) :
    (c = '(' ∧ Closes (depth + 1) rest) ∨ (c = ')' ∧ ∃ d, depth = d + 1 ∧ Closes d rest) ∨
      (c ≠ '(' ∧ c ≠ ')' ∧ Closes depth rest) := by
  by_cases hopen : c = '('
  · subst hopen
    exact .inl ⟨rfl, closes_open.1 h⟩
  · by_cases hclose : c = ')'
    · subst hclose
      exact .inr (.inl ⟨rfl, closes_close.1 h⟩)
    · exact .inr (.inr ⟨hopen, hclose, (closes_other hopen hclose).1 h⟩)

/-- Parentheses that are closed one after another are closed together. -/
theorem Closes.append {d₁ d₂ : Nat} {left right : List Char} (hleft : Closes d₁ left)
    (hright : Closes d₂ right) : Closes (d₁ + d₂) (left ++ right) := by
  induction left generalizing d₁ with
  | nil =>
    obtain rfl := closes_nil.1 hleft
    rwa [Nat.zero_add]
  | cons c left ih =>
    rw [List.cons_append]
    rcases closes_cons_cases hleft with ⟨rfl, hrest⟩ | ⟨rfl, d, rfl, hrest⟩ | ⟨ho, hc, hrest⟩
    · rw [closes_open, Nat.add_right_comm]
      exact ih hrest
    · rw [closes_close]
      exact ⟨d + d₂, by omega, ih hrest⟩
    · rw [closes_other ho hc]
      exact ih hrest

/-- Without parentheses nothing is open. -/
theorem closes_of_not_mem {text : List Char} (hopen : '(' ∉ text) (hclose : ')' ∉ text) :
    Closes 0 text := by
  induction text with
  | nil => exact closes_nil.2 rfl
  | cons c text ih =>
    simp only [List.mem_cons, not_or] at hopen hclose
    exact (closes_other (Ne.symm hopen.1) (Ne.symm hclose.1)).2 (ih hopen.2 hclose.2)

/-- Texts that close their parentheses still do so when they are joined. -/
theorem Closes.intercalate {separator : List Char} {texts : List (List Char)}
    (hseparator : Closes 0 separator) (h : ∀ text ∈ texts, Closes 0 text) :
    Closes 0 (separator.intercalate texts) := by
  induction texts with
  | nil => exact closes_nil.2 rfl
  | cons text texts ih =>
    obtain ⟨htext, hothers⟩ := List.forall_mem_cons.1 h
    cases texts with
    | nil =>
      rw [List.intercalate_singleton]
      exact htext
    | cons next texts =>
      rw [List.intercalate_cons_cons]
      exact (htext.append hseparator).append (ih hothers)

/-- A text that closes its parentheses still does so in a further pair. -/
theorem Closes.enclose {text : List Char} (h : Closes 0 text) :
    Closes 0 ('(' :: (text ++ [')'])) := by
  have hlast : Closes 1 [')'] := closes_close.2 ⟨0, rfl, closes_nil.2 rfl⟩
  exact closes_open.2 (h.append hlast)

@[simp]
theorem depthAfter_cons (depth : Int) (c : Char) (rest : List Char) :
    depthAfter depth (c :: rest) = depthAfter (nest depth c) rest :=
  rfl

/-- Other characters do not change the depth. -/
theorem nest_other {c : Char} (depth : Int) (hopen : c ≠ '(') (hclose : c ≠ ')') :
    nest depth c = depth := by
  simp [nest, hopen, hclose]

/-- A text that closes some parentheses lowers the depth by their number. -/
theorem Closes.depthAfter {d : Nat} {text : List Char} (h : Closes d text) (depth : Int) :
    depthAfter depth text = depth - d := by
  induction text generalizing d depth with
  | nil =>
    obtain rfl : d = 0 := h
    simp [Element.depthAfter]
  | cons c text ih =>
    rw [depthAfter_cons]
    -- induction on the text, one case for each kind of character
    rcases closes_cons_cases h with ⟨rfl, hrest⟩ | ⟨rfl, d, rfl, hrest⟩ | ⟨ho, hc, hrest⟩
    · rw [ih hrest, show nest depth '(' = depth + 1 from rfl]
      omega
    · rw [ih hrest, show nest depth ')' = depth - 1 from rfl]
      omega
    · rw [ih hrest, nest_other depth ho hc]

/-- A text that closes its own parentheses leaves the depth as it is. -/
theorem Closes.depthAfter_self {text : List Char} (h : Closes 0 text) (depth : Int) :
    Element.depthAfter depth text = depth := by
  rw [h.depthAfter]
  omega

/-- Where nothing is left open, a text that closes its parentheses is cut into two that do. -/
theorem closes_of_append {d : Nat} {left right : List Char} (h : Closes d (left ++ right))
    (hdepth : depthAfter d left = 0) : Closes d left ∧ Closes 0 right := by
  induction left generalizing d with
  | nil =>
    obtain rfl : d = 0 := Int.ofNat_eq_zero.1 hdepth
    exact ⟨closes_nil.2 rfl, h⟩
  | cons c left ih =>
    rw [depthAfter_cons] at hdepth
    rcases closes_cons_cases h with ⟨rfl, hrest⟩ | ⟨rfl, d, rfl, hrest⟩ | ⟨ho, hc, hrest⟩
    · exact (ih hrest hdepth).imp_left closes_open.2
    · rw [show nest (d + 1 : Nat) ')' = d by simp [nest]] at hdepth
      exact (ih hrest hdepth).imp_left fun hleft => closes_close.2 ⟨d, rfl, hleft⟩
    · rw [nest_other _ ho hc] at hdepth
      exact (ih hrest hdepth).imp_left (closes_other ho hc).2

/-! ## The end of a group -/

/-- What is open after a character, as `takeGroup` counts it. -/
theorem closes_cons {depth : Nat} {c : Char} {rest : List Char} (h : ¬(c = ')' ∧ depth = 0)) :
    Closes depth (c :: rest) ↔
      Closes (if c == '(' then depth + 1 else if c == ')' then depth - 1 else depth) rest := by
  by_cases hopen : c = '('
  · subst hopen
    exact closes_open
  · by_cases hclose : c = ')'
    · subst hclose
      cases depth with
      | zero => exact absurd ⟨rfl, rfl⟩ h
      | succ d => rfl
    · simp only [hopen, hclose, beq_iff_eq, ↓reduceIte]
      exact closes_other hopen hclose

/-- A group ends at the first parenthesis that closes it. -/
theorem takeGroup_eq_some {depth : Nat} {text group after : List Char} :
    takeGroup depth text = some (group, after) ↔
      text = group ++ ')' :: after ∧ Closes depth group := by
  induction text generalizing depth group with
  | nil => simp [takeGroup]
  | cons c text ih =>
    rw [takeGroup]
    -- either the group ends here or the parentheses are counted on
    by_cases hend : c = ')' ∧ depth = 0
    · obtain ⟨rfl, rfl⟩ := hend
      rw [if_pos (by simp), Option.some.injEq, Prod.mk.injEq]
      constructor
      · rintro ⟨rfl, rfl⟩
        exact ⟨rfl, closes_nil.2 rfl⟩
      · rintro ⟨htext, hgroup⟩
        cases group with
        | nil => exact ⟨rfl, (List.cons.inj htext).2⟩
        | cons g group =>
          obtain rfl := (List.cons.inj htext).1
          obtain ⟨d, hd, -⟩ := closes_close.1 hgroup
          omega
    · rw [if_neg (by simpa using hend), Option.map_eq_some_iff]
      constructor
      · rintro ⟨⟨g, a⟩, hg, hpair⟩
        obtain ⟨rfl, rfl⟩ := Prod.mk.inj hpair
        obtain ⟨rfl, hcloses⟩ := ih.1 hg
        exact ⟨rfl, (closes_cons hend).2 hcloses⟩
      · rintro ⟨htext, hgroup⟩
        cases group with
        | nil =>
          obtain ⟨rfl, -⟩ := List.cons.inj htext
          exact absurd ⟨rfl, hgroup⟩ hend
        | cons g group =>
          obtain ⟨rfl, rfl⟩ := List.cons.inj htext
          exact ⟨(group, after), ih.2 ⟨rfl, (closes_cons hend).1 hgroup⟩, rfl⟩

/-! ## Separators -/

/-- No separator stands where no parenthesis is open, `depth` being open at the start. -/
def Free (separator : Char) : Int → List Char → Prop
  | _, [] => True
  | depth, c :: rest => ¬(c = separator ∧ depth = 0) ∧ Free separator (nest depth c) rest

/-- Both parts are free of a separator, at the depths at which they begin. -/
theorem free_append {separator : Char} {depth : Int} {left right : List Char} :
    Free separator depth (left ++ right) ↔
      Free separator depth left ∧ Free separator (depthAfter depth left) right := by
  induction left generalizing depth with
  | nil => exact ⟨fun h => ⟨trivial, h⟩, fun h => h.2⟩
  | cons c left ih =>
    rw [List.cons_append, Free, Free, ih, and_assoc, depthAfter_cons]

/-- A separator that does not occur does not cut. -/
theorem free_of_not_mem {separator : Char} {text : List Char} (h : separator ∉ text)
    (depth : Int) : Free separator depth text := by
  induction text generalizing depth with
  | nil => trivial
  | cons c text ih =>
    rw [List.mem_cons, not_or] at h
    exact ⟨fun hc => h.1 hc.1.symm, ih h.2 _⟩

theorem Closes.free_right {separator : Char} {depth : Int} {left right : List Char}
    (h : Closes 0 left) (hfree : Free separator depth (left ++ right)) :
    Free separator depth right := by
  have hright := (free_append.1 hfree).2
  rwa [h.depthAfter_self] at hright

/-- In a text that leaves a parenthesis open no separator counts. -/
theorem Closes.free {d : Nat} {text : List Char} (h : Closes d text) {depth : Int}
    (hdepth : d < depth) (separator : Char) : Free separator depth text := by
  induction text generalizing d depth with
  | nil => trivial
  | cons c text ih =>
    refine ⟨by omega, ?_⟩
    rcases closes_cons_cases h with ⟨rfl, hrest⟩ | ⟨rfl, d, rfl, hrest⟩ | ⟨ho, hc, hrest⟩
    · rw [show nest depth '(' = depth + 1 from rfl]
      exact ih hrest (by omega)
    · rw [show nest depth ')' = depth - 1 from rfl]
      exact ih hrest (by omega)
    · rw [nest_other depth ho hc]
      exact ih hrest hdepth

/-- A character that does not cut belongs to the first piece. -/
theorem splitOutside_cons {separator c : Char} {depth : Int} {rest : List Char}
    (h : ¬(c = separator ∧ depth = 0)) :
    splitOutside separator depth (c :: rest) =
      match splitOutside separator (nest depth c) rest with
      | [] => [[c]]
      | piece :: pieces => (c :: piece) :: pieces := by
  rw [splitOutside, if_neg (by simpa using h)]
  rfl

/-- A separator ends a piece. -/
@[simp]
theorem splitOutside_separator (separator : Char) (rest : List Char) :
    splitOutside separator 0 (separator :: rest) = [] :: splitOutside separator 0 rest := by
  rw [splitOutside, if_pos (by simp)]

/-- There is always a first piece. -/
@[simp]
theorem splitOutside_ne_nil (separator : Char) (depth : Int) (text : List Char) :
    splitOutside separator depth text ≠ [] := by
  cases text with
  | nil => exact nofun
  | cons c text =>
    rw [splitOutside]
    split
    · exact nofun
    · simp only
      split <;> exact nofun

/-- Where no separator cuts, there is one piece only. -/
theorem splitOutside_of_free {separator : Char} {depth : Int} {text : List Char}
    (h : Free separator depth text) : splitOutside separator depth text = [text] := by
  induction text generalizing depth with
  | nil => rfl
  | cons c text ih => rw [splitOutside_cons h.1, ih h.2]

/-- A text is cut behind a part without separators. -/
theorem splitOutside_append {separator : Char} {depth : Int} {left : List Char}
    (h : Free separator depth left) (hdepth : depthAfter depth left = 0) (right : List Char) :
    splitOutside separator depth (left ++ separator :: right) =
      left :: splitOutside separator 0 right := by
  induction left generalizing depth with
  | nil =>
    obtain rfl : depth = 0 := hdepth
    exact splitOutside_separator separator right
  | cons c left ih => rw [List.cons_append, splitOutside_cons h.1, ih h.2 hdepth]

/-- The first piece is the whole text or ends at a separator that counts. -/
theorem splitOutside_eq_cons {separator : Char} {depth : Int} {text piece : List Char}
    {pieces : List (List Char)} (h : splitOutside separator depth text = piece :: pieces) :
    (pieces = [] ∧ piece = text ∧ Free separator depth text) ∨
      ∃ rest, text = piece ++ separator :: rest ∧ Free separator depth piece ∧
        depthAfter depth piece = 0 ∧ splitOutside separator 0 rest = pieces := by
  induction text generalizing depth piece with
  | nil =>
    obtain ⟨rfl, rfl⟩ := List.cons.inj h
    exact .inl ⟨rfl, rfl, trivial⟩
  | cons c text ih =>
    by_cases hcut : c = separator ∧ depth = 0
    · obtain ⟨rfl, rfl⟩ := hcut
      rw [splitOutside_separator] at h
      obtain ⟨rfl, hpieces⟩ := List.cons.inj h
      exact .inr ⟨text, rfl, trivial, rfl, hpieces⟩
    · rw [splitOutside_cons hcut] at h
      cases hsplit : splitOutside separator (nest depth c) text with
      | nil =>
        exact absurd hsplit (splitOutside_ne_nil _ _ _)
      | cons first others =>
        rw [hsplit] at h
        obtain ⟨rfl, rfl⟩ := List.cons.inj h
        rcases ih hsplit with ⟨rfl, rfl, hfree⟩ | ⟨rest, rfl, hfree, hdepth, hrest⟩
        · exact .inl ⟨rfl, rfl, hcut, hfree⟩
        · exact .inr ⟨rest, rfl, ⟨hcut, hfree⟩, hdepth, hrest⟩

end Lindenmayer.Element
