import Lindenmayer.RandomGrammar
import Lindenmayer.Proofs.Random.Drawing
import Lindenmayer.Proofs.Text.Brackets
import Lindenmayer.Random.Replay

/-!
# Words of random grammars

Whatever is drawn, a word consists of balanced brackets, turns and the two symbols, and the growing
symbol is one of them. Brackets are nested up to three deep, and besides the symbols that are drawn
there is only what closes the brackets at the end, and the growing symbol if it would be missing.
-/

namespace Lindenmayer.RandomGrammar

open Drawing (Always always_pure always_true)
open Text (ClosesAll IsBalanced IsBracket closesAll_cons closesAll_cons_of_not_isBracket
  closesAll_replicate depth depth_cons depth_nil depth_of_not_isBracket
  isBalanced_of_not_isBracket)

variable {σ : Type} [DrawSource σ]

/-- The symbols that may occur in a word. -/
def wordSymbols (grower : Char) : List Char :=
  ['F', grower, '+', '-', '[', ']']

theorem symbolFor_mem (grower : Char) (draw : Float) :
    symbolFor grower draw ∈ wordSymbols grower := by
  unfold symbolFor wordSymbols
  split
  · simp
  · split
    · simp
    · split <;> simp

theorem not_isBracket_symbolFor {grower : Char} (hgrower : ¬IsBracket grower) (draw : Float) :
    ¬IsBracket (symbolFor grower draw) := by
  unfold symbolFor
  split
  · decide
  · split
    · exact hgrower
    · split
      · decide
      · decide

/-! ## Symbols that may be drawn -/

/-- The words that can be drawn with a number of symbols where a number of brackets are open. A
bracket is opened unless the nesting is deepest, an open one is closed, or another symbol is put; in
the end all open ones are closed. -/
inductive IsDrawn (grower : Char) : (opened length : Nat) → List Char → Prop where
  | closers (opened : Nat) : IsDrawn grower opened 0 (List.replicate opened ']')
  | opening {opened length : Nat} {word : List Char} (hopened : opened < maxDepth)
      (hword : IsDrawn grower (opened + 1) length word) :
      IsDrawn grower opened (length + 1) ('[' :: word)
  | closing {opened length : Nat} {word : List Char} (hword : IsDrawn grower opened length word) :
      IsDrawn grower (opened + 1) (length + 1) (']' :: word)
  | symbol {opened length : Nat} {word : List Char} (draw : Float)
      (hword : IsDrawn grower opened length word) :
      IsDrawn grower opened (length + 1) (symbolFor grower draw :: word)

/-- Nothing else is drawn, by induction on the symbols that are still to be drawn. -/
theorem always_isDrawn (branch : Float) (grower : Char) (opened length : Nat) :
    Always (bracketedSymbols branch grower opened length : Drawing σ (List Char))
      (IsDrawn grower opened length) := by
  induction length generalizing opened with
  | zero => exact always_pure (.closers opened)
  | succ length ih =>
    refine (always_true _).bind fun draw _ => ?_
    split
    · rename_i hopening
      rw [Bool.and_eq_true, decide_eq_true_eq, decide_eq_true_eq] at hopening
      exact (ih (opened + 1)).bind fun word hword => always_pure (.opening hopening.2 hword)
    · split
      · rename_i hclosing
        rw [Bool.and_eq_true, decide_eq_true_eq, decide_eq_true_eq] at hclosing
        obtain ⟨others, rfl⟩ := Nat.exists_eq_add_of_lt hclosing.2
        rw [Nat.zero_add]
        exact (ih others).bind fun word hword => always_pure (.closing hword)
      · exact (always_true _).bind fun draw _ =>
          (ih opened).bind fun word hword => always_pure (.symbol draw hword)

namespace IsDrawn

variable {grower : Char} {opened length : Nat} {word : List Char}

theorem mem_wordSymbols (h : IsDrawn grower opened length word) :
    ∀ c ∈ word, c ∈ wordSymbols grower := by
  induction h with
  | closers opened =>
    intro c hc
    rw [List.eq_of_mem_replicate hc]
    simp [wordSymbols]
  | opening _ _ ih => exact List.forall_mem_cons.2 ⟨by simp [wordSymbols], ih⟩
  | closing _ ih => exact List.forall_mem_cons.2 ⟨by simp [wordSymbols], ih⟩
  | symbol draw _ ih => exact List.forall_mem_cons.2 ⟨symbolFor_mem grower draw, ih⟩

/-- At most the deepest nesting of brackets is left to be closed in the end. -/
theorem length_mem (h : IsDrawn grower opened length word) (hopened : opened ≤ maxDepth) :
    length ≤ word.length ∧ word.length ≤ length + maxDepth := by
  induction h with
  | closers opened =>
    rw [List.length_replicate]
    omega
  | opening hless _ ih =>
    have := ih hless
    rw [List.length_cons]
    omega
  | closing _ ih =>
    have := ih (by omega)
    rw [List.length_cons]
    omega
  | symbol _ _ ih =>
    have := ih hopened
    rw [List.length_cons]
    omega

variable (hgrower : ¬IsBracket grower)

include hgrower

/-- The brackets that are open are counted and closed in the end. -/
theorem closesAll (h : IsDrawn grower opened length word) : ClosesAll opened word := by
  induction h with
  | closers opened => exact closesAll_replicate opened
  | @opening opened _ _ _ _ ih =>
    rw [Nat.cast_succ] at ih
    exact closesAll_cons.2 ⟨Int.natCast_nonneg opened, ih⟩
  | @closing opened _ _ _ ih =>
    have hclosing : depth [']'] = -1 := rfl
    rw [closesAll_cons, hclosing, Nat.cast_succ, add_neg_cancel_right]
    exact ⟨by omega, ih⟩
  | @symbol opened _ _ draw _ ih =>
    rw [closesAll_cons_of_not_isBracket (not_isBracket_symbolFor hgrower draw)
      (Int.natCast_nonneg opened)]
    exact ih

/-- No bracket is opened where the nesting is deepest. -/
theorem depth_le (h : IsDrawn grower opened length word) (hopened : opened ≤ maxDepth) :
    ∀ front, front <+: word → opened + depth front ≤ maxDepth := by
  -- what a symbol leaves open is what was open in front of it and what it opens itself
  have hcons {c : Char} {opened inner : Nat} {word : List Char} (hopened : opened ≤ maxDepth)
      (hinner : (inner : Int) = opened + depth [c])
      (hword : ∀ front, front <+: word → inner + depth front ≤ maxDepth) :
      ∀ front, front <+: c :: word → opened + depth front ≤ maxDepth := by
    intro front hfront
    rcases List.prefix_cons_iff.1 hfront with rfl | ⟨rest, rfl, hrest⟩
    · rw [depth_nil, add_zero]
      exact_mod_cast hopened
    · rw [depth_cons, ← add_assoc, ← hinner]
      exact hword rest hrest
  induction h with
  | closers opened =>
    intro front hfront
    have hclosing : ∀ c ∈ front, c = ']' := fun c hc =>
      List.eq_of_mem_replicate (hfront.subset hc)
    have hcount : front.count '[' = 0 :=
      List.count_eq_zero.2 fun hmem => absurd (hclosing _ hmem) (by decide)
    unfold depth
    omega
  | opening hless _ ih => exact hcons hopened (Nat.cast_succ _) (ih hless)
  | @closing opened _ _ _ ih =>
    have hclosing : depth [']'] = -1 := rfl
    refine hcons hopened ?_ (ih (by omega))
    rw [hclosing, Nat.cast_succ, add_neg_cancel_right]
  | symbol draw _ ih =>
    refine hcons hopened ?_ (ih hopened)
    rw [depth_of_not_isBracket (not_isBracket_symbolFor hgrower draw), add_zero]

end IsDrawn

/-! ## Words -/

/-- A word is what has been drawn, with the growing symbol behind it if it is missing there. -/
theorem always_exists_isDrawn (branch : Float) (grower : Char) (length : Nat) :
    Always (balancedWord branch grower length : Drawing σ (List Char)) fun word =>
      grower ∈ word ∧ ∃ drawn, IsDrawn grower 0 length drawn ∧
        (word = drawn ∨ word = drawn ++ [grower]) := by
  refine (always_isDrawn branch grower 0 length).bind fun drawn hdrawn => always_pure ?_
  split
  · rename_i hcontains
    exact ⟨List.contains_iff_mem.1 hcontains, drawn, hdrawn, .inl rfl⟩
  · exact ⟨List.mem_append_right _ (List.mem_singleton_self grower), drawn, hdrawn, .inr rfl⟩

/-- A balanced word of the symbols that may occur. -/
structure IsBranchedWord (grower : Char) (word : List Char) : Prop where
  symbols : ∀ c ∈ word, c ∈ wordSymbols grower
  balanced : IsBalanced word

theorem IsDrawn.isBranchedWord {grower : Char} {length : Nat} {word drawn : List Char}
    (hgrower : ¬IsBracket grower) (hdrawn : IsDrawn grower 0 length drawn)
    (hword : word = drawn ∨ word = drawn ++ [grower]) : IsBranchedWord grower word := by
  rcases hword with rfl | rfl
  · exact ⟨hdrawn.mem_wordSymbols, hdrawn.closesAll hgrower⟩
  · refine ⟨List.forall_mem_append.2 ⟨hdrawn.mem_wordSymbols, ?_⟩, ?_⟩
    · exact List.forall_mem_singleton.2 (by simp [wordSymbols])
    · have happend := (hdrawn.closesAll hgrower).append
        (isBalanced_of_not_isBracket (List.forall_mem_singleton.2 hgrower))
      rwa [Nat.cast_zero, add_zero] at happend

/-- The growing symbol occurs in every word. -/
theorem always_balancedWord (branch : Float) {grower : Char} (hgrower : ¬IsBracket grower)
    (length : Nat) :
    Always (balancedWord branch grower length : Drawing σ (List Char))
      fun word => IsBranchedWord grower word ∧ grower ∈ word := by
  refine (always_exists_isDrawn branch grower length).mono ?_
  rintro word ⟨hmem, drawn, hdrawn, hword⟩
  exact ⟨hdrawn.isBranchedWord hgrower hword, hmem⟩

/-! ## Depth and length -/

/-- A word for which a number of symbols has been asked. -/
structure IsNestedWord (grower : Char) (length : Nat) (word : List Char) : Prop where
  /-- Nowhere are brackets closed that are not open, or more than three of them open. -/
  depth_mem : ∀ front, front <+: word → 0 ≤ depth front ∧ depth front ≤ 3
  count_eq : word.count '[' = word.count ']'
  grower_mem : grower ∈ word
  symbols : ∀ c ∈ word, c ∈ ['F', '+', '-', '[', ']', grower]
  /-- What closes the brackets and the growing symbol may come in addition. -/
  length_mem : length ≤ word.length ∧ word.length ≤ length + 4
  length_pos : 1 ≤ word.length

theorem IsBranchedWord.count_eq {grower : Char} {word : List Char}
    (h : IsBranchedWord grower word) : word.count '[' = word.count ']' := by
  have hclosed := h.balanced.closed
  unfold depth at hclosed
  omega

theorem IsDrawn.isNestedWord {grower : Char} {length : Nat} {word drawn : List Char}
    (hgrower : ¬IsBracket grower) (hdrawn : IsDrawn grower 0 length drawn)
    (hword : word = drawn ∨ word = drawn ++ [grower]) (hmem : grower ∈ word) :
    IsNestedWord grower length word := by
  have hbranched := hdrawn.isBranchedWord hgrower hword
  obtain ⟨hlower, hupper⟩ := hdrawn.length_mem (Nat.zero_le _)
  unfold maxDepth at hupper
  have hdepth : ∀ front, front <+: drawn → depth front ≤ 3 := by
    intro front hfront
    have hle := hdrawn.depth_le hgrower (Nat.zero_le _) front hfront
    rwa [Nat.cast_zero, zero_add] at hle
  refine ⟨fun front hfront => ⟨?_, ?_⟩, hbranched.count_eq, hmem, fun c hc => ?_, ?_,
    List.length_pos_of_mem hmem⟩
  · have hnonneg := hbranched.balanced.nonneg front hfront
    rwa [zero_add] at hnonneg
  · rcases hword with rfl | rfl
    · exact hdepth front hfront
    · -- a prefix that is none of what was drawn is the whole word, which is balanced
      rcases List.prefix_concat_iff.1 hfront with rfl | hfront
      · have hclosed := hbranched.balanced.closed
        omega
      · exact hdepth front hfront
  · have hsymbol := hbranched.symbols c hc
    unfold wordSymbols at hsymbol
    simp only [List.mem_cons, List.not_mem_nil, or_false] at hsymbol ⊢
    tauto
  · rcases hword with rfl | rfl
    · omega
    · rw [List.length_append, List.length_singleton]
      omega

/-- Whatever is drawn and whatever the probability of brackets: at most three brackets are open at a
time, all are closed in the end, the growing symbol occurs, and the word is at most four symbols
longer than what was asked for. -/
theorem balancedWord_isNested (branch : Float) {grower : Char} (hgrower : ¬IsBracket grower)
    (length : Nat) (source : σ) :
    IsNestedWord grower length ((balancedWord branch grower length).run source).1 := by
  obtain ⟨hmem, drawn, hdrawn, hword⟩ := always_exists_isDrawn branch grower length source
  exact hdrawn.isNestedWord hgrower hword hmem

/-- Where only small numbers are drawn, all three brackets are opened and the growing symbol comes
last, so that no word can be longer. -/
theorem balancedWord_isNested_deepest :
    let source : Replay := { draws := #[0.1] }
    ¬IsBracket 'X' ∧ ((balancedWord 0.2 'X' 3).run source).1 = "[[[]]]X".toList ∧
      IsNestedWord 'X' 3 ((balancedWord 0.2 'X' 3).run source).1 :=
  ⟨by decide, by decide +kernel, balancedWord_isNested 0.2 (by decide) 3 _⟩

end Lindenmayer.RandomGrammar
