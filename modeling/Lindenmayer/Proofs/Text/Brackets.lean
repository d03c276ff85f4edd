import Mathlib.Data.List.Infix
import Mathlib.Data.List.Forall2
import Mathlib.Algebra.Order.Ring.Int

/-!
# Balanced brackets

Square brackets enclose branches. A list of symbols closes what is open if, read from left to right,
no bracket is closed that has not been opened, and in the end none is left open. This is kept when a
symbol other than a bracket gives way to symbols that are balanced among themselves.
-/

namespace Lindenmayer.Text

/-- How many more brackets are opened than closed. -/
def depth (symbols : List Char) : Int :=
  symbols.count '[' - symbols.count ']'

@[simp]
theorem depth_nil : depth [] = 0 :=
  rfl

/-- Depths add up. -/
@[simp]
theorem depth_append (first second : List Char) :
    depth (first ++ second) = depth first + depth second := by
  unfold depth
  rw [List.count_append, List.count_append]
  omega

theorem depth_cons (c : Char) (rest : List Char) : depth (c :: rest) = depth [c] + depth rest :=
  depth_append [c] rest

/-- Whether a symbol opens or closes a branch. -/
def IsBracket (c : Char) : Prop :=
  c = '[' ∨ c = ']'

instance (c : Char) : Decidable (IsBracket c) :=
  inferInstanceAs (Decidable (c = '[' ∨ c = ']'))

/-- Other symbols do not change the depth. -/
theorem depth_of_not_isBracket {c : Char} (h : ¬IsBracket c) : depth [c] = 0 := by
  obtain ⟨hopening, hclosing⟩ := not_or.1 h
  unfold depth
  rw [List.count_singleton, List.count_singleton]
  simp [hopening, hclosing]

/-- Where a number of brackets are open, all of them are closed in the end, and never more than have
been opened. -/
structure ClosesAll (opened : Int) (symbols : List Char) : Prop where
  nonneg : ∀ front, front <+: symbols → 0 ≤ opened + depth front
  closed : opened + depth symbols = 0

/-- Brackets are closed after they have been opened, and all of them are. -/
abbrev IsBalanced (symbols : List Char) : Prop :=
  ClosesAll 0 symbols

@[simp]
theorem closesAll_nil {opened : Int} : ClosesAll opened [] ↔ opened = 0 := by
  constructor
  · intro h
    simpa using h.closed
  · rintro rfl
    refine ⟨fun front hfront => ?_, rfl⟩
    rw [List.prefix_nil.1 hfront]
    exact le_rfl

theorem closesAll_cons {opened : Int} {c : Char} {rest : List Char} :
    ClosesAll opened (c :: rest) ↔ 0 ≤ opened ∧ ClosesAll (opened + depth [c]) rest := by
  constructor
  · intro h
    have hopened : 0 ≤ opened := by simpa using h.nonneg [] List.nil_prefix
    refine ⟨hopened, fun front hfront => ?_, ?_⟩
    · rw [add_assoc, ← depth_cons]
      exact h.nonneg (c :: front) (List.cons_prefix_cons.2 ⟨rfl, hfront⟩)
    · rw [add_assoc, ← depth_cons]
      exact h.closed
  · rintro ⟨hopened, hrest⟩
    refine ⟨fun front hfront => ?_, ?_⟩
    · rcases List.prefix_cons_iff.1 hfront with rfl | ⟨others, rfl, hothers⟩
      · simpa using hopened
      · rw [depth_cons, ← add_assoc]
        exact hrest.nonneg others hothers
    · rw [depth_cons, ← add_assoc]
      exact hrest.closed

/-- Brackets are checked from left to right. -/
def decideClosesAll : (opened : Int) → (symbols : List Char) → Decidable (ClosesAll opened symbols)
  | _, [] => decidable_of_iff _ closesAll_nil.symm
  | opened, c :: rest =>
    have := decideClosesAll (opened + depth [c]) rest
    decidable_of_iff _ closesAll_cons.symm

instance (opened : Int) (symbols : List Char) : Decidable (ClosesAll opened symbols) :=
  decideClosesAll opened symbols

example : IsBalanced "F[+F[-F]]F".toList := by decide

/-- A symbol other than a bracket makes no difference. -/
theorem closesAll_cons_of_not_isBracket {opened : Int} {c : Char} (h : ¬IsBracket c)
    {rest : List Char} (hopened : 0 ≤ opened) :
    ClosesAll opened (c :: rest) ↔ ClosesAll opened rest := by
  rw [closesAll_cons, depth_of_not_isBracket h, add_zero]
  exact and_iff_right hopened

/-- There are never more closing brackets than opening ones. -/
theorem ClosesAll.nonneg_opened {opened : Int} {symbols : List Char}
    (h : ClosesAll opened symbols) : 0 ≤ opened := by
  simpa using h.nonneg [] List.nil_prefix

/-- The brackets that are open are closed in two parts, the first of which closes some. -/
theorem ClosesAll.append {opened more : Int} {first second : List Char}
    (hfirst : ClosesAll opened first) (hsecond : ClosesAll more second) :
    ClosesAll (opened + more) (first ++ second) := by
  have hmore := hsecond.nonneg_opened
  induction first generalizing opened with
  | nil =>
    rw [closesAll_nil.1 hfirst, zero_add]
    exact hsecond
  | cons c rest ih =>
    obtain ⟨hopened, hrest⟩ := closesAll_cons.1 hfirst
    rw [List.cons_append, closesAll_cons, add_right_comm]
    exact ⟨add_nonneg hopened hmore, ih hrest⟩

/-- As many closing brackets close what is open. -/
theorem closesAll_replicate (n : Nat) : ClosesAll n (List.replicate n ']') := by
  induction n with
  | zero => simp
  | succ n ih =>
    have hclosing : depth [']'] = -1 := rfl
    rw [List.replicate_succ, closesAll_cons, hclosing, Nat.cast_succ, add_neg_cancel_right]
    exact ⟨by omega, ih⟩

/-- Without brackets everything is balanced. -/
theorem isBalanced_of_not_isBracket {symbols : List Char} (h : ∀ c ∈ symbols, ¬IsBracket c) :
    IsBalanced symbols := by
  induction symbols with
  | nil => simp
  | cons c rest ih =>
    obtain ⟨hc, hrest⟩ := List.forall_mem_cons.1 h
    rw [IsBalanced, closesAll_cons_of_not_isBracket hc le_rfl]
    exact ih hrest

/-! ## Branches -/

/-- A symbol stays, or it is no bracket and balanced symbols take its place. -/
def KeepsBranches (c : Char) (symbols : List Char) : Prop :=
  symbols = [c] ∨ ¬IsBracket c ∧ IsBalanced symbols

/-- Whatever is open, replacing symbols in this way closes it as they did, by induction on the
symbols. -/
theorem ClosesAll.flatten {opened : Int} {symbols : List Char} {words : List (List Char)}
    (hwords : List.Forall₂ KeepsBranches symbols words) (h : ClosesAll opened symbols) :
    ClosesAll opened words.flatten := by
  induction hwords generalizing opened with
  | nil => exact h
  | @cons c word rest words hword _ ih =>
    obtain ⟨hopened, hrest⟩ := closesAll_cons.1 h
    rw [List.flatten_cons]
    rcases hword with rfl | ⟨hc, hbalanced⟩
    -- a bracket can only stay, so what is open changes as before
    · exact closesAll_cons.2 ⟨hopened, ih hrest⟩
    · rw [depth_of_not_isBracket hc, add_zero] at hrest
      have happend := hbalanced.append (ih hrest)
      rwa [zero_add] at happend

end Lindenmayer.Text
