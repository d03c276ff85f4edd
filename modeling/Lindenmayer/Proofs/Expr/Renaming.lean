import Lindenmayer.Proofs.Expr.Dependence
import Lindenmayer.Production.Basic
import Mathlib.Logic.Equiv.Basic

/-!
# Renaming variables

A one-to-one renaming of the letters is applied to formulas and to the contexts in which they are
evaluated. The values stay the same, and where a variable is unbound its new name is reported.
-/

namespace Lindenmayer

/-! ## Names -/

/-- The ASCII letters. -/
abbrev Letter := { c : Char // c.isAlpha }

/-- A one-to-one renaming of the letters. -/
abbrev Renaming := Equiv.Perm Letter

namespace Renaming

/-- The new name for a name; only names of one letter are changed. -/
def name (σ : Renaming) (old : String) : String :=
  match old.toList with
  | [c] => if h : c.isAlpha then String.singleton (σ ⟨c, h⟩).val else old
  | _ => old

@[simp]
theorem name_singleton (σ : Renaming) (letter : Letter) :
    σ.name (String.singleton letter.val) = String.singleton (σ letter).val := by
  simp only [name, String.toList_singleton]
  rw [dif_pos letter.property]

/-- Names that are no letters stay as they are. -/
theorem name_of_not_isFormalName (σ : Renaming) {old : String} (h : ¬isFormalName old) :
    σ.name old = old := by
  unfold isFormalName at h
  unfold name
  split
  · rename_i c hc
    simp only [hc] at h
    rw [dif_neg h]
  · rfl

theorem exists_letter {old : String} (h : isFormalName old) :
    ∃ letter : Letter, old = String.singleton letter.val := by
  unfold isFormalName at h
  split at h
  · rename_i c hc
    refine ⟨⟨c, h⟩, ?_⟩
    rw [← String.toList_inj, hc, String.toList_singleton]
  · exact absurd h nofun

/-- A name of one letter stays one. -/
theorem isFormalName_name (σ : Renaming) {old : String} (h : isFormalName old) :
    isFormalName (σ.name old) := by
  obtain ⟨letter, rfl⟩ := exists_letter h
  rw [name_singleton, isFormalName, String.toList_singleton]
  exact (σ letter).property

/-- The inverse renaming gives the old name back. -/
theorem name_symm_name (σ : Renaming) (old : String) : name σ.symm (σ.name old) = old := by
  by_cases h : isFormalName old
  · obtain ⟨letter, rfl⟩ := exists_letter h
    rw [name_singleton, name_singleton, Equiv.symm_apply_apply]
  · rw [name_of_not_isFormalName σ h, name_of_not_isFormalName σ.symm h]

/-- Different names stay different. -/
theorem name_injective (σ : Renaming) : Function.Injective σ.name :=
  Function.LeftInverse.injective (name_symm_name σ)

end Renaming

/-! ## Answers -/

section
variable {α β : Type} (f : String → String)

/-- The answer in which the name of an unbound variable is changed. -/
def renameUnbound : Except Error α → Except Error α
  | .error (.unbound name) => .error (.unbound (f name))
  | answer => answer

/-- Two steps are renamed one after the other. -/
theorem renameUnbound_bind (x : Except Error α) (next : α → Except Error β) :
    renameUnbound f (x >>= next) = renameUnbound f x >>= fun a => renameUnbound f (next a) := by
  cases x with
  | ok a => rfl
  | error e => cases e <;> rfl

theorem renameUnbound_map (x : Except Error α) (g : α → β) :
    renameUnbound f (x.map g) = (renameUnbound f x).map g := by
  cases x with
  | ok a => rfl
  | error e => cases e <;> rfl

/-- Where all items are renamed alike, so is the list of their answers. -/
theorem mapM_map_renameUnbound {γ : Type} {answer : α → Except Error β} {rename : α → γ}
    {answer' : γ → Except Error β} (h : ∀ a, answer' (rename a) = renameUnbound f (answer a))
    (items : List α) : (items.map rename).mapM answer' = renameUnbound f (items.mapM answer) := by
  induction items with
  | nil => rfl
  | cons a items ih =>
    rw [List.map_cons, List.mapM_cons, List.mapM_cons, h a, ih, renameUnbound_bind]
    simp only [renameUnbound_bind]
    rfl

end

/-! ## Formulas -/

variable {f : String → String}

/-- The context with other names. -/
def Context.rename (f : String → String) (context : Context) : Context :=
  context.map (Prod.map f id)

/-- The formula with other variables. -/
def Expr.rename (f : String → String) : Expr → Expr
  | number value => number value
  | var name => var (f name)
  | binary op left right => binary op (left.rename f) (right.rename f)

/-- A renamed variable is found in the renamed context. -/
theorem Context.lookup_rename (hf : Function.Injective f) (context : Context) (name : String) :
    (context.rename f).lookup (f name) = context.lookup name := by
  induction context with
  | nil => rfl
  | cons binding context ih =>
    obtain ⟨bound, x⟩ := binding
    have hsame : (f name == f bound) = (name == bound) := by
      rw [Bool.eq_iff_iff, beq_iff_eq, beq_iff_eq, hf.eq_iff]
    show List.lookup (f name) ((f bound, x) :: Context.rename f context) = _
    rw [List.lookup_cons, List.lookup_cons, hsame, ih]

/-- It has the same value, or is unbound under its new name. -/
theorem Context.value_rename (hf : Function.Injective f) (context : Context) (name : String) :
    (context.rename f).value (f name) = renameUnbound f (context.value name) := by
  unfold value
  rw [lookup_rename hf]
  cases context.lookup name <;> rfl

/-- A renamed formula has the same value in the renamed context. -/
theorem Expr.evaluate_rename (hf : Function.Injective f) (context : Context) (e : Expr) :
    (e.rename f).evaluate (context.rename f) = renameUnbound f (e.evaluate context) := by
  induction e with
  | number value => rfl
  | var name => exact Context.value_rename hf context name
  | binary op left right ihₗ ihᵣ =>
    rw [rename, evaluate, evaluate, ihₗ, ihᵣ, renameUnbound_bind]
    simp only [renameUnbound_bind]
    rfl

/-- A renamed condition holds just if the old one did. -/
theorem Expr.holds_rename (hf : Function.Injective f) (context : Context) (e : Expr) :
    (e.rename f).holds (context.rename f) = renameUnbound f (e.holds context) := by
  rw [holds, holds, evaluate_rename hf, renameUnbound_map]

end Lindenmayer
