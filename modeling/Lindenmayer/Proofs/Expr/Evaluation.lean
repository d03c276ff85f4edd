import Lindenmayer.Expr.Basic
import Lindenmayer.Proofs.Outcome

/-!
# When formulas have values

Nothing but a variable without a value keeps a formula from having one, and the names of a formula
that are reported as unbound are in order and without repetition.
-/

namespace Lindenmayer

/-- The names that a context binds. -/
def Context.names (context : Context) : List String :=
  context.map Prod.fst

theorem Context.exists_value {context : Context} {name : String} (h : name ∈ context.names) :
    ∃ x, context.value name = .ok x := by
  unfold Context.value
  induction context with
  | nil => exact absurd h List.not_mem_nil
  | cons binding context ih =>
    obtain ⟨bound, x⟩ := binding
    rw [List.lookup_cons]
    cases hname : name == bound with
    | true => exact ⟨x, rfl⟩
    | false =>
      refine ih ((List.mem_cons.1 h).resolve_left fun heq => ?_)
      rw [show name = bound from heq, beq_self_eq_true] at hname
      exact absurd hname (by simp)

theorem Context.value_of_not_mem {context : Context} {name : String}
    (h : name ∉ context.names) : context.value name = .error (.unbound name) := by
  have hnone : context.lookup name = none := by
    refine List.lookup_eq_none_iff.2 fun binding hbinding => ?_
    rw [bne_iff_ne]
    rintro rfl
    exact h (List.mem_map_of_mem hbinding)
  rw [Context.value, hnone]

/-- A formula whose variables are bound has a value. -/
theorem Expr.exists_evaluate {context : Context} {e : Expr}
    (h : ∀ name ∈ e.vars, name ∈ context.names) : ∃ x, e.evaluate context = .ok x := by
  induction e with
  | number value => exact ⟨value, rfl⟩
  | var name => exact Context.exists_value (h name List.mem_cons_self)
  | binary op left right ihₗ ihᵣ =>
    obtain ⟨a, ha⟩ := ihₗ fun name hname => h name (List.mem_append_left _ hname)
    obtain ⟨b, hb⟩ := ihᵣ fun name hname => h name (List.mem_append_right _ hname)
    refine ⟨op.apply a b, ?_⟩
    rw [Expr.evaluate, ha, hb]
    rfl

theorem Expr.exists_holds {context : Context} {e : Expr}
    (h : ∀ name ∈ e.vars, name ∈ context.names) : ∃ b, e.holds context = .ok b := by
  obtain ⟨x, hx⟩ := Expr.exists_evaluate h
  exact ⟨Op.toBool x, by rw [Expr.holds, hx]; rfl⟩

/-! ## Formulas without a value -/

/-- The leftmost variable of a formula that a context does not bind. -/
def Expr.firstUnbound (context : Context) (e : Expr) : Option String :=
  e.vars.find? (· ∉ context.names)

theorem Expr.firstUnbound_eq_none {context : Context} {e : Expr} :
    e.firstUnbound context = none ↔ ∀ name ∈ e.vars, name ∈ context.names := by
  simp [firstUnbound]

/-- The leftmost unbound variable is the one that is reported. -/
theorem Expr.evaluate_of_firstUnbound {context : Context} {e : Expr} {name : String}
    (h : e.firstUnbound context = some name) : e.evaluate context = .error (.unbound name) := by
  induction e with
  | number value => exact absurd h nofun
  | var other =>
    have hunbound := List.find?_some h
    obtain rfl : name = other := List.mem_singleton.1 (List.mem_of_find?_eq_some h)
    exact Context.value_of_not_mem (of_decide_eq_true hunbound)
  | binary op left right ihₗ ihᵣ =>
    have hsplit : (left.firstUnbound context).or (right.firstUnbound context) = some name :=
      List.find?_append.symm.trans h
    rw [evaluate, bind_eq_error]
    -- the right operand is evaluated only if the left one has a value
    cases hleft : left.firstUnbound context with
    | some other =>
      rw [hleft] at hsplit
      exact .inl (ihₗ (hleft.trans hsplit))
    | none =>
      rw [hleft, Option.none_or] at hsplit
      obtain ⟨a, ha⟩ := exists_evaluate (firstUnbound_eq_none.1 hleft)
      exact .inr ⟨a, ha, bind_eq_error.2 (.inl (ihᵣ hsplit))⟩

/-- A formula has no value just if a variable is unbound. -/
theorem Expr.evaluate_eq_error {context : Context} {e : Expr} {error : Error} :
    e.evaluate context = .error error ↔
      ∃ name, e.firstUnbound context = some name ∧ error = .unbound name := by
  constructor
  · intro h
    cases hfirst : e.firstUnbound context with
    | none =>
      obtain ⟨x, hx⟩ := exists_evaluate (firstUnbound_eq_none.1 hfirst)
      exact absurd (h.symm.trans hx) nofun
    | some name =>
      exact ⟨name, rfl, Except.error.inj (h.symm.trans (evaluate_of_firstUnbound hfirst))⟩
  · rintro ⟨name, hfirst, rfl⟩
    exact evaluate_of_firstUnbound hfirst

/-- A formula that has a value binds all its variables. -/
theorem Expr.mem_names_of_evaluate {context : Context} {e : Expr} {x : Float}
    (h : e.evaluate context = .ok x) : ∀ name ∈ e.vars, name ∈ context.names := by
  rw [← firstUnbound_eq_none]
  cases hfirst : e.firstUnbound context with
  | none => rfl
  | some name => exact absurd (h.symm.trans (evaluate_of_firstUnbound hfirst)) nofun

/-! ## Names in order -/

/-- No name is lost when names are put in order. -/
@[simp]
theorem mem_sortedNames {name : String} {names : List String} :
    name ∈ sortedNames names ↔ name ∈ names := by
  rw [sortedNames, List.mem_mergeSort, List.mem_eraseDups]

@[simp]
theorem sortedNames_eq_nil {names : List String} : sortedNames names = [] ↔ names = [] := by
  rw [List.eq_nil_iff_forall_not_mem, List.eq_nil_iff_forall_not_mem]
  simp only [mem_sortedNames]

end Lindenmayer
