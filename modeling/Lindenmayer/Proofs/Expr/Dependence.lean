import Lindenmayer.Proofs.Expr.Evaluation

/-!
# What the value of a formula depends on

Of a context only the first bindings of the variables of a formula count, and all of them are needed:
no operator leaves an operand out, whatever the value of the other one.
-/

namespace Lindenmayer

variable {context other : Context} {e : Expr}

/-- Contexts in which every variable of a formula has the same first binding, or none in either, give
the formula the same value. -/
theorem Expr.evaluate_congr (h : ∀ name ∈ e.vars, context.lookup name = other.lookup name) :
    e.evaluate context = e.evaluate other := by
  induction e with
  | number value => rfl
  | var name =>
    have hname := h name List.mem_cons_self
    rw [evaluate, evaluate, Context.value, Context.value, hname]
  | binary op left right ihₗ ihᵣ =>
    have hleft := ihₗ fun name hname => h name (List.mem_append_left _ hname)
    have hright := ihᵣ fun name hname => h name (List.mem_append_right _ hname)
    rw [evaluate, evaluate, hleft, hright]

/-- What is reported stands in the formula, is not bound, and is preceded by bound variables only. -/
theorem Expr.firstUnbound_eq_some {name : String} :
    e.firstUnbound context = some name ↔
      ∃ before after, e.vars = before ++ name :: after ∧ name ∉ context.names ∧
        ∀ bound ∈ before, bound ∈ context.names := by
  rw [firstUnbound, List.find?_eq_some_iff_append]
  simp only [decide_eq_true_eq, Bool.not_eq_true', decide_eq_false_iff_not, Decidable.not_not]
  constructor
  · rintro ⟨hunbound, before, after, hvars, hbound⟩
    exact ⟨before, after, hvars, hunbound, hbound⟩
  · rintro ⟨before, after, hvars, hunbound, hbound⟩
    exact ⟨hunbound, before, after, hvars, hbound⟩

/-- Some variable of a formula is reported just if some variable is unbound. -/
theorem Expr.exists_firstUnbound :
    (∃ name, e.firstUnbound context = some name) ↔ ∃ name ∈ e.vars, name ∉ context.names := by
  rw [← Option.ne_none_iff_exists', ne_eq, firstUnbound_eq_none]
  simp only [Classical.not_forall, exists_prop]

/-! ## The order of bindings -/

/-- Where no name is bound twice, a name has the value of its only binding. -/
theorem Context.lookup_eq_some {name : String} {x : Float} (hnodup : context.names.Nodup) :
    context.lookup name = some x ↔ (name, x) ∈ context := by
  rw [List.lookup_eq_some_iff]
  constructor
  · rintro ⟨before, after, rfl, -⟩
    exact List.mem_append_right _ List.mem_cons_self
  · intro hmem
    obtain ⟨before, after, rfl⟩ := List.append_of_mem hmem
    refine ⟨before, after, rfl, fun binding hbinding => bne_iff_ne.2 ?_⟩
    rintro rfl
    rw [names, List.map_append, List.nodup_append] at hnodup
    exact hnodup.2.2 _ (List.mem_map_of_mem hbinding) _ List.mem_cons_self rfl

theorem Context.lookup_of_perm (hperm : context.Perm other) (hnodup : other.names.Nodup)
    (name : String) : context.lookup name = other.lookup name := by
  have hnodup' : context.names.Nodup := (hperm.map Prod.fst).nodup_iff.2 hnodup
  ext x
  rw [lookup_eq_some hnodup', lookup_eq_some hnodup, hperm.mem_iff]

/-- Where no name is bound twice, the order of the bindings does not matter. -/
theorem Expr.evaluate_of_perm (hperm : context.Perm other) (hnodup : other.names.Nodup) :
    evaluate context = evaluate other :=
  funext fun _ => evaluate_congr fun name _ => Context.lookup_of_perm hperm hnodup name

/-! ## The bindings that count -/

/-- The value of a formula depends on the first bindings of its variables and on nothing else, and it
needs all of them: a formula fails just if a variable is unbound, and the leftmost one is named. -/
theorem Expr.evaluate_depends_on_vars (e : Expr) :
    (∀ context : Context,
      ((∃ name, e.evaluate context = .error (.unbound name)) ↔
        ∃ name ∈ e.vars, name ∉ context.names) ∧
      ∀ error, e.evaluate context = .error error →
        ∃ before name after, e.vars = before ++ name :: after ∧ error = .unbound name ∧
          name ∉ context.names ∧ ∀ bound ∈ before, bound ∈ context.names) ∧
    ∀ context other : Context,
      (∀ name ∈ e.vars, context.lookup name = other.lookup name) →
        e.evaluate context = e.evaluate other ∧ e.holds context = e.holds other := by
  refine ⟨fun context => ⟨?_, fun error herror => ?_⟩, fun context other hsame => ?_⟩
  · rw [← exists_firstUnbound]
    constructor
    · rintro ⟨name, hname⟩
      obtain ⟨first, hfirst, -⟩ := evaluate_eq_error.1 hname
      exact ⟨first, hfirst⟩
    · rintro ⟨name, hfirst⟩
      exact ⟨name, evaluate_of_firstUnbound hfirst⟩
  · obtain ⟨name, hfirst, rfl⟩ := evaluate_eq_error.1 herror
    obtain ⟨before, after, hvars, hunbound, hbound⟩ := firstUnbound_eq_some.1 hfirst
    exact ⟨before, name, after, hvars, rfl, hunbound, hbound⟩
  · have hvalue := evaluate_congr hsame
    exact ⟨hvalue, by rw [holds, holds, hvalue]⟩

/-- The left operand of `x || y` is true, and still the unbound `y` is reported. With both bound,
later bindings and those of other names do not count. -/
theorem Expr.evaluate_depends_on_vars_or :
    let e : Expr := .binary .or (.var "x") (.var "y")
    let first : Context := [("x", 1.0), ("x", 2.0), ("y", 0.0)]
    let second : Context := [("z", 3.0), ("y", 0.0), ("x", 1.0)]
    (e.evaluate [("x", 1.0)] = .error (.unbound "y") ∧
      ∃ before name after, e.vars = before ++ name :: after ∧ Error.unbound "y" = .unbound name ∧
        name ∉ Context.names [("x", 1.0)] ∧
        ∀ bound ∈ before, bound ∈ Context.names [("x", 1.0)]) ∧
    (∀ name ∈ e.vars, first.lookup name = second.lookup name) ∧
      e.evaluate first = e.evaluate second ∧ e.holds first = e.holds second := by
  intro e first second
  have hfails : e.evaluate [("x", 1.0)] = .error (.unbound "y") := by rfl
  have hsame : ∀ name ∈ e.vars, first.lookup name = second.lookup name := by
    have hvars : e.vars = ["x", "y"] := rfl
    rw [hvars]
    exact List.forall_mem_cons.2 ⟨rfl, List.forall_mem_singleton.2 rfl⟩
  exact ⟨⟨hfails, ((evaluate_depends_on_vars e).1 _).2 _ hfails⟩, hsame,
    (evaluate_depends_on_vars e).2 _ _ hsame⟩

end Lindenmayer
