import Lindenmayer.Production.Basic
import Lindenmayer.Proofs.Expr.Evaluation

/-!
# What a production binds

A production that fits a site binds each of its formal parameters there, because the elements of
the site have as many parameters as their patterns. If all its variables are formal parameters, it
therefore neither fails to decide whether it applies nor fails to replace the element.
-/

namespace Lindenmayer.Production

/-- Every variable of the production is one of its formal parameters. -/
def Bound (p : Production) : Prop :=
  ∀ name ∈ p.vars, name ∈ p.formals

/-- Validation accepts exactly the productions whose variables are all bound. -/
theorem validate_eq_ok {p : Production} : p.validate = .ok () ↔ p.Bound := by
  have hnil : p.unboundVariables = [] ↔ p.Bound := by
    rw [unboundVariables, sortedNames_eq_nil, List.filter_eq_nil_iff]
    simp only [decide_eq_true_eq, Decidable.not_not]
    rfl
  rw [← hnil, validate]
  split
  · rename_i h
    exact ⟨fun _ => h, fun _ => rfl⟩
  · rename_i h
    exact ⟨nofun, fun hempty => absurd hempty h⟩

/-! ## Names at a site -/

/-- Compatible elements have as many parameters. -/
theorem arity_eq_of_compatible {α β : Type} {e : Element α} {f : Element β}
    (h : e.compatible f) : e.params.values.length = f.params.values.length := by
  rw [Element.compatible, Bool.and_eq_true, beq_iff_eq, beq_iff_eq] at h
  exact h.2

/-- What a pattern binds at an element; nothing if either is missing. -/
def bindings (pattern : Option (Element String)) (actual : Option (Element Float)) : Context :=
  match pattern, actual with
  | some f, some a => f.params.values.zip a.params.values
  | _, _ => []

/-- The bindings at a site are those of the three patterns, one after another. -/
theorem context_eq (p : Production) (site : Site (Element Float)) :
    p.context site = bindings p.left site.previous ++ bindings p.predecessor site.item ++
      bindings p.right site.following :=
  rfl

/-- An element binds the parameters of its pattern. -/
theorem names_bindings {f : Element String} {a : Element Float} (h : f.compatible a) :
    (bindings f a).names = f.params.values :=
  List.map_fst_zip (Nat.le_of_eq (arity_eq_of_compatible h))

theorem names_bindings_of_contextFits {pattern : Option (Element String)}
    {neighbour : Option (Element Float)} (h : contextFits pattern neighbour) :
    (bindings pattern neighbour).names = (pattern.map (·.params.values)).getD [] := by
  cases pattern with
  | none => rfl
  | some f =>
    cases neighbour with
    | none => exact absurd h (by simp [contextFits])
    | some a => exact names_bindings h

@[simp]
theorem names_append (left right : Context) :
    Context.names (left ++ right) = left.names ++ right.names :=
  List.map_append

/-- Where a production fits, its formal parameters are the bound names, in their order. -/
theorem names_context {p : Production} {site : Site (Element Float)} (h : p.fits site) :
    (p.context site).names = p.formals := by
  rw [fits, Bool.and_eq_true, Bool.and_eq_true] at h
  obtain ⟨⟨hitem, hleft⟩, hright⟩ := h
  rw [context_eq, names_append, names_append, names_bindings_of_contextFits hleft,
    names_bindings hitem, names_bindings_of_contextFits hright]
  rfl

/-! ## Productions whose variables are bound -/

variable {p : Production} {site : Site (Element Float)}

/-- The variables of a condition are formal parameters. -/
theorem Bound.mem_condition (h : p.Bound) {condition : Expr}
    (hcondition : p.condition = some condition)
    {name : String} (hname : name ∈ condition.vars) : name ∈ p.formals := by
  apply h
  rw [vars, hcondition]
  exact List.mem_append_left _ hname

/-- So are those of a successor. -/
theorem Bound.mem_successor (h : p.Bound) {e : Element Expr} (he : e ∈ p.successor) {param : Expr}
    (hparam : param ∈ e.params.values) {name : String} (hname : name ∈ param.vars) :
    name ∈ p.formals := by
  apply h
  rw [vars]
  apply List.mem_append_right
  exact List.mem_flatMap.2 ⟨e, he, List.mem_flatMap.2 ⟨param, hparam, hname⟩⟩

/-- Whether the production applies is always decided. -/
theorem Bound.exists_applies (h : p.Bound) (site : Site (Element Float)) :
    ∃ b, p.applies site = .ok b := by
  unfold applies
  split
  · rename_i hfits
    split
    · exact ⟨true, rfl⟩
    · rename_i condition hcondition
      refine Expr.exists_holds fun name hname => ?_
      rw [names_context hfits]
      exact h.mem_condition hcondition hname
  · exact ⟨false, rfl⟩

/-- A production that applies somewhere fits there. -/
theorem fits_of_applies (h : p.applies site = .ok true) : p.fits site := by
  unfold applies at h
  split at h
  · rename_i hfits
    exact hfits
  · exact absurd h (by simp)

theorem exists_traverse {α β : Type} {f : α → Except Error β} {params : Params α}
    (h : ∀ v ∈ params.values, ∃ r, f v = .ok r) : ∃ results, params.traverse f = .ok results := by
  obtain ⟨rs, hrs⟩ := exists_mapM h
  unfold Params.traverse
  split
  · exact ⟨_, rfl⟩
  · rename_i herror
    rw [hrs] at herror
    exact absurd herror nofun

/-- Where the production fits, it replaces the element. -/
theorem Bound.exists_replace (h : p.Bound) (hfits : p.fits site) :
    ∃ word, p.replace site = .ok word := by
  refine exists_mapM fun e he => ?_
  have hparams : ∀ param ∈ e.params.values, ∃ x, param.evaluate (p.context site) = .ok x := by
    intro param hparam
    refine Expr.exists_evaluate fun name hname => ?_
    rw [names_context hfits]
    exact h.mem_successor he hparam hname
  obtain ⟨params, hresult⟩ := exists_traverse hparams
  exact ⟨⟨e.symbol, params⟩, by rw [hresult]; rfl⟩

end Lindenmayer.Production
