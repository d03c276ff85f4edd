import Lindenmayer.Proofs.Production.Binding

/-!
# What validation promises

Validation looks at names only, whereas an unbound variable is met when a condition or a successor is
evaluated at a site. Wherever a production fits, its formal parameters are the bound names, so the
two agree: a validated production never meets an unbound variable, and one that is refused meets one
wherever it fits.
-/

namespace Lindenmayer

variable {α : Type}

/-- The answer is that a variable is unbound. -/
def IsUnbound (answer : Except Error α) : Prop :=
  ∃ e, answer = .error e ∧ e.kind = .unbound

theorem not_isUnbound_ok (a : α) : ¬IsUnbound (.ok a) := fun ⟨_, h, _⟩ => absurd h nofun

namespace Production

variable {p : Production} {site : Site (Element Float)}

/-! ## Which faults there are -/

theorem kind_of_evaluate {context : Context} {e : Expr} {error : Error}
    (h : e.evaluate context = .error error) : error.kind = .unbound := by
  obtain ⟨name, -, rfl⟩ := Expr.evaluate_eq_error.1 h
  rfl

/-- Whether a production applies is decided, unless a variable of its condition is unbound. -/
theorem applies_ok_or_isUnbound (p : Production) (site : Site (Element Float)) :
    (∃ b, p.applies site = .ok b) ∨ IsUnbound (p.applies site) := by
  cases h : p.applies site with
  | ok b => exact .inl ⟨b, rfl⟩
  | error e =>
    refine .inr ⟨e, rfl, ?_⟩
    unfold applies at h
    split at h
    · split at h
      · exact absurd h nofun
      · exact kind_of_evaluate (map_eq_error.1 h)
    · exact absurd h nofun

/-- The values of traversed parameters are the results one after another. -/
theorem map_values_traverse {ε β γ : Type} (f : β → Except ε γ) (params : Params β) :
    (params.traverse f).map Params.values = params.values.mapM f := by
  unfold Params.traverse
  split
  · exact Eq.symm ‹_›
  · exact Eq.symm ‹_›

/-- The element is replaced, unless a variable of the successor is unbound. -/
theorem replace_ok_or_isUnbound (p : Production) (site : Site (Element Float)) :
    (∃ word, p.replace site = .ok word) ∨ IsUnbound (p.replace site) := by
  cases h : p.replace site with
  | ok word => exact .inl ⟨word, rfl⟩
  | error e =>
    refine .inr ⟨e, rfl, ?_⟩
    obtain ⟨element, -, helement⟩ := exists_error_of_mapM h
    rcases bind_eq_error.1 helement with hparams | ⟨params, -, hbuilt⟩
    · have hvalues := map_values_traverse (Expr.evaluate (p.context site)) element.params
      rw [map_eq_error.2 hparams] at hvalues
      obtain ⟨param, -, hparam⟩ := exists_error_of_mapM hvalues.symm
      exact kind_of_evaluate hparam
    · exact absurd hbuilt nofun

/-! ## Sites that a production fits -/

/-- An element with the symbol and the number of parameters of a pattern. -/
def sample (pattern : Element String) : Element Float :=
  ⟨pattern.symbol, ⟨pattern.params.values.map fun _ => 0.0, by
    rw [List.length_map]
    exact pattern.params.length_le⟩⟩

theorem compatible_sample (pattern : Element String) : pattern.compatible (sample pattern) := by
  simp [Element.compatible, sample, Element.arity, Params.arity]

theorem contextFits_sample (pattern : Option (Element String)) :
    contextFits pattern (pattern.map sample) := by
  cases pattern with
  | none => rfl
  | some e => exact compatible_sample e

theorem exists_fits (p : Production) : ∃ site, p.fits site := by
  refine ⟨⟨p.left.map sample, sample p.predecessor, p.right.map sample⟩, ?_⟩
  rw [fits, Bool.and_eq_true, Bool.and_eq_true]
  exact ⟨⟨compatible_sample p.predecessor, contextFits_sample p.left⟩, contextFits_sample p.right⟩

/-- A production that is evaluated without fault where it fits has all its variables bound. -/
theorem bound_of_evaluated (hfits : p.fits site) {b : Bool} (happlies : p.applies site = .ok b)
    {word : Word} (hreplace : p.replace site = .ok word) : p.Bound := by
  intro name hname
  rw [← names_context hfits]
  rw [vars, List.mem_append] at hname
  rcases hname with hname | hname
  · -- a variable of the condition, which was evaluated
    cases hcondition : p.condition with
    | none =>
      rw [hcondition] at hname
      exact absurd hname List.not_mem_nil
    | some condition =>
      rw [hcondition] at hname
      rw [applies, if_pos hfits, hcondition] at happlies
      obtain ⟨x, hx, -⟩ := map_eq_ok.1 happlies
      exact Expr.mem_names_of_evaluate hx name hname
  · -- a variable of the successor
    obtain ⟨e, he, hname⟩ := List.mem_flatMap.1 hname
    obtain ⟨param, hparam, hname⟩ := List.mem_flatMap.1 hname
    obtain ⟨element, helement⟩ := exists_of_mapM hreplace e he
    obtain ⟨params, hparams, -⟩ := bind_eq_ok.1 helement
    have hvalues := map_values_traverse (Expr.evaluate (p.context site)) e.params
    rw [map_eq_ok.2 ⟨params, hparams, rfl⟩] at hvalues
    obtain ⟨x, hx⟩ := exists_of_mapM hvalues.symm param hparam
    exact Expr.mem_names_of_evaluate hx name hname

theorem isUnbound_of_not_bound (hbound : ¬p.Bound) (hfits : p.fits site) :
    IsUnbound (p.applies site) ∨ IsUnbound (p.replace site) := by
  rcases applies_ok_or_isUnbound p site with ⟨b, happlies⟩ | hunbound
  · rcases replace_ok_or_isUnbound p site with ⟨word, hreplace⟩ | hunbound
    · exact absurd (bound_of_evaluated hfits happlies hreplace) hbound
    · exact .inr hunbound
  · exact .inl hunbound

/-- A production passes validation just if it meets no unbound variable at any of the sites that it
fits, of which there are some; if it does not pass, it meets one at each of them. -/
theorem validate_iff_never_unbound (p : Production) :
    (∃ site, p.fits site) ∧
      (p.validate = .ok () ↔
        ∀ site, p.fits site → ¬IsUnbound (p.applies site) ∧ ¬IsUnbound (p.replace site)) ∧
      ∀ e, p.validate = .error e →
        ∀ site, p.fits site → IsUnbound (p.applies site) ∨ IsUnbound (p.replace site) := by
  refine ⟨exists_fits p, ⟨fun hvalid site hfits => ?_, fun hnever => ?_⟩, fun e herror site => ?_⟩
  · have hbound := validate_eq_ok.1 hvalid
    obtain ⟨b, happlies⟩ := hbound.exists_applies site
    obtain ⟨word, hreplace⟩ := hbound.exists_replace hfits
    rw [happlies, hreplace]
    exact ⟨not_isUnbound_ok b, not_isUnbound_ok word⟩
  · refine validate_eq_ok.2 (Classical.byContradiction fun hbound => ?_)
    obtain ⟨site, hfits⟩ := exists_fits p
    obtain ⟨happlies, hreplace⟩ := hnever site hfits
    exact (isUnbound_of_not_bound hbound hfits).elim happlies hreplace
  · refine isUnbound_of_not_bound fun hbound => ?_
    rw [validate_eq_ok.2 hbound] at herror
    exact absurd herror nofun

/-- The production `A(l) : l > 0 = B(w)`, whose condition is bound and whose successor is not. -/
def stray : Production where
  predecessor := ⟨'A', ⟨["l"], by decide⟩⟩
  condition := some (.binary .gt (.var "l") (.number 0.0))
  successor := [⟨'B', ⟨[.var "w"], by decide⟩⟩]
  wellFormed := ⟨by decide, by decide, by decide, by decide⟩

/-- At `A(1)` it applies, and then it fails. -/
theorem validate_iff_never_unbound_stray :
    let site : Site (Element Float) := ⟨none, ⟨'A', ⟨[1.0], by decide⟩⟩, none⟩
    stray.validate = .error (.unboundIn stray.text ["w"]) ∧ stray.fits site ∧
      stray.applies site = .ok true ∧ IsUnbound (stray.replace site) := by
  have hnames : stray.unboundVariables = ["w"] := by decide +kernel
  have hvalidate : stray.validate = .error (.unboundIn stray.text ["w"]) := by
    rw [validate, hnames]
  have happlies : stray.applies ⟨none, ⟨'A', ⟨[1.0], by decide⟩⟩, none⟩ = .ok true := by rfl
  have hfails := (validate_iff_never_unbound stray).2.2 _ hvalidate
    ⟨none, ⟨'A', ⟨[1.0], by decide⟩⟩, none⟩ (by rfl)
  rw [happlies] at hfails
  exact ⟨hvalidate, by rfl, happlies, hfails.resolve_left (not_isUnbound_ok true)⟩

end Production

end Lindenmayer
