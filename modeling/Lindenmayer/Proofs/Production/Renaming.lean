import Lindenmayer.Proofs.Expr.Renaming
import Lindenmayer.Proofs.Production.Reader
import Lindenmayer.Proofs.Production.Validation

/-!
# Formal parameters as binders

The formal parameters of a production are distinct across its contexts and its predecessor, so each
of them has one place to take its value from. Which letters they are makes no difference: a
production whose letters are renamed, in its patterns and its formulas alike, applies at the same
sites and puts the same words there.
-/

namespace Lindenmayer

/-! ## Renamed productions -/

section
variable {α β γ : Type}

/-- The parameters with `f` applied to each of them. -/
def Params.map (f : α → β) (params : Params α) : Params β where
  values := params.values.map f
  length_le := by
    rw [List.length_map]
    exact params.length_le

/-- The element with `f` applied to each of its parameters. -/
def Element.map (f : α → β) (e : Element α) : Element β :=
  ⟨e.symbol, e.params.map f⟩

/-- Symbol and number of parameters stay the same. -/
theorem Element.compatible_map (f : α → β) (e : Element α) (other : Element γ) :
    (e.map f).compatible other = e.compatible other := by
  unfold compatible arity Params.arity map Params.map
  rw [List.length_map]

end

namespace Production

/-- The parts with other names. -/
def Parts.rename (f : String → String) (p : Parts) : Parts where
  predecessor := p.predecessor.map f
  successor := p.successor.map (·.map (Expr.rename f))
  condition := p.condition.map (Expr.rename f)
  probability := p.probability
  left := p.left.map (·.map f)
  right := p.right.map (·.map f)

theorem Parts.formals_rename (f : String → String) (p : Parts) :
    (p.rename f).formals = p.formals.map f := by
  have hnames (pattern : Option (Element String)) :
      ((pattern.map (·.map f)).map (·.params.values)).getD [] =
        ((pattern.map (·.params.values)).getD []).map f := by
    cases pattern <;> rfl
  unfold formals
  simp only [List.map_append]
  rw [← hnames p.left, ← hnames p.right]
  rfl

/-- The production with other letters. -/
def rename (σ : Renaming) (p : Production) : Production where
  toParts := p.toParts.rename σ.name
  wellFormed := {
    probability_nonneg := p.wellFormed.probability_nonneg
    probability_le_one := p.wellFormed.probability_le_one
    formals_letters := by
      rw [Parts.formals_rename]
      exact List.forall_mem_map.2 fun name hname =>
        σ.isFormalName_name (p.wellFormed.formals_letters name hname)
    formals_nodup := by
      rw [Parts.formals_rename]
      exact p.wellFormed.formals_nodup.map σ.name_injective }

/-! ## The two productions at a site -/

variable (σ : Renaming) (p : Production) (site : Site (Element Float))

theorem bindings_rename (f : String → String) (pattern : Option (Element String))
    (actual : Option (Element Float)) :
    bindings (pattern.map (·.map f)) actual = (bindings pattern actual).rename f := by
  cases pattern with
  | none => rfl
  | some e =>
    cases actual with
    | none => rfl
    | some a => exact List.zip_map_left

/-- The same values are bound to the new names. -/
theorem context_rename : (p.rename σ).context site = (p.context site).rename σ.name := by
  have hleft := bindings_rename σ.name p.left site.previous
  have hitem := bindings_rename σ.name (some p.predecessor) (some site.item)
  have hright := bindings_rename σ.name p.right site.following
  rw [context_eq, context_eq, Context.rename, List.map_append, List.map_append]
  exact congr (congrArg _ (congr (congrArg _ hleft) hitem)) hright

theorem contextFits_rename (f : String → String) (pattern : Option (Element String))
    (neighbour : Option (Element Float)) :
    contextFits (pattern.map (·.map f)) neighbour = contextFits pattern neighbour := by
  cases pattern with
  | none => rfl
  | some e =>
    cases neighbour with
    | none => rfl
    | some a => exact Element.compatible_map f e a

theorem fits_rename : (p.rename σ).fits site = p.fits site := by
  unfold fits
  rw [← contextFits_rename σ.name p.left, ← contextFits_rename σ.name p.right,
    ← Element.compatible_map σ.name p.predecessor]
  rfl

/-- The renamed production applies where the production does. -/
theorem applies_rename :
    (p.rename σ).applies site = renameUnbound σ.name (p.applies site) := by
  have hcondition : (p.rename σ).condition = p.condition.map (Expr.rename σ.name) := rfl
  unfold applies
  rw [fits_rename, context_rename, hcondition]
  split
  · cases p.condition with
    | none => rfl
    | some condition => exact Expr.holds_rename σ.name_injective _ condition
  · rfl

/-- Answers with the same values are the same parameters. -/
theorem map_values_injective {α ε : Type} :
    Function.Injective fun answer : Except ε (Params α) => answer.map Params.values := by
  rintro (e | ⟨values, hvalues⟩) (e' | ⟨values', hvalues'⟩) h
  · exact congrArg _ (Except.error.inj h)
  · exact absurd h nofun
  · exact absurd h nofun
  · obtain rfl : values = values' := Except.ok.inj h
    rfl

theorem traverse_rename {f : String → String} (hf : Function.Injective f) (context : Context)
    (params : Params Expr) :
    (params.map (Expr.rename f)).traverse (Expr.evaluate (context.rename f)) =
      renameUnbound f (params.traverse (Expr.evaluate context)) := by
  apply map_values_injective
  simp only [← renameUnbound_map, map_values_traverse]
  exact mapM_map_renameUnbound f (Expr.evaluate_rename hf context) params.values

/-- The renamed production puts the same word in the place of an element. -/
theorem replace_rename :
    (p.rename σ).replace site = renameUnbound σ.name (p.replace site) := by
  refine mapM_map_renameUnbound σ.name (fun e => ?_) p.successor
  rw [context_rename, renameUnbound_bind]
  show (e.params.map (Expr.rename σ.name)).traverse _ >>= _ = _
  rw [traverse_rename σ.name_injective]
  rfl

/-! ## What a formal parameter stands for -/

/-- In a context, the names of a pattern have the values of the parameters of an element, in their
order. -/
def Binds (context : Context) (pattern : Element String) (actual : Element Float) : Prop :=
  (pattern.params.values.map fun name => (Expr.var name).evaluate context) =
    actual.params.values.map .ok

theorem binds_of_subset {context : Context} {pattern : Element String} {actual : Element Float}
    (hnodup : context.names.Nodup) (hcompatible : pattern.compatible actual)
    (hsubset : bindings pattern actual ⊆ context) : Binds context pattern actual := by
  have hlength := arity_eq_of_compatible hcompatible
  have hnames : (bindings pattern actual).map Prod.fst = pattern.params.values :=
    names_bindings hcompatible
  have hvalues : (bindings pattern actual).map Prod.snd = actual.params.values :=
    List.map_snd_zip (Nat.le_of_eq hlength.symm)
  rw [Binds, ← hnames, ← hvalues, List.map_map, List.map_map]
  refine List.map_congr_left fun binding hbinding => ?_
  have hlookup := (Context.lookup_eq_some hnodup).2 (hsubset hbinding)
  show Context.value context binding.1 = .ok binding.2
  rw [Context.value, hlookup]

variable {p site}

theorem nodup_names_context (h : p.fits site) : (p.context site).names.Nodup := by
  rw [names_context h]
  exact p.wellFormed.formals_nodup

/-- Where a production fits, the names of a context pattern stand for the parameters of the
neighbour that it fits. -/
theorem exists_binds_of_contextFits {context : Context} {pattern : Option (Element String)}
    {neighbour : Option (Element Float)} (hnodup : context.names.Nodup)
    (hfits : contextFits pattern neighbour) (hsubset : bindings pattern neighbour ⊆ context) :
    ∀ e ∈ pattern, ∃ actual ∈ neighbour, Binds context e actual := by
  rintro e rfl
  cases neighbour with
  | none => exact absurd hfits (by simp [contextFits])
  | some actual => exact ⟨actual, rfl, binds_of_subset hnodup hfits hsubset⟩

/-- The letters of a production are binders. Renamed one to one, it is accepted and gives the same
answers at every site. Where it fits, the names of each pattern have the values of the parameters
at their places, and the order in which they are bound does not matter. -/
theorem letters_are_binders (σ : Renaming) (p : Production) :
    ofParts (p.toParts.rename σ.name) = .ok (p.rename σ) ∧
      ∀ site,
        (p.rename σ).applies site = renameUnbound σ.name (p.applies site) ∧
        (p.rename σ).replace site = renameUnbound σ.name (p.replace site) ∧
        (p.fits site →
          (∀ pattern ∈ p.left, ∃ actual ∈ site.previous,
            Binds (p.context site) pattern actual) ∧
          Binds (p.context site) p.predecessor site.item ∧
          (∀ pattern ∈ p.right, ∃ actual ∈ site.following,
            Binds (p.context site) pattern actual) ∧
          ∀ bindings, bindings.Perm (p.context site) →
            Expr.evaluate bindings = Expr.evaluate (p.context site) ∧
            Expr.holds bindings = Expr.holds (p.context site)) := by
  refine ⟨ofParts_toParts (p.rename σ), fun site => ⟨applies_rename σ p site,
    replace_rename σ p site, fun hfits => ?_⟩⟩
  have hnodup := nodup_names_context hfits
  rw [fits, Bool.and_eq_true, Bool.and_eq_true] at hfits
  obtain ⟨⟨hitem, hleft⟩, hright⟩ := hfits
  refine ⟨exists_binds_of_contextFits hnodup hleft fun binding hbinding => ?_,
    binds_of_subset hnodup hitem fun binding hbinding => ?_,
    exists_binds_of_contextFits hnodup hright fun binding hbinding => ?_,
    fun bindings hperm => ?_⟩
  · rw [context_eq]
    exact List.mem_append_left _ (List.mem_append_left _ hbinding)
  · rw [context_eq]
    exact List.mem_append_left _ (List.mem_append_right _ hbinding)
  · rw [context_eq]
    exact List.mem_append_right _ hbinding
  · have hvalues := Expr.evaluate_of_perm hperm hnodup
    exact ⟨hvalues, funext fun e => by rw [Expr.holds, Expr.holds, hvalues]⟩

/-- The production `B(b) < A(a) : a > b = F(a - w)`, in which `w` is not bound. -/
def comparing : Production where
  predecessor := ⟨'A', ⟨["a"], by decide⟩⟩
  left := some ⟨'B', ⟨["b"], by decide⟩⟩
  condition := some (.binary .gt (.var "a") (.var "b"))
  successor := [⟨'F', ⟨[.binary .sub (.var "a") (.var "w")], by decide⟩⟩]
  wellFormed := ⟨by decide, by decide, by decide, by decide⟩

/-- With `a` and `w` exchanged it still applies at `B(1)A(2)`, and the other letter is reported. -/
theorem letters_are_binders_exchanged :
    let σ : Renaming := Equiv.swap ⟨'a', by decide⟩ ⟨'w', by decide⟩
    let site : Site (Element Float) :=
      ⟨some ⟨'B', ⟨[1.0], by decide⟩⟩, ⟨'A', ⟨[2.0], by decide⟩⟩, none⟩
    (comparing.rename σ).text = "B(b)<A(w):w>b=F(w-a)".toList ∧
      (comparing.rename σ).applies site = .ok true ∧
      (comparing.rename σ).replace site = .error (.unbound "a") ∧
      comparing.fits site ∧ Binds (comparing.context site) comparing.predecessor site.item ∧
      Expr.evaluate [("a", 2.0), ("b", 1.0)] = Expr.evaluate (comparing.context site) := by
  intro σ site
  obtain ⟨-, hsite⟩ := letters_are_binders σ comparing
  obtain ⟨happlies, hreplace, hbinds⟩ := hsite site
  have hfits : comparing.fits site := by rfl
  obtain ⟨-, hitem, -, horder⟩ := hbinds hfits
  have hold : comparing.applies site = .ok true := by rfl
  have hfails : comparing.replace site = .error (.unbound "w") := by rfl
  rw [hold] at happlies
  rw [hfails] at hreplace
  exact ⟨by decide +kernel, happlies, hreplace, hfits, hitem,
    (horder [("a", 2.0), ("b", 1.0)] (List.Perm.swap _ _ _)).1⟩

end Production

end Lindenmayer
